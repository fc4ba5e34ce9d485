/-
  ClassLint.Failure

  Why a run or an operation fails, with the wording that is shown.
-/

import ClassLint.Catalogue.Generator
import ClassLint.Glob.Pattern

namespace ClassLint

inductive Failure where
  | file (fault : FileFault)
  | pattern (fault : Glob.Fault)
  /-- A text is no JSON, or not of the expected shape. -/
  | json
  | config (fault : ConfigFault)
  | stylesheet (path : Path) (fault : Stylesheet.Fault)
  | catalogue (fault : CatalogueFault)
deriving DecidableEq, Repr, Inhabited

def Failure.message : Failure → Text
  | file fault => "IO error: ".toList ++ fault.message
  | pattern fault => "Pattern error: ".toList ++ fault.message
  | json => "JSON serialization error".toList
  | config fault => "Configuration error: ".toList ++ fault.message
  | stylesheet path fault =>
    "Failed to parse stylesheet ".toList ++ path.text ++ ": ".toList ++ fault.message
  | catalogue fault => "Catalogue error: ".toList ++ fault.message

end ClassLint
