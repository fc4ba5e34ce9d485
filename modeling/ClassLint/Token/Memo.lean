/-
  ClassLint.Token.Memo

  Remembered readings of tokens and arbitrary values.  Reading is a function
  of the text alone, so a remembered instance may stand for any later reading
  of the same text until the memory is cleared.
-/

import Std.Data.TreeMap
import ClassLint.Shared
import ClassLint.Token
import ClassLint.Token.Arbitrary

namespace ClassLint

structure TokenMemo where
  tokens : Std.TreeMap Text (Shared Token)
  /-- Failed readings are remembered too. -/
  arbitrary : Std.TreeMap Text (Option (Shared Arbitrary))
  /-- The number of instances made of tokens, and of arbitrary values. -/
  made : Nat × Nat

namespace TokenMemo

def empty : TokenMemo := ⟨∅, ∅, 0, 0⟩

instance : Inhabited TokenMemo := ⟨empty⟩

def parse (memo : TokenMemo) (t : Text) : Shared Token × TokenMemo :=
  match memo.tokens[t]? with
  | some found => (found, memo)
  | none =>
    let new : Shared Token := ⟨memo.made.1, Token.parse t⟩
    (new, { memo with tokens := memo.tokens.insert t new, made := (memo.made.1 + 1, memo.made.2) })

def parseArbitrary (memo : TokenMemo) (t : Text) : Option (Shared Arbitrary) × TokenMemo :=
  match memo.arbitrary[t]? with
  | some found => (found, memo)
  | none =>
    match Arbitrary.parse? t with
    | some a =>
      let new : Shared Arbitrary := ⟨memo.made.2, a⟩
      (some new,
        { memo with
          arbitrary := memo.arbitrary.insert t (some new)
          made := (memo.made.1, memo.made.2 + 1) })
    | none => (none, { memo with arbitrary := memo.arbitrary.insert t none })

/-- Forget every reading.  Instances made before keep their numbers. -/
def clear (memo : TokenMemo) : TokenMemo :=
  { memo with tokens := ∅, arbitrary := ∅ }

end TokenMemo

end ClassLint
