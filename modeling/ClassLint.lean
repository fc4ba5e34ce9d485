import ClassLint.Command.LogFormat
import ClassLint.Main
import ClassLint.Proofs.Engine.Reset
import ClassLint.Proofs.Engine.Transparency
import ClassLint.Proofs.Expression.Position
import ClassLint.Proofs.Finding.Blocked
import ClassLint.Proofs.Finding.Exactness
import ClassLint.Proofs.Finding.Growth
import ClassLint.Proofs.Finding.Monotone
import ClassLint.Proofs.Stylesheet.Nesting
import ClassLint.Proofs.Token.Grammar
import ClassLint.Proofs.Engine.Instances
import ClassLint.Proofs.Stylesheet.Names
import ClassLint.Proofs.Stylesheet.Escaping
import ClassLint.Proofs.Command.Check
import ClassLint.Proofs.Expression.Distinct
import ClassLint.Proofs.Expression.RoundTrip
import ClassLint.Proofs.Pattern.Wildcards
import ClassLint.Proofs.Finding.Blame
import ClassLint.Proofs.Stylesheet.Braces
import ClassLint.Proofs.Token.Arbitrary
import ClassLint.Proofs.Stylesheet.Enclosure
import ClassLint.Proofs.Engine.Candidates
import ClassLint.Proofs.Catalogue.Coverage
import ClassLint.Proofs.Report.Attribution
import ClassLint.Proofs.Command.Output
import ClassLint.Proofs.Resolution.Exactness
import ClassLint.Proofs.Catalogue.Expansion
import ClassLint.Proofs.Config.Merge
import ClassLint.Proofs.Stylesheet.Slices
import ClassLint.Proofs.Resolution.Staleness
import ClassLint.Proofs.Stylesheet.Flattening
