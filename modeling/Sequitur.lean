import Sequitur.Console.Screen
import Sequitur.Main
import Sequitur.Proofs.Formula.RoundTrip
import Sequitur.Proofs.Logic.Completeness
import Sequitur.Proofs.Logic.Soundness
import Sequitur.Proofs.Logic.Valuation
import Sequitur.Proofs.Validity.Encoding
import Sequitur.Proofs.Validity.Decision
import Sequitur.Proofs.Derivation.Growth
import Sequitur.Proofs.Session.Reachable
import Sequitur.Proofs.Session.Verdict
import Sequitur.Proofs.Derivation.Count
import Sequitur.Proofs.Derivation.Order
import Sequitur.Proofs.Derivation.Walk
import Sequitur.Proofs.Derivation.Frame
import Sequitur.Proofs.Session.Timeline
import Sequitur.Proofs.Session.Reaction
import Sequitur.Proofs.Session.Message
import Sequitur.Proofs.Session.Progress
import Sequitur.Proofs.Session.Display
import Sequitur.Proofs.Session.Hint
import Sequitur.Proofs.Console.Interleaving
import Sequitur.Proofs.Sequent.RoundTrip
import Sequitur.Proofs.Picture.Ink
import Sequitur.Proofs.Picture.Placement
import Sequitur.Proofs.Picture.Reading
import Sequitur.Proofs.Logic.Inversion
import Sequitur.Proofs.Rule.RoundTrip
import Sequitur.Proofs.Program.Rendering
import Sequitur.Proofs.Session.Transcript
import Sequitur.Proofs.Derivation.Traversal
import Sequitur.Proofs.Picture.Rectangle
import Sequitur.Proofs.Rule.Applicability
import Sequitur.Proofs.Picture.Geometry
import Sequitur.Proofs.Formula.Parentheses
import Sequitur.Proofs.Picture.Coloring
import Sequitur.Proofs.Rule.Iteration
import Sequitur.Proofs.Picture.Emphasis
import Sequitur.Proofs.Rule.Removal
import Sequitur.Proofs.Session.Cursor
import Sequitur.Proofs.Session.SequentFile
import Sequitur.Proofs.Formula.LexicalError
import Sequitur.Proofs.Console.Recall
import Sequitur.Proofs.Validity.Size
import Sequitur.Proofs.Formula.Layout
import Sequitur.Proofs.Formula.Matching
import Sequitur.Proofs.Yaml.Scalar
import Sequitur.Proofs.Yaml.Scan
import Sequitur.Proofs.Yaml.Outline
import Sequitur.Proofs.Yaml.Tree
import Sequitur.Proofs.Settings.RoundTrip
