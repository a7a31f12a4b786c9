import TwoScript.Editor.Store
import TwoScript.Main
import TwoScript.Proofs.Code.Awaits
import TwoScript.Proofs.Code.Branches
import TwoScript.Proofs.Code.Hygiene
import TwoScript.Proofs.Code.Labels
import TwoScript.Proofs.Code.Margin
import TwoScript.Proofs.Code.Operators
import TwoScript.Proofs.Code.ReadBack
import TwoScript.Proofs.Code.Refusal
import TwoScript.Proofs.Code.Regroup
import TwoScript.Proofs.Code.Regrouped
import TwoScript.Proofs.Code.Rename
import TwoScript.Proofs.Code.Respelling
import TwoScript.Proofs.Code.Selections
import TwoScript.Proofs.Code.Spelling
import TwoScript.Proofs.Code.SpellingStatement
import TwoScript.Proofs.Code.Temporaries
import TwoScript.Proofs.Code.Twin
import TwoScript.Proofs.Command.Arguments
import TwoScript.Proofs.Command.Files
import TwoScript.Proofs.Command.Run
import TwoScript.Proofs.Editor.Diagnostic
import TwoScript.Proofs.Editor.Overlap
import TwoScript.Proofs.Editor.Positions
import TwoScript.Proofs.Editor.Session
import TwoScript.Proofs.Js.Atoms
import TwoScript.Proofs.Js.Literal
import TwoScript.Proofs.Js.Lowering
import TwoScript.Proofs.Js.Read
import TwoScript.Proofs.Js.Scan
import TwoScript.Proofs.Js.Scope
import TwoScript.Proofs.Js.Token
import TwoScript.Proofs.Number.RoundTrip
import TwoScript.Proofs.Number.Rounding
import TwoScript.Proofs.Parse.Agreement
import TwoScript.Proofs.Parse.Alike
import TwoScript.Proofs.Parse.Arms
import TwoScript.Proofs.Parse.Complete
import TwoScript.Proofs.Parse.CompleteStatement
import TwoScript.Proofs.Parse.Coverage
import TwoScript.Proofs.Parse.Depth
import TwoScript.Proofs.Parse.Derivation
import TwoScript.Proofs.Parse.EndOfInput
import TwoScript.Proofs.Parse.Faults
import TwoScript.Proofs.Parse.Genuine
import TwoScript.Proofs.Parse.Guards
import TwoScript.Proofs.Parse.Interpolation
import TwoScript.Proofs.Parse.Ladder
import TwoScript.Proofs.Parse.Listing
import TwoScript.Proofs.Parse.Lookahead
import TwoScript.Proofs.Parse.NodeSpans
import TwoScript.Proofs.Parse.Outcome
import TwoScript.Proofs.Parse.Pairing
import TwoScript.Proofs.Parse.Passage
import TwoScript.Proofs.Parse.Placeholder
import TwoScript.Proofs.Parse.Progress
import TwoScript.Proofs.Parse.Recovery
import TwoScript.Proofs.Parse.Resume
import TwoScript.Proofs.Parse.Room
import TwoScript.Proofs.Parse.Run
import TwoScript.Proofs.Parse.SoundStatement
import TwoScript.Proofs.Parse.Soundness
import TwoScript.Proofs.Parse.Source
import TwoScript.Proofs.Parse.Success
import TwoScript.Proofs.Parse.WellFormed
import TwoScript.Proofs.Parse.Yield
import TwoScript.Proofs.Text.Item
import TwoScript.Proofs.Token.Braces
import TwoScript.Proofs.Token.Carried
import TwoScript.Proofs.Token.Concat
import TwoScript.Proofs.Token.Delimited
import TwoScript.Proofs.Token.Extent
import TwoScript.Proofs.Token.Lexed
import TwoScript.Proofs.Token.Lines
import TwoScript.Proofs.Token.Lossless
import TwoScript.Proofs.Token.Mark
import TwoScript.Proofs.Token.Segment
import TwoScript.Proofs.Token.Shape
import TwoScript.Proofs.Token.Sources
import TwoScript.Proofs.Token.Spell
import TwoScript.Proofs.Token.Stretch
import TwoScript.Proofs.Token.TemplateBody
import TwoScript.Proofs.Tree.Every
import TwoScript.Proofs.Tree.Formed
import TwoScript.Proofs.Tree.Listed
import TwoScript.Proofs.Tree.Listing
import TwoScript.Proofs.Tree.Node
import TwoScript.Proofs.Tree.Relabel
import TwoScript.Proofs.Tree.Shown
