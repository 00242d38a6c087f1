import Scriptlet.CommandLine.FileTree
import Scriptlet.CommandLine.Request
import Scriptlet.CommandLine.Run
import Scriptlet.Eval
import Scriptlet.Eval.Action
import Scriptlet.Eval.Builtin
import Scriptlet.Eval.Operator
import Scriptlet.Fault
import Scriptlet.Limits
import Scriptlet.Main
import Scriptlet.Node
import Scriptlet.Node.Listing
import Scriptlet.Node.Render
import Scriptlet.Parse.Construct
import Scriptlet.Parse.Expression
import Scriptlet.Parse.Feed
import Scriptlet.Parse.Rules
import Scriptlet.Parse.Window
import Scriptlet.Proofs.CommandLine.Status
import Scriptlet.Proofs.Eval.Action
import Scriptlet.Proofs.Eval.Agree
import Scriptlet.Proofs.Eval.Arithmetic
import Scriptlet.Proofs.Eval.Course
import Scriptlet.Proofs.Eval.Cutoff
import Scriptlet.Proofs.Eval.Discipline
import Scriptlet.Proofs.Eval.Frame
import Scriptlet.Proofs.Eval.Handing
import Scriptlet.Proofs.Eval.Lockstep
import Scriptlet.Proofs.Eval.Mirror
import Scriptlet.Proofs.Eval.Reach
import Scriptlet.Proofs.Eval.Scoped
import Scriptlet.Proofs.Eval.Signals
import Scriptlet.Proofs.Node.Formed
import Scriptlet.Proofs.Node.Spelled
import Scriptlet.Proofs.Parse.Accepts
import Scriptlet.Proofs.Parse.Complete
import Scriptlet.Proofs.Parse.Depth
import Scriptlet.Proofs.Parse.Examined
import Scriptlet.Proofs.Parse.Grammar
import Scriptlet.Proofs.Parse.Holes
import Scriptlet.Proofs.Parse.Inverts
import Scriptlet.Proofs.Parse.Joined
import Scriptlet.Proofs.Parse.Keeps
import Scriptlet.Proofs.Parse.Layout
import Scriptlet.Proofs.Parse.Levels
import Scriptlet.Proofs.Parse.Lookahead
import Scriptlet.Proofs.Parse.Loops
import Scriptlet.Proofs.Parse.Numerals
import Scriptlet.Proofs.Parse.Pieces
import Scriptlet.Proofs.Parse.Position
import Scriptlet.Proofs.Parse.Rendered
import Scriptlet.Proofs.Parse.Sound
import Scriptlet.Proofs.Parse.Source
import Scriptlet.Proofs.Parse.Span
import Scriptlet.Proofs.Parse.Wp
import Scriptlet.Proofs.Session.Aftermath
import Scriptlet.Proofs.Session.Arrival
import Scriptlet.Proofs.Session.Failures
import Scriptlet.Proofs.Session.Identity
import Scriptlet.Proofs.Session.Pieces
import Scriptlet.Proofs.Session.ReadBack
import Scriptlet.Proofs.Session.Repeat
import Scriptlet.Proofs.Session.Runs
import Scriptlet.Proofs.Store.Forest
import Scriptlet.Proofs.Token.Blanks
import Scriptlet.Proofs.Token.Lexemes
import Scriptlet.Proofs.Token.Spelling
import Scriptlet.Proofs.Value.Literal
import Scriptlet.Proofs.Value.Shift
import Scriptlet.Session
import Scriptlet.Store
import Scriptlet.Store.Listing
import Scriptlet.SyntaxError
import Scriptlet.Text.Digit
import Scriptlet.Text.Printable
import Scriptlet.Text.Quoted
import Scriptlet.Text.Utf8
import Scriptlet.Token
import Scriptlet.Token.Scan
import Scriptlet.Value
import Scriptlet.Value.Text
import Scriptlet.Proofs.Eval.Truncated
import Scriptlet.Proofs.Session.DeeperLimits
import Scriptlet.Proofs.Session.ScopeTree
import Scriptlet.Proofs.Eval.Sequence
import Scriptlet.Proofs.Node.Listed
import Scriptlet.Proofs.Parse.ToldApart
