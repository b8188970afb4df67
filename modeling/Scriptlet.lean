import Scriptlet.Highlight
import Scriptlet.Main
import Scriptlet.Proofs.Highlight
import Scriptlet.Proofs.Prompt.Replay
import Scriptlet.Proofs.Script.Concatenation
import Scriptlet.Proofs.Script.Printing
import Scriptlet.Proofs.Script.Safety
import Scriptlet.Proofs.Session.Constancy
import Scriptlet.Session
import Scriptlet.Proofs.Environment.Access
import Scriptlet.Proofs.Evaluation.Related
import Scriptlet.Proofs.Evaluation.Visibility
import Scriptlet.Proofs.Environment.Form
import Scriptlet.Proofs.Script.Uniformity
import Scriptlet.Proofs.Token.WellFormed
import Scriptlet.Proofs.Number.Decimal
import Scriptlet.Proofs.Number.Positional
import Scriptlet.Proofs.Number.Printed
import Scriptlet.Proofs.Script.Values
import Scriptlet.Proofs.Token.Obstacle
import Scriptlet.Proofs.Grammar.Placement
import Scriptlet.Proofs.Script.Names
import Scriptlet.Proofs.Prompt.Survival
import Scriptlet.Proofs.Prompt.Agreement
import Scriptlet.Proofs.Parser.Extent
import Scriptlet.Proofs.Script.Layout
import Scriptlet.Proofs.Script.Declarations
import Scriptlet.Proofs.Environment.Change
import Scriptlet.Proofs.Evaluation.Writing
import Scriptlet.Proofs.Session.Frame
import Scriptlet.Proofs.Token.LeadingPoint
import Scriptlet.Proofs.Token.Separation
import Scriptlet.Proofs.Number.Distinct
import Scriptlet.Proofs.Node.Outline
import Scriptlet.Proofs.Script.Dump
import Scriptlet.Proofs.Evaluation.Object
import Scriptlet.Proofs.Number.Remainder
