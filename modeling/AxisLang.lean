import AxisLang.Text.Basic
import AxisLang.Text.Columns
import AxisLang.Datum
import AxisLang.Keyed
import AxisLang.Terminal.Basic
import AxisLang.Tree.Subtrees
import AxisLang.Tree.Show
import AxisLang.Lexer.Contextual
import AxisLang.Builder.Basic
import AxisLang.Parser.Machine
import AxisLang.Lexer.Indentation
import AxisLang.Parser.Settings
import AxisLang.Parser.Basic
import AxisLang.Expression.Grammar
import AxisLang.Expression.Compile
import AxisLang.Expression.Einsum
import AxisLang.Expression.Session
import AxisLang.Handler.Task
import AxisLang.Handler.InPlace
import AxisLang.Handler.Visit
import AxisLang.Handler.Interpret
import AxisLang.Parser.Stored
import AxisLang.Parser.Examples
import AxisLang.Parser.Service
import AxisLang.Lexer.Slots
import AxisLang.Package
import AxisLang.Workload.Expressions
import AxisLang.Workload.Errors
import AxisLang.Proofs.Rendering
import AxisLang.Proofs.Einsum
import AxisLang.Proofs.Canonical
import AxisLang.Proofs.AcceptedShapes
import AxisLang.Proofs.Broadcast
import AxisLang.Proofs.Evaluation
import AxisLang.Proofs.Collapse
import AxisLang.Proofs.Ellipsis
import AxisLang.Proofs.FastPath
import AxisLang.Proofs.SpelledAxes
import AxisLang.Proofs.Alignment
import AxisLang.Proofs.Sufficiency
import AxisLang.Proofs.Consistency
import AxisLang.Proofs.ShapeCriterion
import AxisLang.Proofs.Feeding
import AxisLang.Proofs.SessionCache
import AxisLang.Proofs.Viability
import AxisLang.Proofs.FirstOffence
import AxisLang.Proofs.OperandCount
import AxisLang.Proofs.OutputStage
import AxisLang.Proofs.Placement
import AxisLang.Proofs.LexerAgreement
import AxisLang.Proofs.TokenPlaces
import AxisLang.Proofs.KeptChildren
import AxisLang.Proofs.Meanings
import AxisLang.Proofs.TreeSpans
import AxisLang.Proofs.EmbeddedTransformer
import AxisLang.Proofs.Blocks
import AxisLang.Proofs.RegexWidths
import AxisLang.Proofs.Literals
import AxisLang.Proofs.TerminalOrder
import AxisLang.Proofs.BlindHandlers
import AxisLang.Proofs.InPlace
import AxisLang.Proofs.Scanners
import AxisLang.Proofs.Tiling
import AxisLang.Proofs.TokenActions
import AxisLang.Proofs.Visits
