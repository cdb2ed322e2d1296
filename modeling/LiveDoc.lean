import LiveDoc.Execution.Recorder
import LiveDoc.Files.FileTree
import LiveDoc.Main
import LiveDoc.Proofs.Document.Lines
import LiveDoc.Proofs.Document.NodeLines
import LiveDoc.Proofs.Document.Lossless
import LiveDoc.Proofs.Document.LineClass
import LiveDoc.Proofs.Document.Grammar
import LiveDoc.Proofs.Document.Acceptance
import LiveDoc.Proofs.Fragment.Scanning
import LiveDoc.Proofs.Fragment.Prose
import LiveDoc.Proofs.Execution.ProseUnit
import LiveDoc.Proofs.Execution.Writer
import LiveDoc.Proofs.Environment
import LiveDoc.Proofs.Execution.Dispatch
import LiveDoc.Proofs.Execution.ProseRun
import LiveDoc.Proofs.Evaluation.Simulation
import LiveDoc.Proofs.Execution.Simulation
import LiveDoc.Proofs.Document.Replacement
import LiveDoc.Proofs.Execution.CallLog
import LiveDoc.Proofs.Execution.Transcript
import LiveDoc.Proofs.Execution.Rendering
import LiveDoc.Proofs.Execution.OpenScopes
import LiveDoc.Proofs.Execution.ScopePairing
import LiveDoc.Proofs.Execution.RunTrace
import LiveDoc.Proofs.Execution.GrantedRun
import LiveDoc.Proofs.Execution.DispatchOrder
import LiveDoc.Proofs.HeadingTree
import LiveDoc.Proofs.Execution.HeadingScopes
import LiveDoc.Proofs.Fragment.LexemeLines
import LiveDoc.Proofs.Fragment.ExpressionLines
import LiveDoc.Proofs.Fragment.TokenLines
import LiveDoc.Proofs.Fragment.StatementLines
import LiveDoc.Proofs.Document.LineIndex
import LiveDoc.Proofs.Evaluation.Innermost
import LiveDoc.Proofs.Execution.ReportedLine
import LiveDoc.Proofs.Execution.RunJournal
import LiveDoc.Proofs.Execution.ErrorEvents
import LiveDoc.Proofs.Execution.ErrorRouting
import LiveDoc.Proofs.Execution.LimitedSink
import LiveDoc.Proofs.Execution.ProseEmission
import LiveDoc.Proofs.Fragment.LineReading
import LiveDoc.Proofs.Fragment.LineEnds
import LiveDoc.Proofs.Fragment.ScanEnd
import LiveDoc.Proofs.Fragment.ScanPlaces
import LiveDoc.Proofs.Fragment.CarriageReturns
import LiveDoc.Proofs.Fragment.ScanBehind
import LiveDoc.Proofs.Fragment.FieldLengths
import LiveDoc.Proofs.Fragment.ExpressionFrame
import LiveDoc.Proofs.Fragment.StatementFrame
import LiveDoc.Proofs.Fragment.ProgramAppend
import LiveDoc.Proofs.Fragment.LineScan
import LiveDoc.Proofs.Fragment.RejectedLine
import LiveDoc.Proofs.Fragment.DeeperLine
import LiveDoc.Proofs.Evaluation.Sequencing
import LiveDoc.Proofs.Command.PlanSafety
import LiveDoc.Proofs.Execution.StackCalls
import LiveDoc.Proofs.Command.FileChanges
import LiveDoc.Proofs.Command.SharedOutputs
import LiveDoc.Proofs.Command.ExitStatus
import LiveDoc.Proofs.Document.Appending
import LiveDoc.Proofs.Evaluation.Frame
import LiveDoc.Proofs.Fragment.ReadBack
import LiveDoc.Proofs.Evaluation.WrittenValues
import LiveDoc.Proofs.Integer64
import LiveDoc.Proofs.Evaluation.IntegerResults
import LiveDoc.Proofs.Evaluation.RangeItems
import LiveDoc.Proofs.Binary64.Nearest
import LiveDoc.Proofs.Binary64.OfInteger
import LiveDoc.Proofs.Evaluation.IntegerOrder
import LiveDoc.Proofs.Fragment.FormatPieces
import LiveDoc.Proofs.Fragment.TreeHeight
import LiveDoc.Proofs.Fragment.HeightBound
import LiveDoc.Proofs.Fragment.LayoutTokens
import LiveDoc.Proofs.Evaluation.LoopExits
import LiveDoc.Proofs.Value.Equality
import LiveDoc.Proofs.Evaluation.DistinctKeys
import LiveDoc.Proofs.Evaluation.Updates
import LiveDoc.Proofs.Evaluation.LengthLimit
import LiveDoc.Proofs.Fragment.OperandPlaces
import LiveDoc.Proofs.Document.LineTiling
import LiveDoc.Proofs.Execution.WriterRequests
import LiveDoc.Proofs.Text.Occurrences
import LiveDoc.Proofs.Evaluation.SplitAndJoin
import LiveDoc.Proofs.Fragment.TokenPlaces
import LiveDoc.Proofs.Call.Arguments
import LiveDoc.Proofs.Document.Titles
import LiveDoc.Proofs.Fragment.LiteralReadings
