import ScriptAbi.Codec.Value
import ScriptAbi.Codec.State
import ScriptAbi.Codec.Descriptor
import ScriptAbi.Codec.Contract
import ScriptAbi.Json.Printer
import ScriptAbi.Proofs.Text.Words
import ScriptAbi.Proofs.Number.RoundTrip
import ScriptAbi.Proofs.Script.Bytes
import ScriptAbi.Proofs.Outcome
import ScriptAbi.Proofs.Script.Words
import ScriptAbi.Proofs.State.RoundTrip
import ScriptAbi.Proofs.Contract.State
import ScriptAbi.Proofs.Value.Canonical
import ScriptAbi.Proofs.Value.Words
import ScriptAbi.Proofs.Slot.Name
import ScriptAbi.Proofs.Slot.Within
import ScriptAbi.Proofs.Value.Leaves
import ScriptAbi.Proofs.Value.Alike
import ScriptAbi.Proofs.Call.Arguments
import ScriptAbi.Proofs.Template.Words
import ScriptAbi.Proofs.Call.Constructor
import ScriptAbi.Proofs.Call.Function
import ScriptAbi.Proofs.Call.Agreement
import ScriptAbi.Proofs.Value.Typing
import ScriptAbi.Proofs.Slot.Longest
import ScriptAbi.Proofs.Template.Parts
import ScriptAbi.Proofs.Call.Outcome
import ScriptAbi.Proofs.Literal.Form
import ScriptAbi.Proofs.Literal.Grammar
import ScriptAbi.Proofs.Literal.RoundTrip
import ScriptAbi.Proofs.Bytes
import ScriptAbi.Proofs.Script.Lossless
import ScriptAbi.Proofs.Number.Fixed
import ScriptAbi.Proofs.Value.Matching
import ScriptAbi.Proofs.Value.History
import ScriptAbi.Proofs.Contract.History
import ScriptAbi.Proofs.Call.Deferred
import ScriptAbi.Proofs.Call.Selector
import ScriptAbi.Proofs.Contract.Data
import ScriptAbi.Proofs.Script.NormalText
import ScriptAbi.Proofs.Template.Wordwise
import ScriptAbi.Proofs.Codec.Descriptor
import ScriptAbi.Proofs.Codec.Value
import ScriptAbi.Proofs.Contract.SlotWords
import ScriptAbi.Proofs.Script.CutOff
import ScriptAbi.Proofs.State.Trailer
import ScriptAbi.Proofs.Template.Matches
import ScriptAbi.Proofs.Contract.Run
import ScriptAbi.Proofs.State.Length
import ScriptAbi.Proofs.Value.Scalar
import ScriptAbi.Proofs.Value.Recheck
import ScriptAbi.Proofs.Number.Shortest
import ScriptAbi.Proofs.State.ByPosition
import ScriptAbi.Proofs.TypeExpr.Grammar
import ScriptAbi.Proofs.TypeExpr.RoundTrip
import ScriptAbi.Proofs.Value.TypeName
import ScriptAbi.Proofs.Value.Reordered
import ScriptAbi.Proofs.Call.Reordered
import ScriptAbi.Proofs.Value.Failure
import ScriptAbi.Proofs.Call.Place
import ScriptAbi.Proofs.Call.Final
import ScriptAbi.Proofs.Literal.Failure
import ScriptAbi.Proofs.Literal.Diagnosis
import ScriptAbi.Proofs.Literal.Span
import ScriptAbi.Proofs.SourceMap.Nearest
import ScriptAbi.Proofs.Template.Slots
