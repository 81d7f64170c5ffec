import ScriptAbi.Codec.Scalar
import ScriptAbi.Contract.Run

namespace ScriptAbi

/-!
# Transactions and reports in documents

* `SpendContext.toJson`, `SpendContext.ofJson?`: a transaction as far as it is known.
* `RunReport.toJson`: the report on a run.
-/

/-- The document of a transaction context; what is not known is null. -/
def SpendContext.toJson (context : SpendContext) : Json :=
  let tx :=
    match context.tx with
    | some bytes => .arr (bytes.map fun byte => .int byte.toNat)
    | none => .null
  .obj [("tx", tx), ("inputIndex", .ofNat? (context.input.map UInt64.toNat)),
    ("inputSatoshis", .ofNat? (context.satoshis.map UInt64.toNat))]

/-- The transaction context that a document denotes; what is missing is not known. -/
def SpendContext.ofJson? (json : Json) : Option SpendContext :=
  match json.record? ["tx", "inputIndex", "inputSatoshis"] with
  | some [tx, input, satoshis] => do
    return ⟨← Json.optional? none (Json.nullable? (Json.list? Json.byte?)) tx,
      ← Json.optional? none (Json.nullable? Json.uint64?) input,
      ← Json.optional? none (Json.nullable? Json.uint64?) satoshis⟩
  | _ => none

/-- The document of a report. -/
def RunReport.toJson : RunReport → Json
  | .success => .obj [("success", .bool true)]
  | .failure error => .obj [("success", .bool false), ("error", .str error)]

end ScriptAbi
