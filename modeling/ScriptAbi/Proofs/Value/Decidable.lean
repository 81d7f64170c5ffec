import ScriptAbi.Call
import ScriptAbi.Proofs.Value.Canonical

namespace ScriptAbi

/-!
# Deciding whether values are the same

`Value.same` compares two values part by part; with `same_iff` it decides equality of values, of
structs and of calls, so that what is said about given ones can be evaluated.
-/

mutual

/-- The values are the same, part by part. -/
def Value.same : Value → Value → Bool
  | .bool a, .bool b => a == b
  | .int m, .int n => m == n
  | .privKey m, .privKey n => m == n
  | .sigHashType a, .sigHashType b => a == b
  | .bytes kind data, .bytes kind' data' => kind == kind' && data == data'
  | .struct bound fields, .struct bound' fields' => bound == bound' && sameFields fields fields'
  | .array items, .array items' => sameItems items items'
  | _, _ => false

/-- The members have the same names and the same values. -/
def Value.sameFields : List (String × Value) → List (String × Value) → Bool
  | [], [] => true
  | (name, value) :: rest, (name', value') :: rest' =>
    name == name' && value.same value' && sameFields rest rest'
  | _, _ => false

/-- The items are the same. -/
def Value.sameItems : List Value → List Value → Bool
  | [], [] => true
  | item :: rest, item' :: rest' => item.same item' && sameItems rest rest'
  | _, _ => false

end

namespace Value

/-- Items are the same iff they are equal, if this holds of each. -/
theorem sameItems_iff {items items' : List Value}
    (h : ∀ item ∈ items, ∀ item', item.same item' = true ↔ item = item') :
    sameItems items items' = true ↔ items = items' := by
  induction items generalizing items' with
  | nil => cases items' <;> simp [sameItems]
  | cons item rest ih =>
    cases items' with
    | nil => simp [sameItems]
    | cons item' rest' =>
      rw [sameItems, Bool.and_eq_true, h item (by simp), ih fun i hi => h i (by simp [hi]),
        List.cons.injEq]

/-- Members are the same iff they are equal, if this holds of each. -/
theorem sameFields_iff {fields fields' : List (String × Value)}
    (h : ∀ field ∈ fields, ∀ value, field.2.same value = true ↔ field.2 = value) :
    sameFields fields fields' = true ↔ fields = fields' := by
  induction fields generalizing fields' with
  | nil => cases fields' <;> simp [sameFields]
  | cons field rest ih =>
    cases fields' with
    | nil => simp [sameFields]
    | cons field' rest' =>
      rw [sameFields, Bool.and_eq_true, Bool.and_eq_true, h field (by simp),
        ih fun f hf => h f (by simp [hf]), beq_iff_eq, List.cons.injEq, Prod.ext_iff]

/-- **The comparison is equality.** -/
theorem same_iff {v w : Value} : v.same w = true ↔ v = w := by
  induction v using Value.induct generalizing w with
  | scalar v kind hkind =>
    cases v with
    | array | struct => cases hkind
    | _ => cases w <;> simp [same]
  | array items ih =>
    cases w with
    | array items' => simp [same, sameItems_iff fun item hitem item' => ih item hitem]
    | _ => simp [same]
  | struct bound fields ih =>
    cases w with
    | struct bound' fields' => simp [same, sameFields_iff fun field hfield value => ih field hfield]
    | _ => simp [same]

instance : DecidableEq Value := fun v w => decidable_of_iff (v.same w = true) same_iff

end Value

deriving instance DecidableEq for Struct

deriving instance DecidableEq for Call

end ScriptAbi
