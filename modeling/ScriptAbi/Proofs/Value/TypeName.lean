import ScriptAbi.Proofs.TypeExpr.RoundTrip
import ScriptAbi.Proofs.Value.Decidable
import ScriptAbi.Proofs.Value.Typing

namespace ScriptAbi

/-!
# The type that a value reports

A value names its type without knowing it: a struct by its schema, an array by its first item, whose
name its own size is put into, before the sizes that are there.

* `typeName_of_canonical`: a canonical value reports the type that it is canonical for, if its
  arrays are not empty.
* `typeName_of_check`: so does what stood the check, and the name is read back as the type.
-/

variable {schemas : List Schema}

/-- The size of an array comes before the sizes of its first item. -/
theorem typeName_array_of_first {first : Value} {rest : List Value} {element : TypeExpr}
    (helement : element.Nameable) (h : first.typeName = element.render) :
    (Value.array (first :: rest)).typeName
      = (TypeExpr.array element (first :: rest).length).render := by
  obtain ⟨htake, hdrop⟩ := helement.split_render
  have hsize : (toString (first :: rest).length).toList
      = Nat.toDigits 10 (first :: rest).length := Nat.toList_repr
  rw [Value.typeName, h, htake, hdrop, ← String.toList_inj, TypeExpr.toList_render]
  simp only [String.toList_append, String.toList_ofList, hsize]
  simp [TypeExpr.base, TypeExpr.sizes, TypeExpr.brackets]

/-- **A canonical value reports its type**, if no array in it is empty. -/
theorem typeName_of_canonical {type : TypeExpr} {value : Value}
    (h : Value.Canonical schemas type value) (htype : type.Nameable)
    (hsizes : ∀ size ∈ type.sizes, 0 < size) : value.typeName = type.render := by
  induction h with
  | scalar hkind =>
    rw [typeName_of_kind? hkind]
    exact (String.append_empty).symm
  | array hsize _ ih =>
    cases htype with
    | array helement =>
      obtain ⟨hpos, hsizes⟩ := List.forall_mem_cons.1 hsizes
      -- the size is not zero, so that there is a first item, which reports the type of them all
      obtain ⟨first, rest, rfl⟩ := List.exists_cons_of_length_pos (hsize ▸ hpos)
      rw [typeName_array_of_first helement (ih first (by simp) helement hsizes), hsize]
  | struct hfind =>
    rw [Value.typeName, Option.getD_some, Value.name_of_find? hfind]
    exact (String.append_empty).symm

/-- **What stood the check reports its type**, and the name that it reports is read back as the
    type. -/
theorem typeName_of_check {text : String} {type : TypeExpr} {value result : Value}
    (htext : TypeExpr.ofText text = .ok type) (hsizes : ∀ size ∈ type.sizes, 0 < size)
    (h : value.check schemas type = .ok result) :
    result.typeName = type.render ∧ TypeExpr.ofText result.typeName = .ok type := by
  have htype : type.Nameable := TypeExpr.nameable_of_ofText? (ofText_eq_ok_iff.1 htext)
  have hname : result.typeName = type.render :=
    typeName_of_canonical (canonical_of_check h) htype hsizes
  refine ⟨hname, ?_⟩
  rw [hname, ofText_eq_ok_iff]
  exact TypeExpr.ofText?_render htype

/-! Points in a grid, of a type that is written with more than its text. -/

/-- A point has two coordinates. -/
def pointSchemas : List Schema := [⟨"Point", [⟨"x", "int"⟩, ⟨"y", "int"⟩]⟩]

/-- A row of the grid, whose points have their coordinates in the order `y`, `x`. -/
def looseRow (y : Int) : Value :=
  .array [.struct none [("y", .int y), ("x", .int 0)], .struct none [("y", .int y), ("x", .int 1)],
    .struct none [("y", .int y), ("x", .int 2)]]

/-- The row with its points bound. -/
def boundRow (y : Int) : Value :=
  .array [.struct (some "Point") [("x", .int 0), ("y", .int y)],
    .struct (some "Point") [("x", .int 1), ("y", .int y)],
    .struct (some "Point") [("x", .int 2), ("y", .int y)]]

/-- Two rows of three points report the sizes from the outside in, without the mark, the braces and
    the blanks of the text. -/
theorem typeName_of_check_grid :
    (Value.array [looseRow 0, looseRow 1]).check pointSchemas (.array (.array (.struct "Point") 3) 2)
        = .ok (.array [boundRow 0, boundRow 1])
      ∧ TypeExpr.ofText " struct Point{} [+2][ 3 ]" = .ok (.array (.array (.struct "Point") 3) 2)
      ∧ (Value.array [boundRow 0, boundRow 1]).typeName = "Point[2][3]"
      ∧ TypeExpr.ofText "Point[2][3]" = .ok (.array (.array (.struct "Point") 3) 2) := by
  have hcheck : (Value.array [looseRow 0, looseRow 1]).check pointSchemas
      (.array (.array (.struct "Point") 3) 2) = .ok (.array [boundRow 0, boundRow 1]) := by
    decide +kernel
  have htext : TypeExpr.ofText " struct Point{} [+2][ 3 ]"
      = .ok (.array (.array (.struct "Point") 3) 2) := by
    rw [ofText_eq_ok_iff]
    decide +kernel
  obtain ⟨hname, hread⟩ := typeName_of_check htext (by decide) hcheck
  have hrender : (TypeExpr.array (.array (.struct "Point") 3) 2).render = "Point[2][3]" := by
    decide +kernel
  rw [hname, hrender] at hread
  exact ⟨hcheck, htext, hname.trans hrender, hread⟩

end ScriptAbi
