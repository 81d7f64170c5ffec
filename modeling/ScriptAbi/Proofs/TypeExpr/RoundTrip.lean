import ScriptAbi.Proofs.TypeExpr.Grammar
import ScriptAbi.Proofs.Value.Canonical
import Mathlib.Data.List.Basic

namespace ScriptAbi

/-!
# Types read back from their text

A type is printed as its base with the sizes of its dimensions in brackets, the outermost first, and
with nothing else. Of the texts that denote a type this is the plainest one.

* `TypeExpr.Nameable`: the types that texts denote. A struct is not named like a kind of scalars, and
  sizes fit in 64 bits.
* `nameable_of_ofText?`: what a text denotes is one of them.
* `toList_render`: the text of a type is its base and its brackets; `Nameable.split_render` tells
  them apart.
* `Nameable.writtenType_render`: the text of such a type is written as the type, so that it denotes
  the type (`ofText?_render`).
* `ofText_render_iff_nameable`: the texts of all types, and which of them is printed.
-/

namespace Kind

/-- No two kinds share a name. -/
theorem ofName?_name (kind : Kind) : ofName? kind.name = some kind := by
  have hall : ∀ kind ∈ all, ofName? kind.name = some kind := by decide
  exact hall kind (mem_all kind)

/-- Kinds are named by names. -/
theorem isName_name (kind : Kind) : Text.isName kind.name.toList = true := by
  have hall : ∀ kind ∈ all, Text.isName kind.name.toList = true := by decide
  exact hall kind (mem_all kind)

end Kind

namespace TypeExpr

/-- A text can denote the type: a struct has a name that is no kind's, and sizes are below the bound
    of sizes. -/
inductive Nameable : TypeExpr → Prop
  | scalar (kind : Kind) : Nameable (.scalar kind)
  | struct {name : String} (hname : Text.isName name.toList = true)
      (hkind : Kind.ofName? name = none) : Nameable (.struct name)
  | array {element : TypeExpr} {size : Nat} (helement : Nameable element)
      (hsize : size < Text.sizeBound) : Nameable (.array element size)

/-! ### What a text denotes -/

/-- Sizes that can be written are below the bound. -/
theorem lt_of_mem_writtenSizes {cs : List Char} {sizes : List Nat} (h : WrittenSizes cs sizes) :
    ∀ size ∈ sizes, size < Text.sizeBound := by
  induction h with
  | nil => simp
  | cons _ hsize _ ih =>
    refine List.forall_mem_cons.2 ⟨?_, ih⟩
    cases hsize with
    | plain _ hlt => exact hlt
    | signed _ hlt => exact hlt

/-- The type with a name is nameable. -/
theorem nameable_ofName {name : List Char} (h : Text.isName name = true) :
    (ofName (String.ofList name)).Nameable := by
  unfold ofName
  split
  · exact .scalar _
  · refine .struct ?_ ‹_›
    rwa [String.toList_ofList]

/-- Arrays of a nameable type are nameable, with sizes below the bound. -/
theorem Nameable.withSizes {type : TypeExpr} (htype : type.Nameable) {sizes : List Nat}
    (h : ∀ size ∈ sizes, size < Text.sizeBound) : (type.withSizes sizes).Nameable := by
  induction sizes with
  | nil => exact htype
  | cons size sizes ih =>
    rw [List.forall_mem_cons] at h
    exact .array (ih h.2) h.1

/-- A type that is written is nameable. -/
theorem nameable_of_writtenType {cs : List Char} {type : TypeExpr} (h : WrittenType cs type) :
    type.Nameable := by
  cases h with
  | intro _ hbase hbrackets =>
    exact (nameable_ofName hbase.isName).withSizes (lt_of_mem_writtenSizes hbrackets)

/-- **What a text denotes** is nameable. -/
theorem nameable_of_ofText? {text : String} {type : TypeExpr} (h : ofText? text = some type) :
    type.Nameable :=
  nameable_of_writtenType (ofText?_eq_some_iff_written.1 h)

/-! ### The characters of a text -/

/-- The characters of the dimensions. -/
def brackets (sizes : List Nat) : List Char :=
  sizes.flatMap fun size => '[' :: (Nat.toDigits 10 size ++ [']'])

/-- A type is printed as its base and its sizes in brackets. -/
theorem toList_render (type : TypeExpr) :
    type.render.toList = type.base.toList ++ brackets type.sizes := by
  have hbracketed : ∀ size, (bracketed size).toList = '[' :: (Nat.toDigits 10 size ++ [']']) := by
    intro size
    show ("[" ++ size.repr ++ "]").toList = _
    rw [String.toList_append, String.toList_append, Nat.toList_repr]
    rfl
  rw [render, String.toList_append, String.toList_join, List.flatMap_map, brackets]
  simp only [hbracketed]

/-- The base of a nameable type has a name. -/
theorem Nameable.isName_base {type : TypeExpr} (h : type.Nameable) :
    Text.isName type.base.toList = true := by
  induction h with
  | scalar kind => exact kind.isName_name
  | struct hname => exact hname
  | array _ _ ih => exact ih

/-- Its sizes are below the bound. -/
theorem Nameable.lt_of_mem_sizes {type : TypeExpr} (h : type.Nameable) :
    ∀ size ∈ type.sizes, size < Text.sizeBound := by
  induction h with
  | scalar | struct => simp [sizes]
  | array _ hsize ih => exact List.forall_mem_cons.2 ⟨hsize, ih⟩

/-- A nameable type is given by its base and its sizes. -/
theorem Nameable.ofName_base {type : TypeExpr} (h : type.Nameable) :
    (ofName type.base).withSizes type.sizes = type := by
  induction h with
  | scalar kind => rw [base, ofName, kind.ofName?_name]; rfl
  | struct _ hkind => rw [base, ofName, hkind]; rfl
  | array _ _ ih => rw [base, sizes, TypeExpr.withSizes, ih]

/-! ### The text is written as the type -/

/-- A name alone is a base: there is no space in it to end the word `struct`. -/
theorem writtenBase_of_isName {name : List Char} (h : Text.isName name = true) :
    WrittenBase name name := by
  have hmark : ¬ "struct ".toList <+: name ++ [] := by
    intro hmark
    rw [List.append_nil] at hmark
    exact absurd ((isName_iff.1 h).2 ' ' (hmark.mem (by simp))) (by decide)
  have hbase := WrittenBase.bare h .nothing hmark
  rwa [List.append_nil] at hbase

/-- **Brackets** are written as the sizes in them. -/
theorem writtenSizes_brackets {sizes : List Nat} (h : ∀ size ∈ sizes, size < Text.sizeBound) :
    WrittenSizes (brackets sizes) sizes := by
  induction sizes with
  | nil => exact .nil
  | cons size sizes ih =>
    rw [List.forall_mem_cons] at h
    have hcons : brackets (size :: sizes)
        = '[' :: (Nat.toDigits 10 size ++ ']' :: brackets sizes) := by
      simp [brackets]
    rw [hcons]
    exact .cons (Text.padded_self _) (.plain (writtenNat_toDigits size) h.1) (ih h.2)

/-- The base ends where the first bracket is. -/
theorem Nameable.split_render {type : TypeExpr} (h : type.Nameable) :
    type.render.toList.takeWhile (· != '[') = type.base.toList
      ∧ type.render.toList.dropWhile (· != '[') = brackets type.sizes := by
  rw [toList_render]
  exact Text.takeWhile_append_of_head? (ne_openingBracket_of_isName h.isName_base)
    (writtenSizes_brackets h.lt_of_mem_sizes).startsWithBracket

/-- **The text of a type** is written as the type. -/
theorem Nameable.writtenType_render {type : TypeExpr} (h : type.Nameable) :
    WrittenType type.render.toList type := by
  have hwritten : WrittenType (type.base.toList ++ brackets type.sizes ++ [])
      ((ofName (String.ofList type.base.toList)).withSizes type.sizes) :=
    .intro (Text.padded_self _) (writtenBase_of_isName h.isName_base)
      (writtenSizes_brackets h.lt_of_mem_sizes) (by simp)
  rwa [List.append_nil, ← toList_render, String.ofList_toList, h.ofName_base] at hwritten

/-- The text of a type denotes the type. -/
theorem ofText?_render {type : TypeExpr} (h : type.Nameable) : ofText? type.render = some type :=
  ofText?_eq_some_iff_written.2 h.writtenType_render

/-- **Types are printed and read back.** The texts that are read as types are those that are written
    as types, and the types that they are read as are the nameable ones. The printed text of a type
    is read as the type iff the type is nameable. Texts of one type, with whatever blanks, marks,
    braces and signs, are printed alike, and texts of different types are not. -/
theorem ofText_render_iff_nameable :
    (∀ text type, ofText text = .ok type ↔ WrittenType text.toList type)
      ∧ (∀ type : TypeExpr, (∃ text, ofText text = .ok type) ↔ type.Nameable)
      ∧ (∀ type, ofText type.render = .ok type ↔ type.Nameable)
      ∧ ∀ text text' type type', ofText text = .ok type → ofText text' = .ok type' →
        (type.render = type'.render ↔ type = type') := by
  simp only [ofText_eq_ok_iff]
  refine ⟨fun _ _ => ofText?_eq_some_iff_written, fun type => ?_, fun type => ?_, ?_⟩
  · constructor
    · rintro ⟨text, htext⟩
      exact nameable_of_ofText? htext
    · intro h
      exact ⟨type.render, ofText?_render h⟩
  · exact ⟨nameable_of_ofText?, ofText?_render⟩
  · intro text text' type type' htext htext'
    refine ⟨fun hrender => ?_, fun heq => heq ▸ rfl⟩
    have hread := ofText?_render (nameable_of_ofText? htext)
    rw [hrender, ofText?_render (nameable_of_ofText? htext')] at hread
    exact (Option.some.inj hread).symm

/-! A struct whose name is the word that may stand before names, and the largest size. -/

/-- An array of the largest size of arrays of no items. -/
def oddGrid : TypeExpr := .array (.array (.struct "struct") 0) 18446744073709551615

/-- Two texts of one type, with marks, braces, signs and zeros in front of digits: both are read as
    the type, and so is its own text. -/
theorem ofText_render_oddGrid :
    ofText " struct struct {}\t[ +18446744073709551615 ][00] " = .ok oddGrid
      ∧ ofText "struct\t{}[18446744073709551615][+0]" = .ok oddGrid
      ∧ ofText oddGrid.render = .ok oddGrid
      ∧ ∀ text type, ofText text = .ok type →
        (oddGrid.render = type.render ↔ oddGrid = type) := by
  have hmarked : ofText " struct struct {}\t[ +18446744073709551615 ][00] " = .ok oddGrid := by
    decide +kernel
  have hbare : ofText "struct\t{}[18446744073709551615][+0]" = .ok oddGrid := by decide +kernel
  obtain ⟨-, hnameable, hrender, hsame⟩ := ofText_render_iff_nameable
  exact ⟨hmarked, hbare, (hrender oddGrid).2 ((hnameable oddGrid).1 ⟨_, hmarked⟩),
    fun text type htext => hsame _ text oddGrid type hmarked htext⟩

end TypeExpr

end ScriptAbi
