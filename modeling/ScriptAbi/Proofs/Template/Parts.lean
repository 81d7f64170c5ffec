import ScriptAbi.Proofs.Slot.Longest
import ScriptAbi.Proofs.Template.Words

namespace ScriptAbi

/-!
# The parts of a template

A template, read from left to right, is a list of characters and placeholders. A dollar sign with a
slot name after it is a placeholder, of the longest such name; every other character stands for
itself.

* `Part`: a character or a placeholder; `Part.fill` is its text once slots have values.
* `IsReading`: the parts of a text, said without the scanner. A text has one reading
  (`IsReading.unique`) and gives the text back (`IsReading.join_source`).
* `isReading_parts`: `Template.ofText` reads a text so. `hasSlot_iff_mem_parts` and
  `substitute_eq_join` say what a template has and how it is filled, part by part.
-/

/-- A part of a text: a character that stands for itself, or the placeholder of a slot. -/
inductive Part
  | char (c : Char)
  | placeholder (slot : String)
  deriving DecidableEq, Repr

/-- The text of a part where `values` tells what stands for a slot. A placeholder of a slot with no
    value stays. -/
def Part.fill (values : String → Option String) : Part → String
  | .char c => String.singleton c
  | .placeholder slot => (values slot).getD ("$" ++ slot)

/-- The text of a part as it was written. -/
def Part.source : Part → String := Part.fill fun _ => none

/-- **The parts of a text** from left to right. A dollar sign and the longest slot name after it are
    a placeholder. Any other character is a part of its own, and so is a dollar sign that no slot
    name follows. -/
inductive IsReading : List Char → List Part → Prop
  | nil : IsReading [] []
  | placeholder {name rest : List Char} {parts : List Part}
      (hname : LongestSlotName name (name ++ rest)) (hrest : IsReading rest parts) :
      IsReading ('$' :: (name ++ rest)) (.placeholder (String.ofList name) :: parts)
  | char {c : Char} {rest : List Char} {parts : List Part}
      (hplain : c = '$' → ∀ name, IsSlotName name → ¬ name <+: rest)
      (hrest : IsReading rest parts) : IsReading (c :: rest) (.char c :: parts)

/-- **A text has one reading.** -/
theorem IsReading.unique {cs : List Char} {parts parts' : List Part} (h : IsReading cs parts)
    (h' : IsReading cs parts') : parts = parts' := by
  induction h generalizing parts' with
  | nil =>
    cases h'
    rfl
  | @placeholder name rest parts hname _ ih =>
    generalize hcs : '$' :: (name ++ rest) = cs at h'
    cases h' with
    | nil => contradiction
    | @placeholder name' rest' parts' hname' hrest' =>
      have hsame : name ++ rest = name' ++ rest' := List.tail_eq_of_cons_eq hcs
      -- two longest names at one place are the same name
      have hnames : name = name' := hname.unique (hsame ▸ hname')
      subst hnames
      rw [ih (List.append_cancel_left hsame ▸ hrest')]
    | char hplain' =>
      cases hcs
      -- a dollar sign is plain text only where no name follows it
      exact absurd hname.isPrefix (hplain' rfl name hname.isSlotName)
  | @char c rest parts hplain _ ih =>
    -- the text has the same first character in both readings
    generalize hcs : c :: rest = cs at h'
    cases h' with
    | nil => contradiction
    | @placeholder name' rest' parts' hname' hrest' =>
      cases hcs
      exact absurd hname'.isPrefix (hplain rfl name' hname'.isSlotName)
    | char _ hrest' =>
      cases hcs
      rw [ih hrest']

/-- **A reading loses nothing**: the parts as they were written are the text. -/
theorem IsReading.join_source {cs : List Char} {parts : List Part} (h : IsReading cs parts) :
    String.join (parts.map Part.source) = String.ofList cs := by
  induction h with
  | nil => rfl
  | placeholder _ _ ih =>
    rw [List.map_cons, String.join_cons, ih]
    simp [Part.source, Part.fill, ← String.toList_inj]
  | char _ _ ih =>
    rw [List.map_cons, String.join_cons, ih]
    simp [Part.source, Part.fill]

/-! ### The parts of a template -/

/-- The parts that a piece is made of. -/
def Piece.parts : Piece → List Part
  | .text cs => cs.map Part.char
  | .slot name => [.placeholder name]

namespace Template

/-- The parts that a template is made of. -/
def parts (template : Template) : List Part := List.flatMap Piece.parts template

@[simp] theorem parts_nil : parts [] = [] := rfl

@[simp] theorem parts_cons (piece : Piece) (template : Template) :
    parts (piece :: template) = piece.parts ++ template.parts := rfl

/-- One more character in front is one more part. -/
@[simp] theorem parts_consChar (c : Char) (template : Template) :
    (consChar c template).parts = .char c :: template.parts := by
  unfold consChar
  split
  · rfl
  · rfl

/-- **The template of a text has the parts of the text.** -/
theorem isReading_parts (cs : List Char) : IsReading cs (ofChars cs).parts := by
  fun_induction ofChars cs with
  | case1 => exact .nil
  | case2 rest name tail h _ ih =>
    obtain ⟨hname, rfl⟩ := slotName?_eq_some_iff.1 h
    exact .placeholder hname ih
  | case3 rest h ih =>
    rw [parts_consChar]
    exact .char (fun _ => slotName?_eq_none_iff.1 h) ih
  | case4 c rest h ih =>
    rw [parts_consChar]
    exact .char (fun hc => absurd hc h) ih

/-- A template has the slots of which it has a placeholder. -/
theorem hasSlot_iff_mem_parts {template : Template} {slot : String} :
    template.hasSlot slot = true ↔ .placeholder slot ∈ template.parts := by
  rw [hasSlot, List.contains_iff_mem]
  induction template with
  | nil => simp [occurrences]
  | cons piece template ih =>
    cases piece <;> simp_all [occurrences, Piece.slot?, Piece.parts]

/-- A plain run is filled with its own characters, a placeholder on its own. -/
theorem substitute_piece_eq_join (values : String → Option String) (piece : Piece) :
    piece.substitute values = String.join (piece.parts.map (Part.fill values)) := by
  cases piece with
  | slot name => simp [Piece.substitute, Piece.parts, Part.fill]
  | text cs =>
    simp only [Piece.substitute, Piece.parts, List.map_map]
    induction cs with
    | nil => rfl
    | cons c cs ih =>
      rw [List.map_cons, String.join_cons, ← ih]
      simp [Part.fill]

/-- **A template is filled part by part.** -/
theorem substitute_eq_join (values : String → Option String) (template : Template) :
    template.substitute values = String.join (template.parts.map (Part.fill values)) := by
  induction template with
  | nil => rfl
  | cons piece template ih =>
    rw [parts_cons, List.map_append, String.join_append, ← ih, ← substitute_piece_eq_join]
    rw [substitute, List.map_cons, String.join_cons, substitute]

end Template

end ScriptAbi
