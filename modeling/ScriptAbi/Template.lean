import ScriptAbi.Text.Name

namespace ScriptAbi

/-!
# Templates

A template is a text with placeholders. A placeholder is a dollar sign and a slot name; a slot name
is a name followed by selectors, `[index]` or `.member`, as many as there are: `$p.keys[1]`. A
dollar sign with no slot name after it is plain text.

* `slotName?`: the longest slot name at the front of a text.
* `Template.ofText`: a text cut into plain runs and placeholders.
* `Template.substitute`: the text with values for some slots; the other placeholders stay.
-/

/-- A part of a template. -/
inductive Piece
  | text (cs : List Char)
  | slot (name : String)
  deriving DecidableEq, Repr

/-- The slot of a placeholder. -/
def Piece.slot? : Piece → Option String
  | .text _ => none
  | .slot name => some name

/-- The text of a piece, where `values` tells what stands for a slot. A slot with no value is
    written as its placeholder. -/
def Piece.substitute (values : String → Option String) : Piece → String
  | .text cs => String.ofList cs
  | .slot name => (values name).getD ("$" ++ name)

/-- A template is a list of pieces, in which no plain run follows another. -/
abbrev Template := List Piece

/-- The selector at the front of a text, and what follows it. -/
def selector? : List Char → Option (List Char × List Char)
  | [] => none
  | c :: rest =>
    if c = '[' then
      let index := rest.takeWhile Char.isDigit
      match rest.dropWhile Char.isDigit with
      | ']' :: tail => if index.isEmpty then none else some ('[' :: index ++ [']'], tail)
      | _ => none
    else if c = '.' then
      let member := rest.takeWhile Text.isNameChar
      if member.isEmpty then none else some ('.' :: member, rest.dropWhile Text.isNameChar)
    else none

private theorem length_dropWhile_le {α : Type} (p : α → Bool) (l : List α) :
    (l.dropWhile p).length ≤ l.length :=
  (List.dropWhile_suffix p).length_le

/-- A selector takes something off the text. -/
theorem length_lt_of_selector? {cs taken rest : List Char} (h : selector? cs = some (taken, rest)) :
    rest.length < cs.length := by
  match cs with
  | [] => simp [selector?] at h
  | c :: tail =>
    unfold selector? at h
    have digits := length_dropWhile_le Char.isDigit tail
    have names := length_dropWhile_le Text.isNameChar tail
    dsimp only at h
    split at h
    · -- an index takes its two brackets at least
      split at h
      · rename_i tail' heq
        rw [heq, List.length_cons] at digits
        split at h
        · contradiction
        · cases h
          simp only [List.length_cons]
          omega
      · contradiction
    · -- a member takes its dot at least
      split at h
      · split at h
        · contradiction
        · cases h
          simp only [List.length_cons]
          omega
      · contradiction

/-- The longest run of selectors at the front of a text, and what follows it. -/
def selectors (cs : List Char) : List Char × List Char :=
  match h : selector? cs with
  | none => ([], cs)
  | some (taken, rest) =>
    have := length_lt_of_selector? h
    let (more, tail) := selectors rest
    (taken ++ more, tail)
termination_by cs.length

/-- The longest slot name at the front of a text, and what follows it. -/
def slotName? (cs : List Char) : Option (List Char × List Char) :=
  let name := cs.takeWhile Text.isNameChar
  if name.isEmpty then none
  else
    let (taken, rest) := selectors (cs.dropWhile Text.isNameChar)
    some (name ++ taken, rest)

/-- Selectors take nothing that is not there. -/
theorem length_selectors_le (cs : List Char) : (selectors cs).2.length ≤ cs.length := by
  fun_induction selectors cs with
  | case1 => exact Nat.le_refl _
  | case2 cs taken rest h shorter more tail eq ih =>
    rw [eq] at ih
    exact Nat.le_of_lt (Nat.lt_of_le_of_lt ih shorter)

/-- What follows a slot name is no longer than the text. -/
theorem length_le_of_slotName? {cs name rest : List Char} (h : slotName? cs = some (name, rest)) :
    rest.length ≤ cs.length := by
  unfold slotName? at h
  dsimp only at h
  split at h
  · contradiction
  · cases h
    exact Nat.le_trans (length_selectors_le _) (length_dropWhile_le _ _)

namespace Template

/-- Puts a plain character in front of a template. -/
def consChar (c : Char) : Template → Template
  | .text cs :: rest => .text (c :: cs) :: rest
  | pieces => .text [c] :: pieces

/-- The template of a text, character by character. -/
def ofChars (cs : List Char) : Template :=
  match cs with
  | [] => []
  | c :: rest =>
    if c = '$' then
      match h : slotName? rest with
      | some (name, tail) =>
        have := length_le_of_slotName? h
        .slot (String.ofList name) :: ofChars tail
      | none => consChar c (ofChars rest)
    else consChar c (ofChars rest)
termination_by cs.length

/-- The template of a text. -/
def ofText (text : String) : Template := ofChars text.toList

/-- The slot names in order, each as often as it occurs. -/
def occurrences (template : Template) : List String :=
  List.filterMap Piece.slot? template

/-- The slot names in the order of their characters, each once. -/
def slots (template : Template) : List String :=
  template.occurrences.eraseDups.mergeSort fun a b => decide (a ≤ b)

/-- The template has a placeholder of that name. -/
def hasSlot (template : Template) (name : String) : Bool := template.occurrences.contains name

/-- The template has no placeholder. -/
def isResolved (template : Template) : Bool := template.occurrences.isEmpty

/-- The text of a template with values for some slots. -/
def substitute (values : String → Option String) (template : Template) : String :=
  String.join (List.map (Piece.substitute values) template)

/-- The text that the template was made of. -/
def render (template : Template) : String := template.substitute fun _ => none

end Template

end ScriptAbi
