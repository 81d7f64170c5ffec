import ScriptAbi.Proofs.Text.Words
import ScriptAbi.Template

namespace ScriptAbi

/-!
# Slot names

A slot name is a name with selectors after it. What reads a slot name from a text takes all of it.

* `IsSelectors`, `IsSlotName`: runs of selectors, and slot names.
* `selectors_append`, `slotName?_append`: a run of selectors and a slot name are read whole where
  the text does not go on with them.
* `isSlotName_iff`: slot names are the texts that are read whole.
-/

/-! ### Characters -/

/-- What has a glyph in ASCII is no blank. -/
theorem isBlank_of_toNat {c : Char} (hlow : 0x20 < c.toNat) (hhigh : c.toNat < 0x80) :
    Text.isBlank c = false := by
  simp only [Text.isBlank, Text.blankRanges, List.any_cons, List.any_nil, Bool.or_false,
    Bool.or_eq_false_iff, Bool.and_eq_false_iff, decide_eq_false_iff_not]
  omega

/-- No blank stands in a name. -/
theorem isBlank_of_isNameChar {c : Char} (h : Text.isNameChar c = true) :
    Text.isBlank c = false := by
  have hrange : 0x2f < c.toNat ∧ c.toNat < 0x80 := by
    have hranges : (decide (c.val ≥ 'A'.val ∧ c.val ≤ 'Z'.val) || c.val ≥ 'a'.val && c.val ≤ 'z'.val
        || c.val ≥ '0'.val && c.val ≤ '9'.val || c == '_') = true := h
    simp only [Bool.or_eq_true, Bool.and_eq_true, decide_eq_true_eq, beq_iff_eq,
      UInt32.le_iff_toNat_le, ge_iff_le] at hranges
    rcases hranges with hranges | rfl
    · have hvalues : 'A'.val.toNat = 65 ∧ 'Z'.val.toNat = 90 ∧ 'a'.val.toNat = 97
          ∧ 'z'.val.toNat = 122 ∧ '0'.val.toNat = 48 ∧ '9'.val.toNat = 57 := by decide
      show 0x2f < c.val.toNat ∧ c.val.toNat < 0x80
      omega
    · decide
  exact isBlank_of_toNat (by omega) hrange.2

theorem isBlank_of_isDigit {c : Char} (h : c.isDigit = true) : Text.isBlank c = false := by
  apply isBlank_of_isNameChar
  simp [Text.isNameChar, Char.isAlphanum, h]

/-- A text that starts with a blank does not go on with a name. -/
theorem isNameChar_of_startsBlank {cs : List Char} (h : Text.StartsBlank cs) :
    ∀ c ∈ cs.head?, Text.isNameChar c = false := by
  intro c hc
  by_contra hname
  have hblank := h c hc
  rw [isBlank_of_isNameChar (by simpa using hname)] at hblank
  contradiction

/-- A name is one or more characters of names. -/
theorem isName_iff {cs : List Char} :
    Text.isName cs = true ↔ cs ≠ [] ∧ ∀ c ∈ cs, Text.isNameChar c = true := by
  simp [Text.isName]

/-- A name is a word. -/
theorem isWord_of_isName {cs : List Char} (h : Text.isName cs = true) : Text.IsWord cs := by
  obtain ⟨hne, hchars⟩ := isName_iff.1 h
  exact ⟨hne, fun c hc => isBlank_of_isNameChar (hchars c hc)⟩

/-! ### The grammar -/

/-- A run of selectors. -/
inductive IsSelectors : List Char → Prop
  | nil : IsSelectors []
  | item {digits rest : List Char} (hne : digits ≠ []) (hdigits : ∀ c ∈ digits, c.isDigit = true)
      (hrest : IsSelectors rest) : IsSelectors ('[' :: (digits ++ ']' :: rest))
  | member {name rest : List Char} (hname : Text.isName name = true) (hrest : IsSelectors rest) :
      IsSelectors ('.' :: (name ++ rest))

/-- A name with a run of selectors after it. -/
def IsSlotName (cs : List Char) : Prop :=
  ∃ name path, Text.isName name = true ∧ IsSelectors path ∧ cs = name ++ path

/-- Two runs of selectors make one. -/
theorem IsSelectors.append {front back : List Char} (hfront : IsSelectors front)
    (hback : IsSelectors back) : IsSelectors (front ++ back) := by
  induction hfront with
  | nil => exact hback
  | item hne hdigits _ ih =>
    rw [List.cons_append, List.append_assoc, List.cons_append]
    exact .item hne hdigits ih
  | member hname _ ih =>
    rw [List.cons_append, List.append_assoc]
    exact .member hname ih

/-- A run of selectors does not go on with a name before it. -/
theorem IsSelectors.head?_append {path rest : List Char} (hpath : IsSelectors path)
    (hrest : ∀ c ∈ rest.head?, Text.isNameChar c = false) :
    ∀ c ∈ (path ++ rest).head?, Text.isNameChar c = false := by
  cases hpath with
  | nil => exact hrest
  | item => simp; decide
  | member => simp; decide

/-! ### Reading -/

/-- Where no selector starts, none is taken. -/
theorem selectors_of_none {cs : List Char} (h : selector? cs = none) : selectors cs = ([], cs) := by
  rw [selectors]
  split
  · rfl
  · simp_all

/-- Where one starts, it is taken with all that follow it. -/
theorem selectors_of_some {cs taken rest : List Char} (h : selector? cs = some (taken, rest)) :
    selectors cs = (taken ++ (selectors rest).1, (selectors rest).2) := by
  rw [selectors]
  split
  · simp_all
  · rename_i heq
    rw [h] at heq
    cases heq
    rfl

/-- Digits in brackets are a selector. -/
theorem selector?_item {digits rest : List Char} (hne : digits ≠ [])
    (hdigits : ∀ c ∈ digits, c.isDigit = true) :
    selector? ('[' :: (digits ++ ']' :: rest)) = some ('[' :: digits ++ [']'], rest) := by
  have hstop : ∀ c ∈ (']' :: rest).head?, c.isDigit = false := by simp
  obtain ⟨htake, hdrop⟩ := Text.takeWhile_append_of_head? hdigits hstop
  simp [selector?, htake, hdrop, hne]

/-- A name after a dot is a selector, up to where the name ends. -/
theorem selector?_member {name rest : List Char} (hname : Text.isName name = true)
    (hrest : ∀ c ∈ rest.head?, Text.isNameChar c = false) :
    selector? ('.' :: (name ++ rest)) = some ('.' :: name, rest) := by
  obtain ⟨hne, hchars⟩ := isName_iff.1 hname
  obtain ⟨htake, hdrop⟩ := Text.takeWhile_append_of_head? hchars hrest
  simp [selector?, htake, hdrop, hne]

/-- Where a blank stands no selector starts. -/
theorem selector?_of_startsBlank {cs : List Char} (h : Text.StartsBlank cs) :
    selector? cs = none := by
  cases cs with
  | nil => rfl
  | cons c rest =>
    have hc : Text.isBlank c = true := h c (by simp)
    have hitem : c ≠ '[' := by rintro rfl; revert hc; decide
    have hmember : c ≠ '.' := by rintro rfl; revert hc; decide
    simp [selector?, hitem, hmember]

/-- A run of selectors is read whole before a blank. -/
theorem selectors_append {path rest : List Char} (hpath : IsSelectors path)
    (hrest : Text.StartsBlank rest) : selectors (path ++ rest) = (path, rest) := by
  induction hpath with
  | nil => exact selectors_of_none (selector?_of_startsBlank hrest)
  | @item digits path hne hdigits _ ih =>
    rw [List.cons_append, List.append_assoc, List.cons_append,
      selectors_of_some (selector?_item hne hdigits), ih]
    simp
  | @member name path hname hpath ih =>
    have hstop := hpath.head?_append (isNameChar_of_startsBlank hrest)
    rw [List.cons_append, List.append_assoc, selectors_of_some (selector?_member hname hstop), ih]
    simp

/-- **A slot name is read whole** before a blank. -/
theorem slotName?_append {cs rest : List Char} (h : IsSlotName cs) (hrest : Text.StartsBlank rest) :
    slotName? (cs ++ rest) = some (cs, rest) := by
  obtain ⟨name, path, hname, hpath, rfl⟩ := h
  obtain ⟨hne, hchars⟩ := isName_iff.1 hname
  obtain ⟨htake, hdrop⟩ := Text.takeWhile_append_of_head? hchars
    (hpath.head?_append (isNameChar_of_startsBlank hrest))
  rw [List.append_assoc]
  simp [slotName?, htake, hdrop, hne, selectors_append hpath hrest]

/-! ### What is read -/

/-- What is read as a selector is one, and stands at the front of the text. -/
theorem isSelectors_of_selector? {cs taken rest : List Char}
    (h : selector? cs = some (taken, rest)) : IsSelectors taken ∧ cs = taken ++ rest := by
  cases cs with
  | nil => simp [selector?] at h
  | cons c tail =>
    unfold selector? at h
    dsimp only at h
    split at h
    · -- an index in brackets
      rename_i hopen
      split at h
      · rename_i rest' hclose
        split at h
        · contradiction
        · rename_i hne
          cases h
          have hparts := List.takeWhile_append_dropWhile (p := Char.isDigit) (l := tail)
          have hdigits : ∀ c ∈ tail.takeWhile Char.isDigit, c.isDigit = true :=
            fun c hc => List.mem_takeWhile_imp hc
          rw [List.isEmpty_iff] at hne
          refine ⟨.item hne hdigits .nil, ?_⟩
          rw [hclose] at hparts
          simp [hopen, hparts]
      · contradiction
    · split at h
      · -- a dot and a member
        rename_i hdot
        split at h
        · contradiction
        · rename_i hne
          cases h
          have hname : Text.isName (tail.takeWhile Text.isNameChar) = true :=
            isName_iff.2 ⟨by simpa using hne, fun c hc => List.mem_takeWhile_imp hc⟩
          refine ⟨?_, by rw [hdot, List.cons_append, List.takeWhile_append_dropWhile]⟩
          simpa using IsSelectors.member hname .nil
      · contradiction

/-- What is taken is a run of selectors, and nothing gets lost. -/
theorem isSelectors_selectors (cs : List Char) :
    IsSelectors (selectors cs).1 ∧ cs = (selectors cs).1 ++ (selectors cs).2 := by
  fun_induction selectors cs with
  | case1 cs => exact ⟨.nil, rfl⟩
  | case2 cs taken rest h _ more tail heq ih =>
    obtain ⟨htaken, hcs⟩ := isSelectors_of_selector? h
    rw [heq] at ih
    refine ⟨htaken.append ih.1, ?_⟩
    rw [List.append_assoc, ← ih.2]
    exact hcs

/-- **Slot names** are the texts that are read whole. -/
theorem isSlotName_iff {cs : List Char} : IsSlotName cs ↔ slotName? cs = some (cs, []) := by
  constructor
  · intro h
    simpa using slotName?_append h Text.startsBlank_nil
  · intro h
    unfold slotName? at h
    dsimp only at h
    split at h
    · contradiction
    · rename_i hne
      obtain ⟨hpath, -⟩ := isSelectors_selectors (cs.dropWhile Text.isNameChar)
      have hname : Text.isName (cs.takeWhile Text.isNameChar) = true :=
        isName_iff.2 ⟨by simpa using hne, fun c hc => List.mem_takeWhile_imp hc⟩
      simp only [Option.some.injEq, Prod.mk.injEq] at h
      exact ⟨_, _, hname, hpath, h.1.symm⟩

instance (cs : List Char) : Decidable (IsSlotName cs) := decidable_of_iff _ isSlotName_iff.symm

end ScriptAbi
