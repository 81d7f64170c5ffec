import ScriptAbi.Proofs.Template.Deferred
import Mathlib.Data.String.Basic

namespace ScriptAbi

/-!
# What a template finds in a text

The pieces of a text are told by its reading: the placeholders stand where the text has a dollar
sign with a slot name after it, and the plain runs are as long as they can be.

* `placeholder_mem_iff`: the placeholders of a reading, by what stands in the text.
* `exists_reading_after`: a dollar sign that is no placeholder has no slot name after it.
* `Template.Merged`: no plain run is empty or follows another one. Templates of this kind are told
  by their parts (`Template.Merged.ofParts_parts`).
* `Template.eq_ofText_iff`: the template of a text is the one of this kind that reads the text.
* `Template.head?_after_dollar`, `Template.hasSlot_ofText_iff`, `Template.isResolved_ofText_iff`:
  plain dollar signs, slots and resolved texts, by what stands in the text.
* `Template.ofText_reads`: all that is found in a text, and how the text is filled.
-/

variable {cs name rest : List Char} {parts : List Part} {slot : String}

/-! ### Where a slot name can start -/

/-- A name has no dollar sign in it. -/
theorem dollar_not_mem_name (h : Text.isName name = true) : '$' ∉ name := by
  intro hmem
  have hdollar := (isName_iff.1 h).2 '$' hmem
  contradiction

/-- No dollar sign stands in a slot name. -/
theorem dollar_not_mem_slotName (h : IsSlotName name) : '$' ∉ name := by
  obtain ⟨base, path, hbase, hpath, rfl⟩ := h
  have hselectors : '$' ∉ path := by
    clear hbase
    induction hpath with
    | nil => simp
    | item _ hdigits _ ih =>
      have hdollar : '$' ∉ _ := fun hmem => by simpa using hdigits '$' hmem
      simp [hdollar, ih]
    | member hname _ ih => simp [dollar_not_mem_name hname, ih]
  simp [dollar_not_mem_name hbase, hselectors]

/-- No slot name stands at the front of a text iff the text does not start with a character of a
    name. -/
theorem forall_not_prefix_iff :
    (∀ name, IsSlotName name → ¬ name <+: cs) ↔ ∀ c ∈ cs.head?, Text.isNameChar c = false := by
  constructor
  · intro h c hhead
    obtain ⟨rest, rfl⟩ := List.head?_eq_some_iff.1 hhead
    by_contra hc
    -- the character alone is a slot name
    have hname : IsSlotName [c] := ⟨[c], [], by simpa [Text.isName] using hc, .nil, rfl⟩
    exact h [c] hname ⟨rest, rfl⟩
  · rintro h _ ⟨base, path, hbase, -, rfl⟩ ⟨rest, rfl⟩
    obtain ⟨hne, hchars⟩ := isName_iff.1 hbase
    obtain ⟨c, base, rfl⟩ := List.exists_cons_of_ne_nil hne
    have hc : Text.isNameChar c = false := h c (by simp)
    rw [hchars c (by simp)] at hc
    contradiction

/-! ### The placeholders of a text -/

/-- What is not in the first of two stretches is in the second. -/
theorem exists_eq_append_of_not_mem {α : Type} {x : α} {as bs front back : List α}
    (h : as ++ bs = front ++ x :: back) (hx : x ∉ as) :
    ∃ between, front = as ++ between ∧ bs = between ++ x :: back := by
  rcases List.append_eq_append_iff.1 h with ⟨between, hfront, hbs⟩ | ⟨between, has, hback⟩
  · exact ⟨between, hfront, hbs⟩
  · cases between with
    | nil => exact ⟨[], by simpa using has.symm, by simpa using hback.symm⟩
    | cons y between =>
      cases hback
      simp [has] at hx

/-- **The placeholders of a text** are those of the slots whose name, as the longest one there,
    follows a dollar sign of the text. -/
theorem placeholder_mem_iff (h : IsReading cs parts) :
    .placeholder slot ∈ parts ↔
      ∃ front rest, cs = front ++ '$' :: (slot.toList ++ rest)
        ∧ LongestSlotName slot.toList (slot.toList ++ rest) := by
  induction h with
  | nil => simp
  | @placeholder name tail parts hname _ ih =>
    rw [List.mem_cons, ih]
    constructor
    · rintro (heq | ⟨front, rest, rfl, hlongest⟩)
      · cases heq
        exact ⟨[], tail, by simp, by simpa using hname⟩
      · exact ⟨'$' :: (name ++ front), rest, by simp, hlongest⟩
    · rintro ⟨front, rest, heq, hlongest⟩
      cases front with
      | nil =>
        -- the same dollar sign, and the longest name after it
        have hsame : name ++ tail = slot.toList ++ rest := List.tail_eq_of_cons_eq heq
        have hslot : name = slot.toList := hname.unique (hsame ▸ hlongest)
        exact .inl (by rw [hslot, String.ofList_toList])
      | cons d front =>
        -- a later one, which cannot stand in the name
        have htail : name ++ tail = front ++ '$' :: (slot.toList ++ rest) :=
          List.tail_eq_of_cons_eq heq
        obtain ⟨between, rfl, rfl⟩ :=
          exists_eq_append_of_not_mem htail (dollar_not_mem_slotName hname.isSlotName)
        exact .inr ⟨between, rest, rfl, hlongest⟩
  | @char c tail parts hplain _ ih =>
    rw [List.mem_cons, ih]
    constructor
    · rintro (heq | ⟨front, rest, rfl, hlongest⟩)
      · cases heq
      · exact ⟨c :: front, rest, rfl, hlongest⟩
    · rintro ⟨front, rest, heq, hlongest⟩
      cases front with
      | nil =>
        cases heq
        exact absurd (List.prefix_append _ _) (hplain rfl _ hlongest.isSlotName)
      | cons d front => exact .inr ⟨front, rest, List.tail_eq_of_cons_eq heq, hlongest⟩

/-- **A dollar sign that stands for itself** has no slot name after it. -/
theorem exists_reading_after {front back : List Part} {c : Char}
    (h : IsReading cs (front ++ .char c :: back)) :
    ∃ rest, IsReading rest back ∧ (c = '$' → ∀ name, IsSlotName name → ¬ name <+: rest) := by
  induction front generalizing cs with
  | nil =>
    cases h with
    | char hplain hrest => exact ⟨_, hrest, hplain⟩
  | cons part front ih =>
    cases h with
    | placeholder _ hrest => exact ih hrest
    | char _ hrest => exact ih hrest

namespace Template

/-! ### Merged runs -/

/-- No plain run of the template is empty, and none follows another one. -/
inductive Merged : Template → Prop
  | nil : Merged []
  | slot {name : String} {rest : Template} (hrest : Merged rest) : Merged (.slot name :: rest)
  | text {cs : List Char} {rest : Template} (hne : cs ≠ [])
      (hnext : ∀ piece ∈ rest.head?, piece.slot?.isSome) (hrest : Merged rest) :
      Merged (.text cs :: rest)

/-- One more character in front leaves the texts merged. -/
theorem Merged.consChar {template : Template} (h : Merged template) (c : Char) :
    Merged (consChar c template) := by
  cases h with
  | nil => exact .text (by simp) (by simp) .nil
  | slot hrest => exact .text (by simp) (by simp [Piece.slot?]) (.slot hrest)
  | text _ hnext hrest => exact .text (by simp) hnext hrest

/-- The pieces of a text are merged. -/
theorem merged_ofChars (cs : List Char) : Merged (ofChars cs) := by
  fun_induction ofChars cs with
  | case1 => exact .nil
  | case2 _ _ _ _ _ ih => exact .slot ih
  | case3 rest _ ih => exact ih.consChar '$'
  | case4 c rest _ ih => exact ih.consChar c

/-- The merged template that is made of the given parts. -/
def ofParts : List Part → Template
  | [] => []
  | .char c :: parts => consChar c (ofParts parts)
  | .placeholder slot :: parts => .slot slot :: ofParts parts

/-- Where no plain run stands, a character starts one. -/
theorem consChar_of_head? {template : Template}
    (h : ∀ piece ∈ template.head?, piece.slot?.isSome) (c : Char) :
    consChar c template = .text [c] :: template := by
  cases template with
  | nil => rfl
  | cons piece rest =>
    cases piece with
    | text => simp [Piece.slot?] at h
    | slot => rfl

/-- A run of characters is one piece, if no plain run goes on with it. -/
theorem ofParts_chars_append {cs : List Char} (hne : cs ≠ []) {parts : List Part}
    (hnext : ∀ piece ∈ (ofParts parts).head?, piece.slot?.isSome) :
    ofParts (cs.map Part.char ++ parts) = .text cs :: ofParts parts := by
  induction cs with
  | nil => contradiction
  | cons c cs ih =>
    by_cases hnil : cs = []
    · subst hnil
      exact consChar_of_head? hnext c
    · rw [List.map_cons, List.cons_append, ofParts, ih hnil]
      rfl

/-- A merged template is told by its parts. -/
theorem Merged.ofParts_parts {template : Template} (h : Merged template) :
    ofParts template.parts = template := by
  induction h with
  | nil => rfl
  | @slot name rest _ ih =>
    rw [parts_cons, Piece.parts, List.singleton_append, ofParts, ih]
  | @text cs rest hne hnext _ ih =>
    rw [parts_cons, Piece.parts, ofParts_chars_append hne (ih.symm ▸ hnext), ih]

/-- **The template of a text** is the merged one that reads the text. -/
theorem eq_ofText_iff {template : Template} {text : String} :
    template = ofText text ↔ template.Merged ∧ IsReading text.toList template.parts := by
  constructor
  · rintro rfl
    exact ⟨merged_ofChars text.toList, isReading_parts text.toList⟩
  · rintro ⟨hmerged, hreading⟩
    have hparts : template.parts = (ofText text).parts :=
      hreading.unique (isReading_parts text.toList)
    calc template = ofParts template.parts := hmerged.ofParts_parts.symm
      _ = ofParts (ofText text).parts := by rw [hparts]
      _ = ofText text := (merged_ofChars text.toList).ofParts_parts

/-! ### Slots -/

/-- What follows a dollar sign of a plain run, in the run and after it, does not start with a
    character of a name. -/
theorem head?_after_dollar {text : String} {front back : Template} {before after : List Char}
    (h : ofText text = front ++ .text (before ++ '$' :: after) :: back) :
    ∀ c ∈ (after ++ (render back).toList).head?, Text.isNameChar c = false := by
  have hreading : IsReading text.toList (ofText text).parts := isReading_parts text.toList
  have hparts : (ofText text).parts
      = (front.parts ++ before.map Part.char) ++ .char '$' :: parts (.text after :: back) := by
    rw [h]
    simp [parts, Piece.parts]
  rw [hparts] at hreading
  obtain ⟨rest, hrest, hplain⟩ := exists_reading_after hreading
  -- the rest of the text is what the rest of the template was made of
  have hsource : rest = after ++ (render back).toList := by
    have hrender : render (.text after :: back) = String.ofList rest :=
      (substitute_eq_join _ _).trans hrest.join_source
    rw [← String.toList_ofList (l := rest), ← hrender, render, toList_substitute_cons]
    simp [Piece.substitute, render]
  exact forall_not_prefix_iff.1 (hsource ▸ hplain rfl)

/-- **The slots of a text** are those whose name, as the longest one there, follows a dollar
    sign. -/
theorem hasSlot_ofText_iff {text slot : String} :
    (ofText text).hasSlot slot = true ↔
      ∃ front rest, text.toList = front ++ '$' :: (slot.toList ++ rest)
        ∧ LongestSlotName slot.toList (slot.toList ++ rest) :=
  hasSlot_iff_mem_parts.trans (placeholder_mem_iff (isReading_parts text.toList))

/-- The slots are those that the template has. -/
theorem mem_slots_iff_hasSlot {template : Template} {slot : String} :
    slot ∈ template.slots ↔ template.hasSlot slot = true := by
  rw [mem_slots_iff, hasSlot, List.contains_iff_mem]

/-- A template is resolved where it has no slot. -/
theorem isResolved_iff_hasSlot {template : Template} :
    template.isResolved = true ↔ ∀ slot, template.hasSlot slot = false := by
  rw [isResolved, List.isEmpty_iff, List.eq_nil_iff_forall_not_mem]
  simp [hasSlot]

/-- **A text is resolved** where no dollar sign of it has a character of a name after it. -/
theorem isResolved_ofText_iff {text : String} :
    (ofText text).isResolved = true ↔
      ∀ front rest, text.toList = front ++ '$' :: rest →
        ∀ c ∈ rest.head?, Text.isNameChar c = false := by
  rw [isResolved_iff_hasSlot]
  constructor
  · intro h front rest htext
    rw [← forall_not_prefix_iff, ← slotName?_eq_none_iff]
    -- a name after the dollar sign would be read, and the longest such name is a slot
    cases hread : slotName? rest with
    | none => rfl
    | some pair =>
      obtain ⟨hlongest, rfl⟩ := slotName?_eq_some_iff.1 hread
      have hslot : (ofText text).hasSlot (String.ofList pair.1) = true :=
        hasSlot_ofText_iff.2 ⟨front, pair.2, by simpa using htext, by simpa using hlongest⟩
      rw [h] at hslot
      contradiction
  · intro h slot
    by_contra hslot
    obtain ⟨front, rest, htext, hlongest⟩ := hasSlot_ofText_iff.1 (by simpa using hslot)
    exact forall_not_prefix_iff.2 (h front _ htext) _ hlongest.isSlotName hlongest.isPrefix

/-- Nothing is left twice where what occurred before is erased. -/
theorem nodup_eraseDups (names : List String) : names.eraseDups.Nodup := by
  match names with
  | [] => simp
  | name :: rest =>
    rw [List.eraseDups_cons, List.nodup_cons]
    have hshorter := List.length_filter_le (fun other => !other == name) rest
    exact ⟨by simp, nodup_eraseDups _⟩
termination_by names.length

/-- The slots stand in the order of their characters, each once. -/
theorem pairwise_slots (template : Template) : template.slots.Pairwise (· < ·) := by
  have hnodup : template.slots.Nodup :=
    (List.mergeSort_perm _ _).nodup_iff.2 (nodup_eraseDups template.occurrences)
  have hsorted : template.slots.Pairwise (· ≤ ·) := by
    have hle := @List.pairwise_mergeSort String (fun a b => decide (a ≤ b))
      (fun a b c => by simpa using le_trans) (fun a b => by simpa using le_total a b)
      template.occurrences.eraseDups
    exact hle.imp of_decide_eq_true
  exact (hsorted.and hnodup).imp fun h => lt_of_le_of_ne h.1 h.2

/-! ### The whole text -/

/-- **What a template finds in a text**, whatever its characters are. Written out, the template is
    the text. It is the merged one that reads the text: its placeholders are the dollar signs with
    the longest slot name after each, and all else stands for itself. A dollar sign of a plain run
    has no character of a name after it. The slots are the names of the placeholders, the template
    is resolved if no dollar sign of the text has a character of a name after it, and it is filled
    part by part. -/
theorem ofText_reads (text : String) :
    (ofText text).render = text
    ∧ (∀ template : Template,
        template = ofText text ↔ template.Merged ∧ IsReading text.toList template.parts)
    ∧ (∀ (front back : Template) (before after : List Char),
        ofText text = front ++ .text (before ++ '$' :: after) :: back →
        ∀ c ∈ (after ++ (render back).toList).head?, Text.isNameChar c = false)
    ∧ (∀ slot : String, (ofText text).hasSlot slot = true ↔
        ∃ front rest, text.toList = front ++ '$' :: (slot.toList ++ rest)
          ∧ LongestSlotName slot.toList (slot.toList ++ rest))
    ∧ (∀ slot : String, slot ∈ (ofText text).slots ↔ (ofText text).hasSlot slot = true)
    ∧ (ofText text).slots.Pairwise (· < ·)
    ∧ ((ofText text).isResolved = true ↔
        ∀ front rest, text.toList = front ++ '$' :: rest →
          ∀ c ∈ rest.head?, Text.isNameChar c = false)
    ∧ ∀ values : String → Option String,
        (ofText text).substitute values
          = String.join ((ofText text).parts.map (Part.fill values)) :=
  ⟨render_ofText text, fun _ => eq_ofText_iff, fun _ _ _ _ => head?_after_dollar,
    fun _ => hasSlot_ofText_iff, fun _ => mem_slots_iff_hasSlot, pairwise_slots _,
    isResolved_ofText_iff, fun values => substitute_eq_join values _⟩

/-- The first of two dollar signs is plain text, as the other one follows it, and so are selectors
    that are not whole and what follows a slot name without a dot. -/
theorem ofText_reads_stray_dollar :
    ofText "é$$a[ $c[1]x$" = [.text ['é', '$'], .slot "a", .text ['[', ' '], .slot "c[1]",
        .text ['x', '$']]
      ∧ ∀ c ∈ (render [.slot "a", .text ['[', ' '], .slot "c[1]", .text ['x', '$']]).toList.head?,
        Text.isNameChar c = false := by
  have htext : ofText "é$$a[ $c[1]x$" = [.text ['é', '$'], .slot "a", .text ['[', ' '],
      .slot "c[1]", .text ['x', '$']] := by
    decide +kernel
  obtain ⟨-, -, hdollar, -⟩ := ofText_reads "é$$a[ $c[1]x$"
  exact ⟨htext, hdollar [] _ ['é'] [] htext⟩

end Template

end ScriptAbi
