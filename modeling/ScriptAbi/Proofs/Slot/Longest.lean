import ScriptAbi.Proofs.Slot.Name

namespace ScriptAbi

/-!
# The longest slot name at the front of a text

A slot name can be the front of another one, as `p` is of `p.keys` and of `p2`. What is read off a
text is the longest of those that stand at its front.

* `LongestSlotName`: the name is a slot name at the front of the text, and none there is longer.
* `slotName?_eq_some_iff`, `slotName?_eq_none_iff`: what is read, and when nothing is.
-/

/-- The name is a slot name at the front of the text, and no longer one stands there. -/
structure LongestSlotName (name cs : List Char) : Prop where
  isSlotName : IsSlotName name
  isPrefix : name <+: cs
  length_le : ∀ other, IsSlotName other → other <+: cs → other.length ≤ name.length

/-- Only one slot name is the longest. -/
theorem LongestSlotName.unique {name name' cs : List Char} (h : LongestSlotName name cs)
    (h' : LongestSlotName name' cs) : name = name' := by
  have hle : name.length ≤ name'.length := h'.length_le name h.isSlotName h.isPrefix
  have hge : name'.length ≤ name.length := h.length_le name' h'.isSlotName h'.isPrefix
  exact (List.prefix_of_prefix_length_le h.isPrefix h'.isPrefix hle).eq_of_length_le hge

/-! ### Names at the front of a text -/

/-- A name at the front of a text is in the longest run of its characters there. -/
theorem prefix_takeWhile {name cs : List Char} (hname : Text.isName name = true) (h : name <+: cs) :
    name <+: cs.takeWhile Text.isNameChar := by
  obtain ⟨rest, rfl⟩ := h
  rw [List.takeWhile_append_of_pos (isName_iff.1 hname).2]
  exact List.prefix_append name _

/-- Where a name stands the run is not empty. -/
theorem takeWhile_ne_nil {name cs : List Char} (hname : Text.isName name = true) (h : name <+: cs) :
    cs.takeWhile Text.isNameChar ≠ [] := by
  intro hnil
  have hprefix := prefix_takeWhile hname h
  rw [hnil, List.prefix_nil] at hprefix
  exact (isName_iff.1 hname).1 hprefix

/-- Selectors end a name before them, whatever follows them. -/
theorem IsSelectors.head?_of_ne_nil {path : List Char} (hpath : IsSelectors path) (hne : path ≠ [])
    (rest : List Char) : ∀ c ∈ (path ++ rest).head?, Text.isNameChar c = false := by
  cases hpath with
  | nil => contradiction
  | item => simp; decide
  | member => simp; decide

/-- A name with selectors at the front of a text is in the run of name characters there and the
    selectors that are read after it. -/
theorem prefix_name_append {name path cs : List Char} (hname : Text.isName name = true)
    (hpath : IsSelectors path)
    (hread : ∀ cs', path <+: cs' → path <+: (selectors cs').1) (h : name ++ path <+: cs) :
    name ++ path <+: cs.takeWhile Text.isNameChar
      ++ (selectors (cs.dropWhile Text.isNameChar)).1 := by
  obtain ⟨rest, rfl⟩ := h
  -- the run ends with the name, unless there are no selectors to end it
  by_cases hnil : path = []
  · subst hnil
    rw [List.append_nil]
    exact (prefix_takeWhile hname (List.prefix_append name rest)).trans (List.prefix_append _ _)
  · obtain ⟨htake, hdrop⟩ := Text.takeWhile_append_of_head? (isName_iff.1 hname).2
      (hpath.head?_of_ne_nil hnil rest)
    rw [List.append_assoc, htake, hdrop]
    exact (List.prefix_append_right_inj name).2 (hread _ (List.prefix_append path rest))

/-! ### Nothing is left that could be read -/

/-- After a dot all characters of a name are taken. -/
theorem selector?_dot {cs : List Char} (hne : cs.takeWhile Text.isNameChar ≠ []) :
    selector? ('.' :: cs)
      = some ('.' :: cs.takeWhile Text.isNameChar, cs.dropWhile Text.isNameChar) := by
  simp [selector?, hne]

/-- **A run of selectors at the front of a text** is in the run that is read. -/
theorem prefix_selectors {path cs : List Char} (hpath : IsSelectors path) (h : path <+: cs) :
    path <+: (selectors cs).1 := by
  induction hpath generalizing cs with
  | nil => exact List.nil_prefix
  | @item digits path hne hdigits _ ih =>
    obtain ⟨rest, rfl⟩ := h
    have hcs : '[' :: (digits ++ ']' :: path) ++ rest
        = '[' :: (digits ++ ']' :: (path ++ rest)) := by simp
    have hpath : '[' :: (digits ++ ']' :: path) = ('[' :: digits ++ [']']) ++ path := by simp
    rw [hcs, selectors_of_some (selector?_item hne hdigits), hpath]
    exact (List.prefix_append_right_inj _).2 (ih (List.prefix_append path rest))
  | @member name path hname hpath ih =>
    obtain ⟨rest, rfl⟩ := h
    have hfront : name ++ path <+: name ++ path ++ rest := List.prefix_append _ rest
    have hrun := takeWhile_ne_nil hname ((List.prefix_append name path).trans hfront)
    rw [List.cons_append, selectors_of_some (selector?_dot hrun), List.cons_append,
      List.cons_prefix_cons]
    exact ⟨rfl, prefix_name_append hname hpath (fun _ => ih) hfront⟩

/-- **A slot name at the front of a text** is in the one that is read. -/
theorem exists_slotName?_of_prefix {other cs : List Char} (hother : IsSlotName other)
    (h : other <+: cs) : ∃ name rest, slotName? cs = some (name, rest) ∧ other <+: name := by
  obtain ⟨base, path, hbase, hpath, rfl⟩ := hother
  have hrun := takeWhile_ne_nil hbase ((List.prefix_append base path).trans h)
  refine ⟨_, _, by rw [slotName?, List.isEmpty_eq_false_iff.2 hrun]; rfl, ?_⟩
  exact prefix_name_append hbase hpath (fun _ => prefix_selectors hpath) h

/-- What is read is a slot name, and the text goes on after it. -/
theorem isSlotName_of_slotName? {cs name rest : List Char} (h : slotName? cs = some (name, rest)) :
    IsSlotName name ∧ cs = name ++ rest := by
  unfold slotName? at h
  dsimp only at h
  split at h
  · contradiction
  · rename_i hne
    cases h
    obtain ⟨hpath, hrest⟩ := isSelectors_selectors (cs.dropWhile Text.isNameChar)
    have hname : Text.isName (cs.takeWhile Text.isNameChar) = true :=
      isName_iff.2 ⟨by simpa using hne, fun c hc => List.mem_takeWhile_imp hc⟩
    refine ⟨⟨_, _, hname, hpath, rfl⟩, ?_⟩
    rw [List.append_assoc, ← hrest, List.takeWhile_append_dropWhile]

/-- **What is read off a text** is the longest slot name at its front. -/
theorem slotName?_eq_some_iff {cs name rest : List Char} :
    slotName? cs = some (name, rest) ↔ LongestSlotName name cs ∧ cs = name ++ rest := by
  constructor
  · intro h
    obtain ⟨hname, hcs⟩ := isSlotName_of_slotName? h
    refine ⟨⟨hname, hcs ▸ List.prefix_append name rest, fun other hother hprefix => ?_⟩, hcs⟩
    obtain ⟨name', rest', hread, hle⟩ := exists_slotName?_of_prefix hother hprefix
    rw [h] at hread
    cases hread
    exact hle.length_le
  · rintro ⟨hlongest, hcs⟩
    obtain ⟨name', rest', hread, hprefix⟩ :=
      exists_slotName?_of_prefix hlongest.isSlotName hlongest.isPrefix
    obtain ⟨hname', hcs'⟩ := isSlotName_of_slotName? hread
    -- the name that is read is no longer than the longest
    have hle := hlongest.length_le name' hname' (hcs' ▸ List.prefix_append name' rest')
    have hsame : name = name' := hprefix.eq_of_length_le hle
    subst hsame
    rw [hread, List.append_cancel_left (hcs'.symm.trans hcs)]

/-- **Nothing is read** where no slot name stands. -/
theorem slotName?_eq_none_iff {cs : List Char} :
    slotName? cs = none ↔ ∀ name, IsSlotName name → ¬ name <+: cs := by
  constructor
  · intro h name hname hprefix
    obtain ⟨_, _, hread, -⟩ := exists_slotName?_of_prefix hname hprefix
    rw [h] at hread
    contradiction
  · intro h
    cases hread : slotName? cs with
    | none => rfl
    | some pair =>
      obtain ⟨hname, hcs⟩ := isSlotName_of_slotName? hread
      exact absurd (hcs ▸ List.prefix_append pair.1 pair.2) (h pair.1 hname)

end ScriptAbi
