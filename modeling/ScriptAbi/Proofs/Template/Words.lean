import ScriptAbi.Proofs.Slot.Name

namespace ScriptAbi

/-!
# The words of a template

A template whose placeholders are whole words is filled word by word.

* `WholeWord`: a word that is one placeholder, or has no dollar sign in it.
* `fillWord`: a word with its value, if it is a placeholder that has one.
* `toList_substitute_word`: a filled template starts with its first word filled.
* `words_substitute`, `substitute_intercalate`: all words, and the very text where single spaces
  stand between the words.
* `mem_occurrences_iff`: the placeholders of a template are those among its words.
* `value_eq_of_substitute_eq`: a filled template tells the words that were filled in.
-/

variable {values : String → Option String}

/-- The word is a placeholder, if there is a dollar sign in it. -/
def WholeWord (w : List Char) : Prop := '$' ∈ w → ∃ name, IsSlotName name ∧ w = '$' :: name

/-- A word is whole iff a dollar sign in it is the first character of a placeholder. -/
theorem wholeWord_iff {w : List Char} :
    WholeWord w ↔ ('$' ∈ w → w.head? = some '$' ∧ IsSlotName w.tail) := by
  refine imp_congr_right fun hmem => ?_
  obtain ⟨c, rest, rfl⟩ := List.exists_cons_of_ne_nil (List.ne_nil_of_mem hmem)
  constructor
  · rintro ⟨name, hname, heq⟩
    cases heq
    exact ⟨rfl, hname⟩
  · rintro ⟨hhead, hname⟩
    cases hhead
    exact ⟨rest, hname, rfl⟩

instance (w : List Char) : Decidable (WholeWord w) := decidable_of_iff _ wholeWord_iff.symm

/-- The word with the value of its slot, if it is the placeholder of a slot that has one. -/
def fillWord (values : String → Option String) : List Char → List Char
  | '$' :: name => ((values (String.ofList name)).getD ("$" ++ String.ofList name)).toList
  | w => w

/-- A word with no dollar sign stays as it is. -/
theorem fillWord_of_not_mem {w : List Char} (h : '$' ∉ w) : fillWord values w = w := by
  unfold fillWord
  split
  · simp at h
  · rfl

/-- A placeholder becomes its value, or stays if there is none. -/
theorem fillWord_placeholder (name : List Char) :
    fillWord values ('$' :: name)
      = ((values (String.ofList name)).getD ("$" ++ String.ofList name)).toList := by
  rfl

/-! ### Characters of slot names -/

/-- No blank stands in a run of selectors. -/
theorem isBlank_of_mem_selectors {path : List Char} (hpath : IsSelectors path) :
    ∀ c ∈ path, Text.isBlank c = false := by
  induction hpath with
  | nil => simp
  | item _ hdigits _ ih =>
    intro c hc
    simp only [List.mem_cons, List.mem_append] at hc
    rcases hc with rfl | hc | rfl | hc
    · decide
    · exact isBlank_of_isDigit (hdigits c hc)
    · decide
    · exact ih c hc
  | member hname _ ih =>
    intro c hc
    simp only [List.mem_cons, List.mem_append] at hc
    rcases hc with rfl | hc | hc
    · decide
    · exact isBlank_of_isNameChar ((isName_iff.1 hname).2 c hc)
    · exact ih c hc

/-- A placeholder is one word. -/
theorem isWord_placeholder {name : List Char} (h : IsSlotName name) : Text.IsWord ('$' :: name) := by
  obtain ⟨base, path, hbase, hpath, rfl⟩ := h
  refine ⟨by simp, fun c hc => ?_⟩
  simp only [List.mem_cons, List.mem_append] at hc
  rcases hc with rfl | hc | hc
  · decide
  · exact isBlank_of_isNameChar ((isName_iff.1 hbase).2 c hc)
  · exact isBlank_of_mem_selectors hpath c hc

/-! ### Templates by their text -/

@[simp] theorem ofChars_nil : Template.ofChars [] = [] := by
  rw [Template.ofChars]

/-- A character that is no dollar sign stands for itself. -/
theorem ofChars_cons {c : Char} (h : c ≠ '$') (rest : List Char) :
    Template.ofChars (c :: rest) = Template.consChar c (Template.ofChars rest) := by
  rw [Template.ofChars, if_neg h]

/-- A dollar sign and a slot name before a blank are a placeholder. -/
theorem ofChars_placeholder {name rest : List Char} (hname : IsSlotName name)
    (hrest : Text.StartsBlank rest) :
    Template.ofChars ('$' :: (name ++ rest))
      = .slot (String.ofList name) :: Template.ofChars rest := by
  rw [Template.ofChars, if_pos rfl]
  split
  · rename_i heq
    rw [slotName?_append hname hrest] at heq
    cases heq
    rfl
  · rename_i heq
    rw [slotName?_append hname hrest] at heq
    contradiction

theorem toList_substitute_nil : (Template.substitute values []).toList = [] := rfl

/-- Pieces are filled one by one. -/
theorem toList_substitute_cons (piece : Piece) (template : Template) :
    (Template.substitute values (piece :: template)).toList
      = (piece.substitute values).toList ++ (Template.substitute values template).toList := by
  simp [Template.substitute]

/-- A plain character stays in front of what is filled. -/
theorem toList_substitute_consChar (c : Char) (template : Template) :
    (Template.substitute values (Template.consChar c template)).toList
      = c :: (Template.substitute values template).toList := by
  unfold Template.consChar
  split
  · simp [toList_substitute_cons, Piece.substitute]
  · simp [toList_substitute_cons, Piece.substitute]

/-- One more character in front is no placeholder. -/
theorem occurrences_consChar (c : Char) (template : Template) :
    (Template.consChar c template).occurrences = template.occurrences := by
  unfold Template.consChar
  split
  · rfl
  · rfl

/-! ### Plain words and placeholders -/

/-- A text with no dollar sign in front stays as it is. -/
theorem toList_substitute_plain {w : List Char} (h : '$' ∉ w) (rest : List Char) :
    (Template.substitute values (Template.ofChars (w ++ rest))).toList
      = w ++ (Template.substitute values (Template.ofChars rest)).toList := by
  induction w with
  | nil => rfl
  | cons c w ih =>
    simp only [List.mem_cons, not_or] at h
    rw [List.cons_append, ofChars_cons (Ne.symm h.1), toList_substitute_consChar, ih h.2,
      List.cons_append]

/-- A text with no dollar sign in front has no placeholder. -/
theorem occurrences_plain {w : List Char} (h : '$' ∉ w) (rest : List Char) :
    (Template.ofChars (w ++ rest)).occurrences = (Template.ofChars rest).occurrences := by
  induction w with
  | nil => rfl
  | cons c w ih =>
    simp only [List.mem_cons, not_or] at h
    rw [List.cons_append, ofChars_cons (Ne.symm h.1), occurrences_consChar, ih h.2]

/-- **A word of a template** is filled on its own. -/
theorem toList_substitute_word {w rest : List Char} (hw : WholeWord w)
    (hrest : Text.StartsBlank rest) :
    (Template.substitute values (Template.ofChars (w ++ rest))).toList
      = fillWord values w ++ (Template.substitute values (Template.ofChars rest)).toList := by
  by_cases hmem : '$' ∈ w
  · obtain ⟨name, hname, rfl⟩ := hw hmem
    rw [List.cons_append, ofChars_placeholder hname hrest, toList_substitute_cons,
      fillWord_placeholder]
    rfl
  · rw [toList_substitute_plain hmem, fillWord_of_not_mem hmem]

/-- A blank is no dollar sign. -/
theorem ne_dollar_of_isBlank {c : Char} (h : Text.isBlank c = true) : c ≠ '$' := by
  rintro rfl
  revert h
  decide

/-- What goes on with a blank does so after it is filled. -/
theorem startsBlank_substitute {rest : List Char} (h : Text.StartsBlank rest) :
    Text.StartsBlank (Template.substitute values (Template.ofChars rest)).toList := by
  cases rest with
  | nil =>
    rw [ofChars_nil]
    exact Text.startsBlank_nil
  | cons c rest =>
    have hc : Text.isBlank c = true := h c (by simp)
    rw [ofChars_cons (ne_dollar_of_isBlank hc), toList_substitute_consChar]
    exact Text.startsBlank_cons hc _

/-- A word filled with words is a word. -/
theorem isWord_fillWord (hvalues : ∀ slot value, values slot = some value → Text.IsWord value.toList)
    {w : List Char} (hw : WholeWord w) (hword : Text.IsWord w) : Text.IsWord (fillWord values w) := by
  by_cases hmem : '$' ∈ w
  · obtain ⟨name, -, rfl⟩ := hw hmem
    rw [fillWord_placeholder]
    cases hvalue : values (String.ofList name) with
    | none => simpa using hword
    | some value => exact hvalues _ value hvalue
  · rwa [fillWord_of_not_mem hmem]

/-! ### All words -/

/-- **A template is filled word by word.** -/
theorem words_substitute (hvalues : ∀ slot value, values slot = some value → Text.IsWord value.toList)
    {cs : List Char} (hwhole : ∀ w ∈ Text.words cs, WholeWord w) :
    Text.words (Template.substitute values (Template.ofChars cs)).toList
      = (Text.words cs).map (fillWord values) := by
  induction cs using Text.text_induction with
  | nil => rw [ofChars_nil, toList_substitute_nil]; rfl
  | blank c rest hc ih =>
    rw [Text.words_cons_blank hc] at hwhole ⊢
    rw [ofChars_cons (ne_dollar_of_isBlank hc), toList_substitute_consChar,
      Text.words_cons_blank hc, ih hwhole]
  | word w rest hw hrest ih =>
    rw [Text.words_append_of_isWord hw hrest] at hwhole ⊢
    have hwholeWord : WholeWord w := hwhole w (by simp)
    -- what was filled in is a word again, and ends where the word ended
    rw [toList_substitute_word hwholeWord hrest,
      Text.words_append_of_isWord (isWord_fillWord hvalues hwholeWord hw)
        (startsBlank_substitute hrest),
      ih fun v hv => hwhole v (by simp [hv]), List.map_cons]

/-- **Words with one space between them** are filled one by one, and the spaces stay. -/
theorem substitute_intercalate {ws : List (List Char)} (hwhole : ∀ w ∈ ws, WholeWord w) :
    (Template.substitute values (Template.ofChars ([' '].intercalate ws))).toList
      = [' '].intercalate (ws.map (fillWord values)) := by
  induction ws with
  | nil => rw [List.intercalate_nil, ofChars_nil]; rfl
  | cons w rest ih =>
    have hw : WholeWord w := hwhole w (by simp)
    cases rest with
    | nil => simpa [toList_substitute_nil] using toList_substitute_word hw Text.startsBlank_nil
    | cons v rest =>
      have hspace : Text.StartsBlank (' ' :: [' '].intercalate (v :: rest)) :=
        Text.startsBlank_cons (by decide) _
      rw [List.intercalate_cons_cons, List.append_assoc, List.singleton_append,
        toList_substitute_word hw hspace, ofChars_cons (by decide), toList_substitute_consChar,
        ih fun v hv => hwhole v (by simp [hv])]
      simp [List.intercalate_cons_cons]

/-- **The placeholders of a template** are those among its words. -/
theorem mem_occurrences_iff {cs : List Char} (hwhole : ∀ w ∈ Text.words cs, WholeWord w)
    {slot : String} :
    slot ∈ (Template.ofChars cs).occurrences ↔ '$' :: slot.toList ∈ Text.words cs := by
  induction cs using Text.text_induction with
  | nil => simp [Template.occurrences]
  | blank c rest hc ih =>
    rw [Text.words_cons_blank hc] at hwhole ⊢
    rw [ofChars_cons (ne_dollar_of_isBlank hc), occurrences_consChar, ih hwhole]
  | word w rest hw hrest ih =>
    rw [Text.words_append_of_isWord hw hrest] at hwhole ⊢
    have ih := ih fun v hv => hwhole v (by simp [hv])
    by_cases hmem : '$' ∈ w
    · obtain ⟨name, hname, rfl⟩ := hwhole w (by simp) hmem
      have hoccurrences : (Template.ofChars ('$' :: name ++ rest)).occurrences
          = String.ofList name :: (Template.ofChars rest).occurrences := by
        rw [List.cons_append, ofChars_placeholder hname hrest]
        rfl
      rw [hoccurrences, List.mem_cons, List.mem_cons, ih, List.cons.injEq]
      simp [← String.toList_inj]
    · -- a word with no dollar sign is no placeholder
      rw [occurrences_plain hmem, List.mem_cons, ih]
      constructor
      · exact Or.inr
      · rintro (rfl | h)
        · simp at hmem
        · exact h

/-- **The text tells what was filled in**, if all that was filled in are words. -/
theorem value_eq_of_substitute_eq {values' : String → Option String}
    (hvalues : ∀ slot value, values slot = some value → Text.IsWord value.toList)
    (hvalues' : ∀ slot value, values' slot = some value → Text.IsWord value.toList)
    {cs : List Char} (hwhole : ∀ w ∈ Text.words cs, WholeWord w)
    (h : (Template.ofChars cs).substitute values = (Template.ofChars cs).substitute values')
    {slot a b : String} (hslot : slot ∈ (Template.ofChars cs).occurrences)
    (ha : values slot = some a) (hb : values' slot = some b) : a = b := by
  have hwords : (Text.words cs).map (fillWord values) = (Text.words cs).map (fillWord values') := by
    rw [← words_substitute hvalues hwhole, h, words_substitute hvalues' hwhole]
  have hfill := List.map_inj_left.1 hwords _ ((mem_occurrences_iff hwhole).1 hslot)
  simp only [fillWord_placeholder, String.ofList_toList, ha, hb, Option.getD_some] at hfill
  exact String.toList_inj.1 hfill

end ScriptAbi
