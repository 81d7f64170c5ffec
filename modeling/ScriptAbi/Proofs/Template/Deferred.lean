import ScriptAbi.Proofs.Template.Parts

namespace ScriptAbi

/-!
# Templates filled in passes

What is filled in may leave placeholders open, and the text is then read as a template again. Where
placeholders are whole words and the values have no dollar sign, nothing is gained or lost by that.

* `WholeWords`, `Plain`: texts whose placeholders are whole words, and values with no dollar sign.
* `toList_substitute_fillWord`, `occurrences_fillWord`: a word that was filled is read again.
* `wholeWords_substitute`: a filled text is one whose placeholders are whole words.
* `substitute_substitute`: two passes are one, in which the first has its way.
* `occurrences_substitute`: the placeholders that stay are those of slots with no value.
* `fillAll`, `fillAll_eq_substitute`: by induction along the passes, many passes are one.
-/

/-- A placeholder of the text is a whole word. -/
def WholeWords (cs : List Char) : Prop := ∀ w ∈ Text.words cs, WholeWord w

/-- No value has a dollar sign in it. -/
def Plain (values : String → Option String) : Prop :=
  ∀ slot value, values slot = some value → '$' ∉ value.toList

variable {first second values : String → Option String}

/-! ### Words of a filled text -/

/-- The words of a text before a blank are its own, whatever blanks are in it. -/
theorem words_append_of_startsBlank (front : List Char) {rest : List Char}
    (hrest : Text.StartsBlank rest) :
    Text.words (front ++ rest) = Text.words front ++ Text.words rest := by
  cases rest with
  | nil => simp
  | cons c rest =>
    have hc : Text.isBlank c = true := hrest c (by simp)
    rw [Text.words_append_blank front rest hc, Text.words_cons_blank hc]

/-- What stands in a word stands in the text. -/
theorem mem_of_mem_words {cs w : List Char} (hw : w ∈ Text.words cs) : ∀ c ∈ w, c ∈ cs := by
  induction cs using Text.text_induction with
  | nil => simp at hw
  | blank b rest hb ih =>
    rw [Text.words_cons_blank hb] at hw
    exact fun c hc => List.mem_cons_of_mem b (ih hw c hc)
  | word v rest hv hrest ih =>
    rw [Text.words_append_of_isWord hv hrest] at hw
    intro c hc
    rcases List.mem_cons.1 hw with rfl | hw
    · exact List.mem_append_left rest hc
    · exact List.mem_append_right v (ih hw c hc)

/-- Words with no dollar sign are whole. -/
theorem wholeWords_of_not_mem {cs : List Char} (h : '$' ∉ cs) : WholeWords cs := by
  intro w hw hmem
  exact absurd (mem_of_mem_words hw '$' hmem) h

/-- A word with no dollar sign has no placeholders. -/
theorem occurrences_of_not_mem {w : List Char} (h : '$' ∉ w) :
    (Template.ofChars w).occurrences = [] := by
  have hplain := occurrences_plain h []
  rw [List.append_nil] at hplain
  rw [hplain, ofChars_nil]
  rfl

/-- A placeholder before a blank is the first one of the text. -/
theorem occurrences_placeholder {name rest : List Char} (hname : IsSlotName name)
    (hrest : Text.StartsBlank rest) :
    (Template.ofChars ('$' :: name ++ rest)).occurrences
      = String.ofList name :: (Template.ofChars rest).occurrences := by
  rw [List.cons_append, ofChars_placeholder hname hrest]
  rfl

/-- The placeholders of a word come before those of the text after it. -/
theorem occurrences_word {w rest : List Char} (hw : WholeWord w) (hrest : Text.StartsBlank rest) :
    (Template.ofChars (w ++ rest)).occurrences
      = (Template.ofChars w).occurrences ++ (Template.ofChars rest).occurrences := by
  by_cases hmem : '$' ∈ w
  · obtain ⟨name, hname, rfl⟩ := hw hmem
    have hself := occurrences_placeholder hname Text.startsBlank_nil
    rw [List.append_nil, ofChars_nil] at hself
    rw [occurrences_placeholder hname hrest, hself]
    rfl
  · rw [occurrences_plain hmem, occurrences_of_not_mem hmem, List.nil_append]

/-! ### One word, filled and read again -/

/-- **A word that was filled** stands for what both passes make of it, the first one first. -/
theorem toList_substitute_fillWord (hfirst : Plain first) {w rest : List Char} (hw : WholeWord w)
    (hrest : Text.StartsBlank rest) :
    (Template.substitute second (Template.ofChars (fillWord first w ++ rest))).toList
      = fillWord (fun slot => (first slot).or (second slot)) w
        ++ (Template.substitute second (Template.ofChars rest)).toList := by
  by_cases hmem : '$' ∈ w
  · have hword := hw
    obtain ⟨name, -, rfl⟩ := hw hmem
    rw [fillWord_placeholder, fillWord_placeholder]
    cases hvalue : first (String.ofList name) with
    | none =>
      -- the placeholder is still there, and is read as it was
      have hsame : ("$" ++ String.ofList name).toList = '$' :: name := by simp
      rw [Option.getD_none, hsame, toList_substitute_word hword hrest, fillWord_placeholder,
        Option.none_or]
    | some value =>
      -- the value has no placeholder
      rw [Option.getD_some, toList_substitute_plain (hfirst _ value hvalue), Option.some_or,
        Option.getD_some]
  · rw [fillWord_of_not_mem hmem, fillWord_of_not_mem hmem, toList_substitute_plain hmem]

/-- **The placeholders of a word that was filled** are those of slots with no value. -/
theorem occurrences_fillWord (hvalues : Plain values) {w rest : List Char} (hw : WholeWord w)
    (hrest : Text.StartsBlank rest) :
    (Template.ofChars (fillWord values w ++ rest)).occurrences
      = ((Template.ofChars w).occurrences.filter fun slot => (values slot).isNone)
        ++ (Template.ofChars rest).occurrences := by
  by_cases hmem : '$' ∈ w
  · have hword := hw
    obtain ⟨name, hname, rfl⟩ := hw hmem
    have hself := occurrences_placeholder hname Text.startsBlank_nil
    rw [List.append_nil, ofChars_nil] at hself
    rw [fillWord_placeholder, hself]
    -- a slot that gets no value stays where it was
    cases hvalue : values (String.ofList name) with
    | none =>
      have hsame : ("$" ++ String.ofList name).toList = '$' :: name := by simp
      rw [Option.getD_none, hsame, occurrences_placeholder hname hrest]
      simp [Template.occurrences, hvalue]
    | some value =>
      rw [Option.getD_some, occurrences_plain (hvalues _ value hvalue)]
      simp [Template.occurrences, hvalue]
  · rw [fillWord_of_not_mem hmem, occurrences_plain hmem, occurrences_of_not_mem hmem]
    rfl

/-- What a word was filled with is a text whose placeholders are whole words. -/
theorem wholeWords_fillWord (hvalues : Plain values) {w : List Char} (hword : Text.IsWord w)
    (hw : WholeWord w) : WholeWords (fillWord values w) := by
  have hself : WholeWords w := by
    intro v hv
    rw [Text.words_of_isWord hword, List.mem_singleton] at hv
    exact hv ▸ hw
  by_cases hmem : '$' ∈ w
  · obtain ⟨name, -, rfl⟩ := hw hmem
    rw [fillWord_placeholder]
    cases hvalue : values (String.ofList name) with
    | none => simpa using hself
    | some value => exact wholeWords_of_not_mem (hvalues _ value hvalue)
  · rwa [fillWord_of_not_mem hmem]

/-! ### Whole texts -/

/-- The text in front of a word's rest, whole words apart. -/
theorem wholeWords_append {w rest : List Char} (hword : Text.IsWord w)
    (hrest : Text.StartsBlank rest) : WholeWords (w ++ rest) ↔ WholeWord w ∧ WholeWords rest := by
  rw [WholeWords, Text.words_append_of_isWord hword hrest, List.forall_mem_cons]
  rfl

/-- **A filled text** is one whose placeholders are whole words, as it was before. -/
theorem wholeWords_substitute (hvalues : Plain values) {cs : List Char} (hwhole : WholeWords cs) :
    WholeWords (Template.substitute values (Template.ofChars cs)).toList := by
  induction cs using Text.text_induction with
  | nil => simpa [toList_substitute_nil] using hwhole
  | blank c rest hc ih =>
    rw [WholeWords, Text.words_cons_blank hc] at hwhole
    rw [ofChars_cons (ne_dollar_of_isBlank hc), toList_substitute_consChar, WholeWords,
      Text.words_cons_blank hc]
    exact ih hwhole
  | word w rest hword hrest ih =>
    obtain ⟨hw, hwhole⟩ := (wholeWords_append hword hrest).1 hwhole
    rw [toList_substitute_word hw hrest, WholeWords,
      words_append_of_startsBlank _ (startsBlank_substitute hrest)]
    exact List.forall_mem_append.2 ⟨wholeWords_fillWord hvalues hword hw, ih hwhole⟩

/-- **Two passes are one**, in which a slot that has a value in both takes the one of the first. -/
theorem substitute_substitute (hfirst : Plain first) {cs : List Char} (hwhole : WholeWords cs) :
    (Template.substitute second (Template.ofChars
        (Template.substitute first (Template.ofChars cs)).toList)).toList
      = (Template.substitute (fun slot => (first slot).or (second slot))
          (Template.ofChars cs)).toList := by
  induction cs using Text.text_induction with
  | nil => simp [toList_substitute_nil]
  | blank c rest hc ih =>
    have hne := ne_dollar_of_isBlank hc
    rw [WholeWords, Text.words_cons_blank hc] at hwhole
    rw [ofChars_cons hne, toList_substitute_consChar, ofChars_cons hne, toList_substitute_consChar,
      toList_substitute_consChar, ih hwhole]
  | word w rest hword hrest ih =>
    obtain ⟨hw, hwhole⟩ := (wholeWords_append hword hrest).1 hwhole
    -- in a word the slot is the whole of it: what the first pass leaves open the second fills
    rw [toList_substitute_word hw hrest,
      toList_substitute_fillWord hfirst hw (startsBlank_substitute hrest),
      toList_substitute_word hw hrest, ih hwhole]

/-- **The placeholders that stay** are those of slots with no value, in order. -/
theorem occurrences_substitute (hvalues : Plain values) {cs : List Char} (hwhole : WholeWords cs) :
    (Template.ofChars (Template.substitute values (Template.ofChars cs)).toList).occurrences
      = (Template.ofChars cs).occurrences.filter fun slot => (values slot).isNone := by
  induction cs using Text.text_induction with
  | nil => simp [toList_substitute_nil, Template.occurrences]
  | blank c rest hc ih =>
    have hne := ne_dollar_of_isBlank hc
    rw [WholeWords, Text.words_cons_blank hc] at hwhole
    rw [ofChars_cons hne, toList_substitute_consChar, ofChars_cons hne, occurrences_consChar,
      occurrences_consChar, ih hwhole]
  | word w rest hword hrest ih =>
    obtain ⟨hw, hwhole⟩ := (wholeWords_append hword hrest).1 hwhole
    rw [toList_substitute_word hw hrest,
      occurrences_fillWord hvalues hw (startsBlank_substitute hrest), occurrences_word hw hrest,
      List.filter_append, ih hwhole]

/-! ### Texts as strings -/

namespace Template

/-- A template with no values is the text that it was made of. -/
theorem render_ofText (text : String) : (ofText text).render = text := by
  rw [render, substitute_eq_join]
  exact (isReading_parts text.toList).join_source.trans String.ofList_toList

/-- The slots are the placeholders that occur. -/
theorem mem_slots_iff {template : Template} {slot : String} :
    slot ∈ template.slots ↔ slot ∈ template.occurrences := by
  simp [slots]

/-- A text with the values of each pass filled in, one pass after the other. -/
def fillAll (text : String) (passes : List (String → Option String)) : String :=
  passes.foldl (fun text values => (ofText text).substitute values) text

/-- Two rounds of passes are one round. -/
theorem fillAll_append (text : String) (front back : List (String → Option String)) :
    fillAll text (front ++ back) = fillAll (fillAll text front) back :=
  List.foldl_append

/-- **Many passes are one**, in which a slot takes its value in the first pass that has one. -/
theorem fillAll_eq_substitute {text : String} {passes : List (String → Option String)}
    (hpasses : ∀ values ∈ passes, Plain values) (hwhole : WholeWords text.toList) :
    fillAll text passes
      = (ofText text).substitute fun slot => passes.findSome? fun values => values slot := by
  induction passes generalizing text with
  | nil => exact (render_ofText text).symm
  | cons values rest ih =>
    have hvalues : Plain values := hpasses values (by simp)
    have hrest := ih (fun v hv => hpasses v (by simp [hv])) (wholeWords_substitute hvalues hwhole)
    calc fillAll text (values :: rest) = fillAll ((ofText text).substitute values) rest := rfl
      _ = (ofText ((ofText text).substitute values)).substitute fun slot =>
          rest.findSome? fun values => values slot := hrest
      _ = (ofText text).substitute fun slot =>
          (values slot).or (rest.findSome? fun values => values slot) :=
        String.toList_inj.1 (substitute_substitute hvalues hwhole)
      _ = (ofText text).substitute fun slot =>
          (values :: rest).findSome? fun values => values slot := by
        congr 1
        funext slot
        cases h : values slot <;> simp [h]

end Template

end ScriptAbi
