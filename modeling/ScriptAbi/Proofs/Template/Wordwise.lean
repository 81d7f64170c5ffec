import ScriptAbi.Proofs.Template.Deferred
import ScriptAbi.Proofs.Text.MapWords

namespace ScriptAbi

/-!
# Templates filled word by word

No slot name goes on over a blank, so that a template is filled word by word, wherever in its words
the placeholders stand. A word that is filled with words is a word again: the words of a text keep
their places through any number of passes, even where the values open placeholders of their own.

* `parts_append`: the parts of a text before a blank are its own.
* `filled_eq_mapWords`: a template is filled word by word.
* `isWord_filled`: a word that is filled with words is a word.
* `toList_fillAll`, `wordsOf_fillAll`: by induction along the passes, a text that is filled in many
  passes is each of its words filled in these passes.
* `fillAll_of_not_mem`, `fillAll_placeholder_of_none`: a word with no dollar sign and a placeholder
  with no value in any pass stay what they are.
-/

/-- All values are words. -/
def Wordy (values : String → Option String) : Prop :=
  ∀ slot value, values slot = some value → Text.IsWord value.toList

/-- The characters of a text with values filled in. -/
def filled (values : String → Option String) (cs : List Char) : List Char :=
  (Template.substitute values (Template.ofChars cs)).toList

variable {values : String → Option String}

/-! ### Parts before a blank -/

/-- What has no blank in it and stands at the front of a text ends where a blank follows. -/
theorem prefix_of_append_startsBlank {w front rest : List Char}
    (hw : ∀ c ∈ w, Text.isBlank c = false) (hrest : Text.StartsBlank rest)
    (h : w <+: front ++ rest) : w <+: front := by
  induction front generalizing w with
  | nil =>
    cases w with
    | nil => exact List.nil_prefix
    | cons c w =>
      -- it would start with the blank
      have hhead : c ∈ rest.head? := by
        obtain ⟨tail, heq⟩ := h
        rw [List.nil_append] at heq
        simp [← heq]
      have hblank := hrest c hhead
      rw [hw c (by simp)] at hblank
      contradiction
  | cons d front ih =>
    cases w with
    | nil => exact List.nil_prefix
    | cons c w =>
      rw [List.cons_append, List.cons_prefix_cons] at h
      rw [List.cons_prefix_cons]
      exact ⟨h.1, ih (fun e he => hw e (by simp [he])) h.2⟩

/-- A slot name has no blank in it. -/
theorem isBlank_of_mem_slotName {name : List Char} (hname : IsSlotName name) :
    ∀ c ∈ name, Text.isBlank c = false :=
  fun c hc => (isWord_placeholder hname).2 c (by simp [hc])

/-- **The parts of a text before a blank** are its own, and those of the rest come after them. -/
theorem IsReading.append {front rest : List Char} {parts parts' : List Part}
    (h : IsReading front parts) (hrest : Text.StartsBlank rest) (h' : IsReading rest parts') :
    IsReading (front ++ rest) (parts ++ parts') := by
  induction h with
  | nil => exact h'
  | @placeholder name tail parts hname _ ih =>
    have hlongest : LongestSlotName name (name ++ (tail ++ rest)) := by
      refine ⟨hname.isSlotName, List.prefix_append _ _, fun other hother hprefix => ?_⟩
      rw [← List.append_assoc] at hprefix
      exact hname.length_le other hother
        (prefix_of_append_startsBlank (isBlank_of_mem_slotName hother) hrest hprefix)
    rw [List.cons_append, List.append_assoc, List.cons_append]
    exact .placeholder hlongest ih
  | @char c tail parts hplain _ ih =>
    refine .char (fun hc name hname hprefix => hplain hc name hname ?_) ih
    exact prefix_of_append_startsBlank (isBlank_of_mem_slotName hname) hrest hprefix

/-- The parts before a blank and those from it on make those of the text. -/
theorem parts_append (front : List Char) {rest : List Char} (hrest : Text.StartsBlank rest) :
    (Template.ofChars (front ++ rest)).parts
      = (Template.ofChars front).parts ++ (Template.ofChars rest).parts :=
  (Template.isReading_parts _).unique
    ((Template.isReading_parts front).append hrest (Template.isReading_parts rest))

/-! ### Words that are filled -/

/-- A text before a blank is filled on its own. -/
theorem filled_append (front : List Char) {rest : List Char} (hrest : Text.StartsBlank rest) :
    filled values (front ++ rest) = filled values front ++ filled values rest := by
  simp only [filled, Template.substitute_eq_join, parts_append front hrest, List.map_append,
    String.join_append, String.toList_append]

/-- **A template is filled word by word**, and its blanks stay. -/
theorem filled_eq_mapWords (cs : List Char) :
    filled values cs = Text.mapWords (filled values) cs := by
  induction cs using Text.text_induction with
  | nil => rw [Text.mapWords_nil, filled, ofChars_nil, toList_substitute_nil]
  | blank c rest hc ih =>
    rw [Text.mapWords_cons_blank hc, ← ih, filled, ofChars_cons (ne_dollar_of_isBlank hc),
      toList_substitute_consChar]
    rfl
  | word w rest hw hrest ih =>
    rw [Text.mapWords_append_of_isWord hw hrest, ← ih, filled_append w hrest]

/-- The parts of a text with no blanks are filled with words. -/
theorem isWord_fill_of_mem (hvalues : Wordy values) {cs : List Char} {parts : List Part}
    (h : IsReading cs parts) (hcs : ∀ c ∈ cs, Text.isBlank c = false) :
    ∀ part ∈ parts, Text.IsWord (part.fill values).toList := by
  induction h with
  | nil => simp
  | @placeholder name rest parts hname _ ih =>
    refine List.forall_mem_cons.2 ⟨?_, ih fun c hc => hcs c (by simp [hc])⟩
    rw [Part.fill]
    cases hvalue : values (String.ofList name) with
    | none => simpa using isWord_placeholder hname.isSlotName
    | some value => exact hvalues _ value hvalue
  | @char c rest parts _ _ ih =>
    refine List.forall_mem_cons.2 ⟨?_, ih fun d hd => hcs d (by simp [hd])⟩
    simpa [Part.fill, Text.IsWord] using hcs c (by simp)

/-- **A word that is filled with words** is a word. -/
theorem isWord_filled (hvalues : Wordy values) {w : List Char} (hw : Text.IsWord w) :
    Text.IsWord (filled values w) := by
  have hreading := Template.isReading_parts w
  have hparts := isWord_fill_of_mem hvalues hreading hw.2
  have hne : (Template.ofChars w).parts ≠ [] := by
    intro hnil
    rw [hnil] at hreading
    cases hreading
    exact hw.1 rfl
  have hfilled : filled values w
      = (Template.ofChars w).parts.flatMap fun part => (part.fill values).toList := by
    rw [filled, Template.substitute_eq_join, String.toList_join, List.flatMap_map]
  rw [hfilled]
  obtain ⟨part, parts, hcons⟩ := List.exists_cons_of_ne_nil hne
  -- the first part alone makes the word non-empty, and no part brings in a blank
  refine ⟨?_, fun c hc => ?_⟩
  · rw [hcons, List.flatMap_cons]
    exact List.append_ne_nil_of_left_ne_nil (hparts part (by simp [hcons])).1 _
  · obtain ⟨part, hpart, hc⟩ := List.mem_flatMap.1 hc
    exact (hparts part hpart).2 c hc

/-! ### Many passes -/

namespace Template

/-- A template is read from the characters of its text. -/
theorem ofText_ofList (cs : List Char) : ofText (String.ofList cs) = ofChars cs := by
  rw [ofText, String.toList_ofList]

/-- **A text that is filled in many passes** is each of its words filled in these passes. -/
theorem toList_fillAll {passes : List (String → Option String)}
    (hpasses : ∀ values ∈ passes, Wordy values) (text : String) :
    (fillAll text passes).toList
      = Text.mapWords (fun w => (fillAll (String.ofList w) passes).toList) text.toList := by
  induction passes generalizing text with
  | nil => exact (Text.mapWords_eq_self fun w _ => String.toList_ofList).symm
  | cons values rest ih =>
    have hvalues : Wordy values := hpasses values (by simp)
    have ih := ih fun v hv => hpasses v (by simp [hv])
    -- the first pass fills the word that the later passes then go over
    have hfirst (cs : List Char) : fillAll (String.ofList cs) (values :: rest)
        = fillAll (String.ofList (filled values cs)) rest := by
      rw [fillAll, List.foldl_cons, ofText_ofList, filled, String.ofList_toList, fillAll]
    calc (fillAll text (values :: rest)).toList
        = (fillAll (String.ofList (filled values text.toList)) rest).toList := by
          rw [← hfirst, String.ofList_toList]
      _ = Text.mapWords (fun w => (fillAll (String.ofList w) rest).toList)
            (Text.mapWords (filled values) text.toList) := by
          rw [ih, String.toList_ofList, filled_eq_mapWords]
      _ = Text.mapWords (fun w => (fillAll (String.ofList w) (values :: rest)).toList)
            text.toList := by
          rw [Text.mapWords_mapWords fun w => isWord_filled hvalues]
          simp only [hfirst]

/-- A word stays one through many passes with words. -/
theorem isWord_fillAll {passes : List (String → Option String)}
    (hpasses : ∀ values ∈ passes, Wordy values) {word : String} (hword : Text.IsWord word.toList) :
    Text.IsWord (fillAll word passes).toList := by
  induction passes generalizing word with
  | nil => exact hword
  | cons values rest ih =>
    exact ih (fun v hv => hpasses v (by simp [hv])) (isWord_filled (hpasses values (by simp)) hword)

/-- **The words of a text** that is filled in many passes are its words, each filled. -/
theorem wordsOf_fillAll {passes : List (String → Option String)}
    (hpasses : ∀ values ∈ passes, Wordy values) (text : String) :
    Text.wordsOf (fillAll text passes)
      = (Text.wordsOf text).map fun word => fillAll word passes := by
  have hword : ∀ w, Text.IsWord w → Text.IsWord (fillAll (String.ofList w) passes).toList :=
    fun w hw => isWord_fillAll hpasses (by rwa [String.toList_ofList])
  rw [Text.wordsOf, toList_fillAll hpasses, Text.words_mapWords hword, Text.wordsOf, List.map_map,
    List.map_map]
  simp [Function.comp_def]

/-! ### Words that stay -/

/-- A text with no dollar sign stays what it is. -/
theorem substitute_of_not_mem (values : String → Option String) {text : String}
    (h : '$' ∉ text.toList) : (ofText text).substitute values = text := by
  have hplain : (substitute values (ofChars (text.toList ++ []))).toList
      = text.toList ++ (substitute values (ofChars [])).toList := toList_substitute_plain h []
  rw [List.append_nil, ofChars_nil, toList_substitute_nil, List.append_nil] at hplain
  exact String.toList_inj.1 hplain

/-- **A text with no dollar sign** stays what it is in all passes. -/
theorem fillAll_of_not_mem {text : String} (h : '$' ∉ text.toList)
    (passes : List (String → Option String)) : fillAll text passes = text := by
  induction passes with
  | nil => rfl
  | cons values rest ih =>
    rw [fillAll, List.foldl_cons, substitute_of_not_mem values h]
    exact ih

/-- A placeholder stands for the value of its slot, if it has one. -/
theorem substitute_placeholder (values : String → Option String) {slot : String}
    (h : IsSlotName slot.toList) :
    (ofText ("$" ++ slot)).substitute values = (values slot).getD ("$" ++ slot) := by
  have hpieces : ofText ("$" ++ slot) = [.slot slot] := by
    have hread := ofChars_placeholder h Text.startsBlank_nil
    rw [List.append_nil, ofChars_nil, String.ofList_toList] at hread
    simpa [ofText] using hread
  simp [hpieces, substitute, Piece.substitute]

/-- A placeholder that takes a value with no dollar sign is that value from then on. -/
theorem fillAll_placeholder_of_some {slot value : String} (h : IsSlotName slot.toList)
    (hvalue : values slot = some value) (hplain : '$' ∉ value.toList)
    (passes : List (String → Option String)) :
    fillAll ("$" ++ slot) (values :: passes) = value := by
  rw [fillAll, List.foldl_cons, substitute_placeholder values h, hvalue]
  exact fillAll_of_not_mem hplain passes

/-- **A placeholder with no value in any pass** stays. -/
theorem fillAll_placeholder_of_none {slot : String} (h : IsSlotName slot.toList)
    {passes : List (String → Option String)} (hnone : ∀ values ∈ passes, values slot = none) :
    fillAll ("$" ++ slot) passes = "$" ++ slot := by
  induction passes with
  | nil => rfl
  | cons values rest ih =>
    rw [fillAll, List.foldl_cons, substitute_placeholder values h, hnone values (by simp)]
    exact ih fun v hv => hnone v (by simp [hv])

end Template

end ScriptAbi
