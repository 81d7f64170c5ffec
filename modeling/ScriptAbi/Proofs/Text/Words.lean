import ScriptAbi.Text.Blank
import Mathlib.Data.List.Basic
import Mathlib.Data.List.TakeWhile

namespace ScriptAbi.Text

/-!
# The words of a text

How `words` takes a text apart, and that it gets back the words that were put into a text.

* `IsWord`: a run of characters that are no blanks, and not the empty one.
* `text_induction`: a text is empty, or a blank and a text, or a word and a text that does not go
  on with it. Facts about all texts are proved along these three cases.
* `words_append_blank`, `words_trim`: words survive joining at a blank and trimming.
* `Padded`: a part of a text with nothing but blanks around it. Trimming gives the part
  (`trim_of_padded`) and takes off nothing but blanks (`padded_trim`).
* `words_intercalate`: words with one space between them are read back as these words.
-/

/-- A run of one or more characters, none of them a blank. -/
def IsWord (cs : List Char) : Prop := cs ≠ [] ∧ ∀ c ∈ cs, isBlank c = false

theorem isWord_iff {cs : List Char} :
    IsWord cs ↔ (!cs.isEmpty && cs.all fun c => !isBlank c) = true := by
  simp [IsWord]

instance (cs : List Char) : Decidable (IsWord cs) := decidable_of_iff _ isWord_iff.symm

/-- What stands between words is part of one, unless there is a blank in it. -/
theorem IsWord.between {front middle back : List Char} (hfront : IsWord front)
    (hmiddle : ∀ c ∈ middle, isBlank c = false) (hback : IsWord back) :
    IsWord (front ++ middle ++ back) := by
  refine ⟨by simp [hfront.1], ?_⟩
  exact List.forall_mem_append.2 ⟨List.forall_mem_append.2 ⟨hfront.2, hmiddle⟩, hback.2⟩

/-- A word has no blanks at its ends. -/
theorem trim_of_isWord {cs : List Char} (h : IsWord cs) : trim cs = cs :=
  trim_eq_self (fun c hc => h.2 c (List.mem_of_mem_head? hc))
    fun c hc => h.2 c (List.mem_of_mem_getLast? hc)

/-- The text is empty or starts with a blank, so that it does not go on with a word before it. -/
def StartsBlank (cs : List Char) : Prop := ∀ c ∈ cs.head?, isBlank c = true

@[simp] theorem startsBlank_nil : StartsBlank [] := by simp [StartsBlank]

theorem startsBlank_cons {c : Char} (h : isBlank c = true) (rest : List Char) :
    StartsBlank (c :: rest) := by
  simpa [StartsBlank] using h

/-! ### Taking a text apart -/

/-- What is taken off the front of a text for a property is a run with the property before a text
    that does not go on with it. -/
theorem takeWhile_append_of_head? {α : Type} {p : α → Bool} {run rest : List α}
    (hrun : ∀ c ∈ run, p c = true) (hrest : ∀ c ∈ rest.head?, p c = false) :
    (run ++ rest).takeWhile p = run ∧ (run ++ rest).dropWhile p = rest := by
  rw [List.takeWhile_append_of_pos hrun, List.dropWhile_append_of_pos hrun]
  cases rest with
  | nil => simp
  | cons c rest =>
    have hc : ¬ p c = true := by simp [hrest c (by simp)]
    rw [List.takeWhile_cons_of_neg hc, List.dropWhile_cons_of_neg hc, List.append_nil]
    exact ⟨rfl, rfl⟩

/-- What is left of a list goes on with what stopped the run. -/
theorem eq_false_of_head?_dropWhile {p : Char → Bool} {cs : List Char} :
    ∀ c ∈ (cs.dropWhile p).head?, p c = false := by
  intro c hc
  have hstop := List.head?_dropWhile_not p cs
  rw [hc] at hstop
  exact hstop

/-- What follows the first word starts with a blank or is the end. -/
theorem startsBlank_dropWhile (cs : List Char) :
    StartsBlank (cs.dropWhile fun c => !isBlank c) := by
  intro c hc
  simpa using eq_false_of_head?_dropWhile c hc

/-- **Induction along a text**: nothing, a blank before a text, a word before a text that does not
    go on with it. -/
@[elab_as_elim]
theorem text_induction {motive : List Char → Prop} (nil : motive [])
    (blank : ∀ c rest, isBlank c = true → motive rest → motive (c :: rest))
    (word : ∀ w rest, IsWord w → StartsBlank rest → motive rest → motive (w ++ rest)) :
    ∀ cs, motive cs
  | [] => nil
  | c :: rest => by
    by_cases hc : isBlank c = true
    · exact blank c rest hc (text_induction nil blank word rest)
    · -- the word goes on as far as it can, and the rest is shorter as it takes `c`
      have hlt : (rest.dropWhile fun c => !isBlank c).length < (c :: rest).length := by
        have := (List.dropWhile_suffix (fun c => !isBlank c) (l := rest)).length_le
        simp only [List.length_cons]
        omega
      have hword : IsWord (c :: rest.takeWhile fun c => !isBlank c) := by
        refine ⟨by simp, fun d hd => ?_⟩
        rcases List.mem_cons.1 hd with rfl | hd
        · simpa using hc
        · simpa using List.mem_takeWhile_imp hd
      have := word _ _ hword (startsBlank_dropWhile rest)
        (text_induction nil blank word (rest.dropWhile fun c => !isBlank c))
      rwa [List.cons_append, List.takeWhile_append_dropWhile] at this
termination_by cs => cs.length
decreasing_by
  · exact Nat.lt_succ_self _
  · exact hlt

/-! ### Words of a text that is put together -/

@[simp] theorem words_nil : words [] = [] := rfl

/-- The words of two texts with a blank between them are those of the one and of the other. -/
theorem words_append_blank (front back : List Char) {c : Char} (h : isBlank c = true) :
    words (front ++ c :: back) = words front ++ words back := by
  rw [words, List.splitOnP_append_cons front back h, List.filter_append]
  rfl

/-- A blank in front does not count. -/
theorem words_cons_blank {c : Char} (h : isBlank c = true) (rest : List Char) :
    words (c :: rest) = words rest :=
  words_append_blank [] rest h

/-- A word is the one word of itself. -/
theorem words_of_isWord {w : List Char} (h : IsWord w) : words w = [w] := by
  rw [words, List.splitOnP_eq_singleton h.2]
  simp [h.1]

/-- A word before a text that does not go on with it is the first word. -/
theorem words_append_of_isWord {w rest : List Char} (hw : IsWord w) (hr : StartsBlank rest) :
    words (w ++ rest) = w :: words rest := by
  cases rest with
  | nil => simp [words_of_isWord hw]
  | cons c rest =>
    have hc : isBlank c = true := hr c (by simp)
    rw [words_append_blank w rest hc, words_of_isWord hw, words_cons_blank hc]
    rfl

/-- Blanks have no words. -/
theorem words_eq_nil_of_blank {cs : List Char} (h : ∀ c ∈ cs, isBlank c = true) :
    words cs = [] := by
  induction cs with
  | nil => rfl
  | cons c rest ih =>
    rw [words_cons_blank (h c (by simp))]
    exact ih fun d hd => h d (by simp [hd])

/-! ### Blanks at the ends -/

/-- Blanks in front do not count. -/
theorem words_trimStart (cs : List Char) : words (trimStart cs) = words cs := by
  induction cs with
  | nil => rfl
  | cons c rest ih =>
    by_cases hc : isBlank c = true
    · rw [words_cons_blank hc, ← ih, trimStart, List.dropWhile_cons_of_pos hc, trimStart]
    · rw [trimStart, List.dropWhile_cons_of_neg hc]

/-- Blanks at the end make no words. -/
theorem words_append_of_blank (cs : List Char) {bs : List Char} (h : ∀ c ∈ bs, isBlank c = true) :
    words (cs ++ bs) = words cs := by
  cases bs with
  | nil => rw [List.append_nil]
  | cons b bs =>
    have hbs : words bs = [] := words_eq_nil_of_blank fun c hc => h c (List.mem_cons_of_mem b hc)
    rw [words_append_blank cs bs (h b (by simp)), hbs, List.append_nil]

/-- A text is what `trimEnd` leaves of it, and blanks. -/
theorem exists_eq_trimEnd_append (cs : List Char) :
    ∃ bs, (∀ c ∈ bs, isBlank c = true) ∧ cs = trimEnd cs ++ bs := by
  refine ⟨(cs.reverse.takeWhile isBlank).reverse, fun c hc => ?_, ?_⟩
  · exact List.mem_takeWhile_imp (List.mem_reverse.1 hc)
  · rw [trimEnd, ← List.reverse_append, List.takeWhile_append_dropWhile, List.reverse_reverse]

/-- Trimming a text keeps its words. -/
@[simp] theorem words_trim (cs : List Char) : words (trim cs) = words cs := by
  obtain ⟨bs, hbs, heq⟩ := exists_eq_trimEnd_append (trimStart cs)
  calc words (trim cs) = words (trimEnd (trimStart cs) ++ bs) := (words_append_of_blank _ hbs).symm
    _ = words (trimStart cs) := by rw [← heq]
    _ = words cs := words_trimStart cs

/-! ### Blanks around a part -/

/-- The text is the part with blanks around it. -/
def Padded (part text : List Char) : Prop :=
  ∃ lead trail, (∀ c ∈ lead, isBlank c = true) ∧ (∀ c ∈ trail, isBlank c = true)
    ∧ text = lead ++ part ++ trail

theorem padded_self (part : List Char) : Padded part part := ⟨[], [], by simp⟩

/-- Blanks alone are taken off a text. -/
theorem padded_trim (cs : List Char) : Padded (trim cs) cs := by
  obtain ⟨trail, htrail, heq⟩ := exists_eq_trimEnd_append (trimStart cs)
  refine ⟨cs.takeWhile isBlank, trail, fun c hc => List.mem_takeWhile_imp hc, htrail, ?_⟩
  rw [List.append_assoc, trim, ← heq, trimStart, List.takeWhile_append_dropWhile]

/-- A trimmed text does not end in a blank. -/
theorem eq_false_of_getLast?_trim {cs : List Char} :
    ∀ c ∈ (trim cs).getLast?, isBlank c = false := by
  intro c hc
  rw [trim, trimEnd, List.getLast?_reverse] at hc
  exact eq_false_of_head?_dropWhile c hc

/-- Nor does it start with one. -/
theorem eq_false_of_head?_trim {cs : List Char} : ∀ c ∈ (trim cs).head?, isBlank c = false := by
  intro c hc
  obtain ⟨trail, -, heq⟩ := exists_eq_trimEnd_append (trimStart cs)
  have hne : trimEnd (trimStart cs) ≠ [] := by
    intro hnil
    rw [trim, hnil] at hc
    contradiction
  -- what is left at the end starts as what was left at the front
  have hstart : c ∈ (trimStart cs).head? := by
    rwa [heq, List.head?_append_of_ne_nil _ hne]
  exact eq_false_of_head?_dropWhile c hstart

/-- **Trimming gives the part** that has no blanks at its own ends. -/
theorem trim_of_padded {part text : List Char} (h : Padded part text) (hne : part ≠ [])
    (front : ∀ c ∈ part.head?, isBlank c = false)
    (back : ∀ c ∈ part.getLast?, isBlank c = false) : trim text = part := by
  obtain ⟨lead, trail, hlead, htrail, rfl⟩ := h
  have hfront : ∀ c ∈ (part ++ trail).head?, isBlank c = false := by
    rwa [List.head?_append_of_ne_nil part hne]
  have hstart : trimStart (lead ++ part ++ trail) = part ++ trail := by
    rw [List.append_assoc, trimStart, (takeWhile_append_of_head? hlead hfront).2]
  have hback : ∀ c ∈ part.reverse.head?, isBlank c = false := by
    rwa [List.head?_reverse]
  have hblank : ∀ c ∈ trail.reverse, isBlank c = true :=
    fun c hc => htrail c (List.mem_reverse.1 hc)
  rw [trim, hstart, trimEnd, List.reverse_append, (takeWhile_append_of_head? hblank hback).2,
    List.reverse_reverse]

/-- Trimming gives the one word of a text. -/
theorem trim_of_padded_word {part text : List Char} (h : Padded part text) (hpart : IsWord part) :
    trim text = part :=
  trim_of_padded h hpart.1 (fun c hc => hpart.2 c (List.mem_of_mem_head? hc))
    fun c hc => hpart.2 c (List.mem_of_mem_getLast? hc)

/-! ### Words with spaces between them -/

/-- **Reading back words.** Words with one space between them are read as these words. -/
theorem words_intercalate {ws : List (List Char)} (h : ∀ w ∈ ws, IsWord w) :
    words ([' '].intercalate ws) = ws := by
  induction ws with
  | nil => rfl
  | cons w rest ih =>
    have hrest : words ([' '].intercalate rest) = rest := ih fun v hv => h v (by simp [hv])
    have hw : IsWord w := h w (by simp)
    cases rest with
    | nil => simpa using words_of_isWord hw
    | cons v rest =>
      rw [List.intercalate_cons_cons, List.append_assoc, List.singleton_append,
        words_append_blank w _ (by decide), words_of_isWord hw, hrest]
      rfl

/-! ### Strings -/

/-- Trimming keeps the words. -/
@[simp] theorem wordsOf_trimmed (text : String) : wordsOf (trimmed text) = wordsOf text := by
  simp [wordsOf, trimmed]

/-- The words of two strings with a space between them are those of the one and of the other. -/
theorem wordsOf_append_space (front back : String) :
    wordsOf (front ++ " " ++ back) = wordsOf front ++ wordsOf back := by
  have hlist : (front ++ " " ++ back).toList = front.toList ++ ' ' :: back.toList := by simp
  rw [wordsOf, hlist, words_append_blank _ _ (by decide), List.map_append]
  rfl

/-- A string that is one word is read as that word. -/
theorem wordsOf_of_isWord {word : String} (h : IsWord word.toList) : wordsOf word = [word] := by
  simp [wordsOf, words_of_isWord h]

/-- **Reading back words**, as strings. -/
theorem wordsOf_intercalate {ws : List String} (h : ∀ w ∈ ws, IsWord w.toList) :
    wordsOf (" ".intercalate ws) = ws := by
  have hwords : ∀ w ∈ ws.map String.toList, IsWord w := by
    intro w hw
    obtain ⟨s, hs, rfl⟩ := List.mem_map.1 hw
    exact h s hs
  rw [wordsOf, String.toList_intercalate]
  show (words ([' '].intercalate (ws.map String.toList))).map String.ofList = ws
  rw [words_intercalate hwords, List.map_map]
  simp [Function.comp_def]

end ScriptAbi.Text
