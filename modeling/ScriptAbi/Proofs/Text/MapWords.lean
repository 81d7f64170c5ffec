import ScriptAbi.Proofs.Text.Words

namespace ScriptAbi.Text

/-!
# Rewriting a text word by word

* `mapWords`: a text with each word rewritten, and its blanks as they are.
* `words_mapWords`, `mapWords_mapWords`: where words become words, the words of the text that comes
  out are those that went in, rewritten, and rewriting twice is rewriting once.
* `mapWords_congr`: only what becomes of the words of a text counts.
-/

/-- The text with `f` made of each of its words, and the blanks between them as they are. -/
def mapWords (f : List Char → List Char) : List Char → List Char
  | [] => []
  | c :: rest =>
    if isBlank c then c :: mapWords f rest
    else
      have := (List.dropWhile_suffix (fun c => !isBlank c) (l := rest)).length_le
      f (c :: rest.takeWhile fun c => !isBlank c)
        ++ mapWords f (rest.dropWhile fun c => !isBlank c)
termination_by cs => cs.length

variable {f g : List Char → List Char}

@[simp] theorem mapWords_nil : mapWords f [] = [] := by
  rw [mapWords]

/-- A blank stays. -/
theorem mapWords_cons_blank {c : Char} (h : isBlank c = true) (rest : List Char) :
    mapWords f (c :: rest) = c :: mapWords f rest := by
  rw [mapWords, if_pos h]

/-- A word before a text that does not go on with it is rewritten on its own. -/
theorem mapWords_append_of_isWord {w rest : List Char} (hw : IsWord w) (hr : StartsBlank rest) :
    mapWords f (w ++ rest) = f w ++ mapWords f rest := by
  obtain ⟨c, w, rfl⟩ := List.exists_cons_of_ne_nil hw.1
  have hc : ¬ isBlank c = true := by simp [hw.2 c (by simp)]
  have hrun : ∀ d ∈ w, (!isBlank d) = true := fun d hd => by simp [hw.2 d (by simp [hd])]
  obtain ⟨htake, hdrop⟩ := takeWhile_append_of_head? hrun fun d hd => by simp [hr d hd]
  rw [List.cons_append, mapWords, if_neg hc, htake, hdrop]

/-- What starts with a blank still does when its words are rewritten. -/
theorem startsBlank_mapWords {cs : List Char} (h : StartsBlank cs) :
    StartsBlank (mapWords f cs) := by
  cases cs with
  | nil => simp
  | cons c rest =>
    have hc : isBlank c = true := h c (by simp)
    rw [mapWords_cons_blank hc]
    exact startsBlank_cons hc _

/-- **Words that become words** are the words of the text that comes out. -/
theorem words_mapWords (hf : ∀ w, IsWord w → IsWord (f w)) (cs : List Char) :
    words (mapWords f cs) = (words cs).map f := by
  induction cs using text_induction with
  | nil => simp
  | blank c rest hc ih =>
    rw [mapWords_cons_blank hc, words_cons_blank hc, words_cons_blank hc, ih]
  | word w rest hw hr ih =>
    rw [mapWords_append_of_isWord hw hr, words_append_of_isWord (hf w hw) (startsBlank_mapWords hr),
      words_append_of_isWord hw hr, ih, List.map_cons]

/-- **Rewriting twice is rewriting once**, if the words that become of words are words. -/
theorem mapWords_mapWords (hf : ∀ w, IsWord w → IsWord (f w)) (cs : List Char) :
    mapWords g (mapWords f cs) = mapWords (fun w => g (f w)) cs := by
  induction cs using text_induction with
  | nil => simp
  | blank c rest hc ih =>
    rw [mapWords_cons_blank hc, mapWords_cons_blank hc, mapWords_cons_blank hc, ih]
  | word w rest hw hr ih =>
    rw [mapWords_append_of_isWord hw hr,
      mapWords_append_of_isWord (hf w hw) (startsBlank_mapWords hr), ih,
      mapWords_append_of_isWord hw hr]

/-- Only what becomes of the words that the text has counts. -/
theorem mapWords_congr {cs : List Char} (h : ∀ w ∈ words cs, f w = g w) :
    mapWords f cs = mapWords g cs := by
  induction cs using text_induction with
  | nil => simp
  | blank c rest hc ih =>
    rw [words_cons_blank hc] at h
    rw [mapWords_cons_blank hc, mapWords_cons_blank hc, ih h]
  | word w rest hw hr ih =>
    rw [words_append_of_isWord hw hr] at h
    rw [mapWords_append_of_isWord hw hr, mapWords_append_of_isWord hw hr, h w (by simp),
      ih fun v hv => h v (by simp [hv])]

/-- Words rewritten as themselves make the same text. -/
theorem mapWords_id (cs : List Char) : mapWords id cs = cs := by
  induction cs using text_induction with
  | nil => simp
  | blank c rest hc ih => rw [mapWords_cons_blank hc, ih]
  | word w rest hw hr ih => rw [mapWords_append_of_isWord hw hr, ih, id_eq]

/-- Where each word stays what it is the text does. -/
theorem mapWords_eq_self {cs : List Char} (h : ∀ w ∈ words cs, f w = w) : mapWords f cs = cs :=
  (mapWords_congr h).trans (mapWords_id cs)

end ScriptAbi.Text
