import ScriptAbi.SourceMap
import Mathlib.Data.List.Basic

namespace ScriptAbi

/-!
# The nearest place in the source

A word that comes from no place in the source, as far as is noted, borrows the place of the nearest
word before it that has one.

* `SourceWord.ComesFrom`: the place that a word carries, said of its fields.
* `NearestPlace`: the place of the last word, not after the given one, that carries a place.
* `SourceWord.nearestBefore?_succ`: what one more word in sight does to the search; the search is
  met along it (`nearestBefore?_eq_some_iff`, `nearestBefore?_eq_none_iff`).
* `SourceWord.locate_iff_nearestPlace`: where a run stopped, for every count of words.
-/

namespace SourceWord

variable {words : List SourceWord} {word : SourceWord} {position : Nat}

/-! ### The place of one word -/

/-- The word carries a file with a name and a line that is not zero. -/
def ComesFrom (word : SourceWord) (file : String) (line : UInt32) : Prop :=
  word.file = some file ∧ file ≠ "" ∧ word.line = some line ∧ 0 < line

/-- A word has a place iff it knows both its file and its line. -/
theorem place?_eq_some_iff {file : String} {line : UInt32} :
    word.place? = some (file, line) ↔ word.ComesFrom file line := by
  unfold place? ComesFrom
  cases hfile : word.file with
  | none => simp
  | some file' =>
    cases hline : word.line with
    | none => simp
    | some line' =>
      simp only [Option.ite_none_right_eq_some, Option.some.injEq, Prod.mk.injEq]
      constructor
      · rintro ⟨⟨hname, hpos⟩, rfl, rfl⟩
        exact ⟨rfl, hname, rfl, hpos⟩
      · rintro ⟨rfl, hname, rfl, hpos⟩
        exact ⟨⟨hname, hpos⟩, rfl, rfl⟩

/-- A word is mapped iff it has a place. -/
theorem isMapped_iff : word.isMapped = true ↔ ∃ file line, word.ComesFrom file line := by
  simp only [isMapped, Option.isSome_iff_exists, Prod.exists, place?_eq_some_iff]

/-! ### The search -/

/-- **One more word in sight** is found if a place is noted for it, and else changes nothing. -/
theorem nearestBefore?_succ (words : List SourceWord) (position : Nat) :
    nearestBefore? words (position + 1)
      = (words[position]?.filter isMapped).or (nearestBefore? words position) := by
  rw [nearestBefore?, List.take_add_one, List.reverse_append, List.find?_append, nearestBefore?]
  cases words[position]? with
  | none => rfl
  | some word => cases h : word.isMapped <;> simp [Option.filter, h]

/-- A word with a place is found as soon as it is in sight. -/
theorem nearestBefore?_succ_of_isMapped (hget : words[position]? = some word)
    (hmapped : word.isMapped = true) : nearestBefore? words (position + 1) = some word := by
  rw [nearestBefore?_succ, hget, Option.filter_some, if_pos hmapped, Option.some_or]

/-- A word with no place, or the end of the script, is passed over. -/
theorem nearestBefore?_succ_of_unmapped
    (h : ∀ last, words[position]? = some last → last.isMapped = false) :
    nearestBefore? words (position + 1) = nearestBefore? words position := by
  have hnone : words[position]?.filter isMapped = none :=
    Option.filter_eq_none_iff.2 fun last hget => Bool.eq_false_iff.1 (h last hget)
  rw [nearestBefore?_succ, hnone, Option.none_or]

/-- **What is found** is the last word in sight for which a place is noted. -/
theorem nearestBefore?_eq_some_iff :
    nearestBefore? words position = some word ↔
      ∃ index < position, words[index]? = some word ∧ word.isMapped = true
        ∧ ∀ i other, index < i → i < position → words[i]? = some other →
          other.isMapped = false := by
  induction position with
  | zero => simp [nearestBefore?]
  | succ position ih =>
    by_cases hlast : ∃ last, words[position]? = some last ∧ last.isMapped = true
    · -- the new word is found, and no other can be, as it comes after all of them
      obtain ⟨last, hget, hmapped⟩ := hlast
      rw [nearestBefore?_succ_of_isMapped hget hmapped, Option.some.injEq]
      constructor
      · rintro rfl
        exact ⟨position, Nat.lt_succ_self _, hget, hmapped, fun i _ hlt hle => by omega⟩
      · rintro ⟨index, hlt, hword, -, hafter⟩
        have hindex : index = position := by
          by_contra hne
          have hunmapped := hafter position last (by omega) (Nat.lt_succ_self _) hget
          rw [hmapped] at hunmapped
          contradiction
        rw [hindex, hget] at hword
        exact Option.some.inj hword
    · -- the new word is neither found nor in the way
      have hunmapped : ∀ last, words[position]? = some last → last.isMapped = false :=
        fun last hget => Bool.eq_false_iff.2 fun hmapped => hlast ⟨last, hget, hmapped⟩
      rw [nearestBefore?_succ_of_unmapped hunmapped, ih]
      constructor
      · rintro ⟨index, hlt, hword, hmapped, hafter⟩
        refine ⟨index, Nat.lt_succ_of_lt hlt, hword, hmapped, fun i other hi hle hget => ?_⟩
        rcases Nat.lt_succ_iff_lt_or_eq.1 hle with hle | rfl
        · exact hafter i other hi hle hget
        · exact hunmapped other hget
      · rintro ⟨index, hlt, hword, hmapped, hafter⟩
        have hne : index ≠ position := by
          rintro rfl
          exact hlast ⟨word, hword, hmapped⟩
        exact ⟨index, by omega, hword, hmapped,
          fun i other hi hle => hafter i other hi (Nat.lt_succ_of_lt hle)⟩

/-- **Nothing is found** iff for no word in sight a place is noted. -/
theorem nearestBefore?_eq_none_iff :
    nearestBefore? words position = none ↔
      ∀ index other, index < position → words[index]? = some other → other.isMapped = false := by
  induction position with
  | zero => simp [nearestBefore?]
  | succ position ih =>
    rw [nearestBefore?_succ, Option.or_eq_none_iff, Option.filter_eq_none_iff, ih]
    constructor
    · rintro ⟨hlast, hbefore⟩ index other hlt hget
      rcases Nat.lt_succ_iff_lt_or_eq.1 hlt with hlt | rfl
      · exact hbefore index other hlt hget
      · exact Bool.eq_false_iff.2 (hlast other hget)
    · intro h
      refine ⟨fun last hget => ?_, fun index other hlt => h index other (Nat.lt_succ_of_lt hlt)⟩
      exact Bool.eq_false_iff.1 (h position last (Nat.lt_succ_self _) hget)

/-! ### Where a run stopped -/

/-- **The word itself and the words before it** are searched as one. -/
theorem locate_succ (words : List SourceWord) (position : Nat) :
    locate words (position + 1) = do
      let word ← words[position]?
      let mapped ← nearestBefore? words (position + 1)
      let (file, line) ← mapped.place?
      return ⟨file, line, word.opcode⟩ := by
  rw [locate, nearestBefore?_succ]
  cases words[position]? with
  | none => rfl
  | some word => cases h : word.isMapped <;> simp [Option.filter, h]

end SourceWord

/-- The place of the word at `index`, which is the last one up to `position` that carries a place. -/
structure NearestPlace (words : List SourceWord) (position index : Nat) (file : String)
    (line : UInt32) : Prop where
  le : index ≤ position
  comesFrom : ∃ word, words[index]? = some word ∧ word.ComesFrom file line
  none_between : ∀ i word, index < i → i ≤ position → words[i]? = some word →
    ∀ file line, ¬ word.ComesFrom file line

namespace SourceWord

variable {words : List SourceWord} {position : Nat}

/-- The place that is found is the nearest one. -/
theorem exists_place?_iff_nearestPlace {file : String} {line : UInt32} :
    (∃ mapped, nearestBefore? words (position + 1) = some mapped
        ∧ mapped.place? = some (file, line)) ↔
      ∃ index, NearestPlace words position index file line := by
  simp only [nearestBefore?_eq_some_iff, place?_eq_some_iff, Nat.lt_succ_iff]
  constructor
  · rintro ⟨mapped, ⟨index, hle, hget, -, hafter⟩, hplace⟩
    refine ⟨index, hle, ⟨mapped, hget, hplace⟩, fun i word hlt hi hword file line h => ?_⟩
    have hunmapped := hafter i word hlt hi hword
    rw [isMapped_iff.2 ⟨file, line, h⟩] at hunmapped
    contradiction
  · rintro ⟨index, hle, ⟨mapped, hget, hplace⟩, hbetween⟩
    refine ⟨mapped, ⟨index, hle, hget, isMapped_iff.2 ⟨file, line, hplace⟩, ?_⟩, hplace⟩
    intro i word hlt hi hword
    refine Bool.eq_false_iff.2 fun h => ?_
    obtain ⟨file', line', hplace'⟩ := isMapped_iff.1 h
    exact hbetween i word hlt hi hword file' line' hplace'

/-- There is a nearest place iff some word carries a place. -/
theorem exists_nearestPlace_iff :
    (∃ index file line, NearestPlace words position index file line) ↔
      ∃ index ≤ position, ∃ word, words[index]? = some word
        ∧ ∃ file line, word.ComesFrom file line := by
  constructor
  · rintro ⟨index, file, line, h⟩
    obtain ⟨word, hget, hplace⟩ := h.comesFrom
    exact ⟨index, h.le, word, hget, file, line, hplace⟩
  · rintro ⟨index, hle, word, hget, hplace⟩
    -- the search finds something, as it passes this word
    cases hfound : nearestBefore? words (position + 1) with
    | none =>
      have hunmapped := nearestBefore?_eq_none_iff.1 hfound index word (Nat.lt_succ_of_le hle) hget
      rw [isMapped_iff.2 hplace] at hunmapped
      contradiction
    | some mapped =>
      obtain ⟨_, -, -, hmapped, -⟩ := nearestBefore?_eq_some_iff.1 hfound
      obtain ⟨file, line, hmapped⟩ := isMapped_iff.1 hmapped
      obtain ⟨nearest, hnearest⟩ :=
        exists_place?_iff_nearestPlace.1 ⟨mapped, hfound, place?_eq_some_iff.2 hmapped⟩
      exact ⟨nearest, file, line, hnearest⟩

/-- A run that stopped at a word of the script is located at the nearest place, with that word. -/
theorem locate_succ_eq_some_iff {location : SourceLocation} :
    locate words (position + 1) = some location ↔
      (∃ failing, words[position]? = some failing ∧ failing.opcode = location.opcode)
        ∧ ∃ index, NearestPlace words position index location.file location.line := by
  rw [← exists_place?_iff_nearestPlace, locate_succ]
  simp only [Option.bind_eq_bind, Option.bind_eq_some_iff, Option.pure_def, Option.some.injEq,
    Prod.exists]
  constructor
  · rintro ⟨failing, hget, mapped, hfound, file, line, hplace, rfl⟩
    exact ⟨⟨failing, hget, rfl⟩, mapped, hfound, hplace⟩
  · rintro ⟨⟨failing, hget, hopcode⟩, mapped, hfound, hplace⟩
    exact ⟨failing, hget, mapped, hfound, _, _, hplace, by rw [hopcode]⟩

/-- **Where a run stopped.** The count of words takes in the failing one, and the place is known iff
    the script has that word and a word up to it carries a place. What is told then is the failing
    word with the place of the last such word, between which and the failing word none carries a
    place. -/
theorem locate_iff_nearestPlace (words : List SourceWord) (executed : Nat) :
    ((locate words executed).isSome = true ↔
        1 ≤ executed ∧ executed ≤ words.length
          ∧ ∃ index ≤ executed - 1, ∃ word, words[index]? = some word
            ∧ ∃ file line, word.ComesFrom file line)
      ∧ ∀ location, locate words executed = some location ↔
        1 ≤ executed
          ∧ (∃ failing, words[executed - 1]? = some failing ∧ failing.opcode = location.opcode)
          ∧ ∃ index, NearestPlace words (executed - 1) index location.file location.line := by
  cases executed with
  -- before the first word nothing has been executed, and nothing is located
  | zero => simp [locate]
  | succ position =>
    rw [Nat.add_sub_cancel]
    refine ⟨?_, fun location => ?_⟩
    · rw [Option.isSome_iff_exists, ← exists_nearestPlace_iff]
      simp only [locate_succ_eq_some_iff]
      constructor
      · rintro ⟨location, ⟨failing, hget, -⟩, index, hnearest⟩
        obtain ⟨hlt, -⟩ := List.getElem?_eq_some_iff.1 hget
        exact ⟨Nat.le_add_left 1 position, hlt, index, _, _, hnearest⟩
      · rintro ⟨-, hlt, index, file, line, hnearest⟩
        obtain ⟨failing, hget⟩ : ∃ failing, words[position]? = some failing :=
          ⟨_, List.getElem?_eq_getElem hlt⟩
        exact ⟨⟨file, line, failing.opcode⟩, ⟨failing, hget, rfl⟩, index, hnearest⟩
    · rw [locate_succ_eq_some_iff]
      exact ⟨fun h => ⟨Nat.le_add_left 1 position, h⟩, fun h => h.2⟩

/-- A word without a place, one with a line zero and one with an empty file name borrow the place of
    the last word before them. -/
example :
    let words : List SourceWord :=
      [⟨some "demo.scrypt", some 2, "OP_SWAP"⟩, ⟨some "demo.scrypt", some 3, "OP_DUP"⟩,
        ⟨none, none, "OP_ADD"⟩, ⟨some "demo.scrypt", some 0, "OP_1"⟩, ⟨some "", some 9, "OP_EQUAL"⟩]
    locate words 5 = some ⟨"demo.scrypt", 3, "OP_EQUAL"⟩ ∧ locate words 0 = none
      ∧ locate words 6 = none := by
  decide

end SourceWord

end ScriptAbi
