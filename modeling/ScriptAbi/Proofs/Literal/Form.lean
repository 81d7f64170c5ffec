import Mathlib.Data.Bool.AllAny
import ScriptAbi.Literal.Form
import ScriptAbi.Proofs.Outcome
import ScriptAbi.Proofs.Slot.Name

namespace ScriptAbi

/-!
# Literals as they are written

* `Numeral.text`, `Form.text`: the text of a numeral and of a form.
* `Numeral.IsValid`, `Form.IsValid`: there are digits where there must be, and they are digits.
* `readNumeral_eq_ok_iff`: a numeral is read as far as its digits go (`Numeral.EndsBefore`).
* `read_cases`: the first characters of a text decide how it is read.
* `read_eq_ok_iff`: a form is read from its own text and from no other.
-/

/-! ### Numerals -/

namespace Numeral

/-- The text of a numeral. -/
def text : Numeral → List Char
  | .decimal false digits => digits
  | .decimal true digits => '-' :: digits
  | .hexadecimal digits => '0' :: 'x' :: digits

/-- The numeral has digits, all of its base. -/
def IsValid : Numeral → Prop
  | .decimal _ digits => digits ≠ [] ∧ ∀ c ∈ digits, c.isDigit = true
  | .hexadecimal digits => digits ≠ [] ∧ ∀ c ∈ digits, Hex.isDigit c = true

/-- The numeral does not go on in the text after it. A zero with an `x` after it is the start of a
    hexadecimal numeral. -/
def EndsBefore (rest : List Char) : Numeral → Prop
  | .decimal negative digits =>
    (∀ c ∈ rest.head?, c.isDigit = false)
      ∧ (negative = false → digits = ['0'] → rest.head? ≠ some 'x')
  | .hexadecimal _ => ∀ c ∈ rest.head?, Hex.isDigit c = false

theorem endsBefore_nil (numeral : Numeral) : numeral.EndsBefore [] := by
  cases numeral <;> simp [EndsBefore]

/-- A number ends before a parenthesis. -/
theorem endsBefore_parenthesis (numeral : Numeral) (rest : List Char) :
    numeral.EndsBefore (')' :: rest) := by
  cases numeral with
  | decimal => simp [EndsBefore]
  | hexadecimal =>
    simp only [EndsBefore, List.head?_cons, Option.mem_some_iff, forall_eq']
    decide

end Numeral

namespace Form

/-- What follows a word is what the text is made of after it. -/
theorem after?_eq_some_iff {word : String} {cs rest : List Char} :
    after? word cs = some rest ↔ cs = word.toList ++ rest := by
  rw [after?, List.isPrefixOf?_eq_some_iff_append_eq, eq_comm]

theorem after?_eq_none_iff {word : String} {cs : List Char} :
    after? word cs = none ↔ ∀ rest, cs ≠ word.toList ++ rest := by
  simp only [Option.eq_none_iff_forall_ne_some, ne_eq, after?_eq_some_iff]

/-- No decimal numeral that ends where it does starts as a hexadecimal one. -/
theorem after?_hex_eq_none {digits rest : List Char} (hdigits : ∀ c ∈ digits, c.isDigit = true)
    (hne : digits ≠ []) (hrest : digits = ['0'] → rest.head? ≠ some 'x') :
    after? "0x" (digits ++ rest) = none := by
  rw [after?_eq_none_iff]
  intro body heq
  obtain ⟨first, digits, rfl⟩ := List.exists_cons_of_ne_nil hne
  obtain ⟨rfl, htail⟩ : first = '0' ∧ digits ++ rest = 'x' :: body := List.cons.inj heq
  cases digits with
  | nil => exact hrest rfl (by simp [show rest = 'x' :: body from htail])
  | cons second digits =>
    have hx : second = 'x' := (List.cons.inj htail).1
    have hdigit := hdigits second (by simp)
    rw [hx] at hdigit
    contradiction

/-- A run of digits is taken whole, if there are any, and the text goes on after it. -/
theorem exists_digits_of_takeWhile {p : Char → Bool} {body rest : List Char} {failure : Failure}
    {f : List Char → Numeral} {numeral : Numeral}
    (h : (if (body.takeWhile p).isEmpty then Except.error failure
      else .ok (f (body.takeWhile p), body.dropWhile p)) = .ok (numeral, rest)) :
    ∃ digits, (digits ≠ [] ∧ ∀ c ∈ digits, p c = true) ∧ numeral = f digits
      ∧ (∀ c ∈ rest.head?, p c = false) ∧ body = digits ++ rest := by
  split at h
  · contradiction
  · rename_i hne
    cases h
    exact ⟨body.takeWhile p, ⟨by simpa using hne, fun c hc => List.mem_takeWhile_imp hc⟩, rfl,
      Text.eq_false_of_head?_dropWhile, List.takeWhile_append_dropWhile.symm⟩

/-- What is read as a numeral is one, and the text goes on after it. -/
theorem isValid_of_readNumeral {start : Nat} {cs rest : List Char} {numeral : Numeral}
    (h : readNumeral start cs = .ok (numeral, rest)) :
    numeral.IsValid ∧ numeral.EndsBefore rest ∧ cs = numeral.text ++ rest := by
  unfold readNumeral at h
  split at h
  · rename_i body hbody
    obtain ⟨digits, hvalid, rfl, hrest, rfl⟩ := exists_digits_of_takeWhile (f := .hexadecimal) h
    exact ⟨hvalid, hrest, after?_eq_some_iff.1 hbody⟩
  · rename_i hnone
    by_cases hsign : cs.head? = some '-'
    · obtain ⟨body, rfl⟩ := List.head?_eq_some_iff.1 hsign
      simp only [List.head?_cons, decide_true, if_true, List.drop_one, List.tail_cons] at h
      obtain ⟨digits, hvalid, rfl, hrest, rfl⟩ := exists_digits_of_takeWhile (f := .decimal true) h
      exact ⟨hvalid, ⟨hrest, fun hfalse => Bool.noConfusion hfalse⟩, rfl⟩
    · simp only [hsign, decide_false, if_false] at h
      obtain ⟨digits, hvalid, rfl, hrest, rfl⟩ := exists_digits_of_takeWhile (f := .decimal false) h
      -- a lone zero does not stand before an `x`, as the text would have started with `0x`
      refine ⟨hvalid, ⟨hrest, fun _ hzero hx => ?_⟩, rfl⟩
      obtain ⟨body, rfl⟩ := List.head?_eq_some_iff.1 hx
      subst hzero
      exact after?_eq_none_iff.1 hnone body rfl

/-- **A numeral is read** from its text, where this does not go on with digits. -/
theorem readNumeral_text {numeral : Numeral} (h : numeral.IsValid) {rest : List Char}
    (hrest : numeral.EndsBefore rest) (start : Nat) :
    readNumeral start (numeral.text ++ rest) = .ok (numeral, rest) := by
  cases numeral with
  | decimal negative digits =>
    obtain ⟨hne, hdigits⟩ := h
    obtain ⟨hstop, hzero⟩ := hrest
    obtain ⟨htake, hdrop⟩ := Text.takeWhile_append_of_head? hdigits hstop
    cases negative with
    | false =>
      -- the first character is a digit, and so no sign
      have hsign : (digits ++ rest).head? ≠ some '-' := by
        obtain ⟨first, digits, rfl⟩ := List.exists_cons_of_ne_nil hne
        intro hhead
        have hdigit := hdigits first (by simp)
        rw [show first = '-' by simpa using hhead] at hdigit
        contradiction
      rw [Numeral.text, readNumeral, after?_hex_eq_none hdigits hne (hzero rfl)]
      simp only [hsign, if_false, htake, hdrop, List.isEmpty_eq_false_iff.2 hne,
        Bool.false_eq_true, decide_false]
    | true =>
      have hhex : after? "0x" ('-' :: (digits ++ rest)) = none := rfl
      simp [readNumeral, Numeral.text, hhex, htake, hdrop, hne]
  | hexadecimal digits =>
    obtain ⟨hne, hdigits⟩ := h
    obtain ⟨htake, hdrop⟩ := Text.takeWhile_append_of_head? hdigits hrest
    have hbody : after? "0x" ('0' :: 'x' :: (digits ++ rest)) = some (digits ++ rest) := rfl
    simp [readNumeral, Numeral.text, hbody, htake, hdrop, hne]

/-- **A numeral is read as far as it goes**, whatever the text goes on with. -/
theorem readNumeral_eq_ok_iff {start : Nat} {cs rest : List Char} {numeral : Numeral} :
    readNumeral start cs = .ok (numeral, rest) ↔
      numeral.IsValid ∧ numeral.EndsBefore rest ∧ cs = numeral.text ++ rest := by
  constructor
  · exact isValid_of_readNumeral
  · rintro ⟨hvalid, hrest, rfl⟩
    exact readNumeral_text hvalid hrest start

/-! ### Byte strings -/

/-- A byte string is read from the digits between its quotes. -/
theorem readQuoted_eq_ok_iff {start : Nat} {cs digits rest : List Char} :
    readQuoted start cs = .ok (digits, rest) ↔
      (∀ c ∈ digits, Hex.isDigit c = true) ∧ cs = 'b' :: '\'' :: (digits ++ '\'' :: rest) := by
  constructor
  · intro h
    unfold readQuoted at h
    split at h
    · contradiction
    · rename_i body hbody
      split at h
      · rename_i rest' hclose
        cases h
        -- the digits that were taken are all that stands before the quote
        refine ⟨fun c hc => List.mem_takeWhile_imp hc, ?_⟩
        rw [← hclose, List.takeWhile_append_dropWhile]
        exact after?_eq_some_iff.1 hbody
      · contradiction
  · rintro ⟨hdigits, rfl⟩
    have hbody : after? "b'" ('b' :: '\'' :: (digits ++ '\'' :: rest))
        = some (digits ++ '\'' :: rest) := rfl
    have hstop : ∀ c ∈ ('\'' :: rest).head?, Hex.isDigit c = false := by simp; decide
    obtain ⟨htake, hdrop⟩ := Text.takeWhile_append_of_head? hdigits hstop
    simp [readQuoted, hbody, htake, hdrop]

/-! ### Forms -/

/-- The text of a form. -/
def text : Form → List Char
  | .bool true => "true".toList
  | .bool false => "false".toList
  | .int numeral => numeral.text
  | .privKey numeral => "PrivKey(".toList ++ (numeral.text ++ [')'])
  | .bytes digits => 'b' :: '\'' :: (digits ++ ['\''])
  | .tagged kind digits => kind.name.toList ++ '(' :: 'b' :: '\'' :: (digits ++ ['\'', ')'])

/-- The form has the digits that it needs, and is of a kind that is written so. -/
def IsValid : Form → Prop
  | .bool _ => True
  | .int numeral => numeral.IsValid
  | .privKey numeral => numeral.IsValid
  | .bytes digits => ∀ c ∈ digits, Hex.isDigit c = true
  | .tagged kind digits => kind ∈ taggedKinds ∧ ∀ c ∈ digits, Hex.isDigit c = true

/-- A literal is read iff nothing is left after it. -/
theorem finish_eq_ok_iff {form result : Form} {position : Nat} {expected : List String}
    {rest : List Char} :
    finish form position expected rest = .ok result ↔ rest = [] ∧ result = form := by
  cases rest <;> simp [finish, eq_comm]

/-- A truth value is read iff its word is all there is. -/
theorem readBool_eq_ok_iff {b : Bool} {width : Nat} {rest : List Char} {form : Form} :
    readBool b width rest = .ok form ↔ rest = [] ∧ form = .bool b := by
  unfold readBool
  split
  · rename_i hgoes
    constructor
    · intro h
      cases h
    · rintro ⟨rfl, -⟩
      simp at hgoes
  · exact finish_eq_ok_iff

/-- A key is read iff a number and the closing parenthesis are all there is. -/
theorem readPrivKey_eq_ok_iff {start : Nat} {cs : List Char} {form : Form} :
    readPrivKey start cs = .ok form ↔
      ∃ numeral : Numeral, numeral.IsValid ∧ cs = numeral.text ++ [')']
        ∧ form = .privKey numeral := by
  rw [readPrivKey, bind_eq_ok_iff]
  constructor
  · rintro ⟨⟨numeral, rest⟩, hnumeral, h⟩
    obtain ⟨hvalid, -, rfl⟩ := readNumeral_eq_ok_iff.1 hnumeral
    dsimp only at h
    -- the parenthesis closes the text
    split at h
    · obtain ⟨rfl, rfl⟩ := finish_eq_ok_iff.1 h
      exact ⟨numeral, hvalid, rfl, rfl⟩
    · cases h
  · rintro ⟨numeral, hvalid, rfl, rfl⟩
    have hnumeral : readNumeral start (numeral.text ++ [')']) = .ok (numeral, [')']) :=
      readNumeral_eq_ok_iff.2 ⟨hvalid, numeral.endsBefore_parenthesis [], rfl⟩
    exact ⟨_, hnumeral, rfl⟩

/-- A constructor is read iff a byte string in parentheses is all there is. -/
theorem readTagged_eq_ok_iff {kind : Kind} {cs : List Char} {form : Form} :
    readTagged kind cs = .ok form ↔
      ∃ digits, (∀ c ∈ digits, Hex.isDigit c = true)
        ∧ cs = '(' :: 'b' :: '\'' :: (digits ++ ['\'', ')']) ∧ form = .tagged kind digits := by
  unfold readTagged
  dsimp only
  split
  · rename_i body
    rw [bind_eq_ok_iff]
    constructor
    · rintro ⟨⟨digits, rest⟩, hquoted, h⟩
      obtain ⟨hdigits, rfl⟩ := readQuoted_eq_ok_iff.1 hquoted
      dsimp only at h
      split at h
      · obtain ⟨rfl, rfl⟩ := finish_eq_ok_iff.1 h
        exact ⟨digits, hdigits, rfl, rfl⟩
      · cases h
    · rintro ⟨digits, hdigits, heq, rfl⟩
      cases heq
      exact ⟨_, readQuoted_eq_ok_iff.2 ⟨hdigits, rfl⟩, rfl⟩
  · -- with no opening parenthesis neither side holds
    rename_i hopen
    constructor
    · intro h
      cases h
    · rintro ⟨digits, -, rfl, -⟩
      exact absurd rfl (hopen _)

/-- A byte string is read iff digits in quotes are all there is. -/
theorem readBytes_eq_ok_iff {cs : List Char} {form : Form} :
    readBytes cs = .ok form ↔
      ∃ digits, (∀ c ∈ digits, Hex.isDigit c = true) ∧ cs = 'b' :: '\'' :: (digits ++ ['\''])
        ∧ form = .bytes digits := by
  rw [readBytes, bind_eq_ok_iff]
  constructor
  · rintro ⟨⟨digits, rest⟩, hquoted, h⟩
    obtain ⟨hdigits, hcs⟩ := readQuoted_eq_ok_iff.1 hquoted
    obtain ⟨rfl, rfl⟩ := finish_eq_ok_iff.1 h
    exact ⟨digits, hdigits, hcs, rfl⟩
  · rintro ⟨digits, hdigits, rfl, rfl⟩
    exact ⟨_, readQuoted_eq_ok_iff.2 ⟨hdigits, rfl⟩, rfl⟩

/-- A number is read iff it is all there is. -/
theorem readInt_eq_ok_iff {cs : List Char} {form : Form} :
    readInt cs = .ok form ↔
      ∃ numeral : Numeral, numeral.IsValid ∧ cs = numeral.text ∧ form = .int numeral := by
  unfold readInt
  constructor
  · intro h
    split at h
    · rename_i numeral rest hnumeral
      obtain ⟨hvalid, -, hcs⟩ := readNumeral_eq_ok_iff.1 hnumeral
      obtain ⟨rfl, rfl⟩ := finish_eq_ok_iff.1 h
      exact ⟨numeral, hvalid, by simpa using hcs, rfl⟩
    · -- whatever is expected, it is an error
      split_ifs at h
  · rintro ⟨numeral, hvalid, rfl, rfl⟩
    have hnumeral : readNumeral 0 numeral.text = .ok (numeral, []) :=
      readNumeral_eq_ok_iff.2 ⟨hvalid, numeral.endsBefore_nil, by simp⟩
    rw [hnumeral]
    rfl

/-- The kind whose name a text starts with is one that is written with a constructor. -/
theorem mem_of_taggedKind? {cs rest : List Char} {kind : Kind}
    (h : taggedKind? cs = some (kind, rest)) :
    kind ∈ taggedKinds ∧ cs = kind.name.toList ++ rest := by
  obtain ⟨found, hmem, hfound⟩ := List.exists_of_findSome?_eq_some h
  obtain ⟨rest', hrest, heq⟩ := Option.map_eq_some_iff.1 hfound
  cases heq
  exact ⟨hmem, after?_eq_some_iff.1 hrest⟩

/-- **Each kind is told by its name and the parenthesis after it**: where its text is read, no name
    that comes before it in the list of kinds stands there. -/
theorem read_kind {kind : Kind} (h : kind ∈ taggedKinds) (rest : List Char) :
    read (kind.name.toList ++ '(' :: rest) = readTagged kind ('(' :: rest) := by
  simp only [taggedKinds, List.mem_cons, List.not_mem_nil, or_false] at h
  rcases h with rfl | rfl | rfl | rfl | rfl | rfl | rfl | rfl <;> rfl

/-- The words that literals start with, other than numbers. -/
def openingWords : List String :=
  "true" :: "false" :: "PrivKey(" :: "b'" :: taggedKinds.map Kind.name

/-- The name of a kind opens its literals. -/
theorem mem_openingWords_of_kind {kind : Kind} (h : kind ∈ taggedKinds) :
    kind.name ∈ openingWords := by
  simp only [openingWords, List.mem_cons, List.mem_map]
  exact .inr (.inr (.inr (.inr ⟨kind, h, rfl⟩)))

/-- **A text that starts with no such word** is read as a number. -/
theorem read_eq_readInt_of_no_word {cs : List Char}
    (h : ∀ word ∈ openingWords, after? word cs = none) : read cs = readInt cs := by
  have hkind : taggedKind? cs = none := by
    rw [taggedKind?, List.findSome?_eq_none_iff]
    intro kind hmem
    rw [h kind.name (mem_openingWords_of_kind hmem), Option.map_none]
  simp only [read, hkind, h "true" (by simp [openingWords]), h "false" (by simp [openingWords]),
    h "PrivKey(" (by simp [openingWords]), h "b'" (by simp [openingWords]), Option.isSome_none,
    Bool.false_eq_true, if_false]

/-- The characters that they start with. -/
def wordHeads : List Char := ['t', 'f', 'P', 'S', 'R', 'O', 'b']

/-- Each of the words starts with one of these characters. -/
theorem head?_of_mem_openingWords {word : String} (h : word ∈ openingWords) :
    ∃ d ∈ wordHeads, word.toList.head? = some d := by
  have hheads : ∀ word ∈ openingWords,
      (wordHeads.any fun d => word.toList.head? = some d) = true := by
    decide
  exact List.any_iff_exists_prop.1 (hheads word h)

/-- A text that starts with another character is read as a number. -/
theorem read_eq_readInt {c : Char} (hc : c ∉ wordHeads) (rest : List Char) :
    read (c :: rest) = readInt (c :: rest) := by
  refine read_eq_readInt_of_no_word fun word hword => ?_
  obtain ⟨d, hd, hhead⟩ := head?_of_mem_openingWords hword
  obtain ⟨tail, htail⟩ := List.head?_eq_some_iff.1 hhead
  rw [after?_eq_none_iff]
  intro rest' heq
  rw [htail] at heq
  exact hc ((List.cons.inj heq).1 ▸ hd)

/-- No number starts with one of them. -/
theorem head_not_mem_wordHeads {numeral : Numeral} (h : numeral.IsValid) :
    ∃ c rest, numeral.text = c :: rest ∧ c ∉ wordHeads := by
  cases numeral with
  | decimal negative digits =>
    cases negative with
    | false =>
      obtain ⟨first, digits, rfl⟩ := List.exists_cons_of_ne_nil h.1
      refine ⟨first, digits, rfl, fun hmem => ?_⟩
      have hletters : ∀ c ∈ wordHeads, ¬ c.isDigit = true := by simp [wordHeads]
      exact hletters first hmem (h.2 first (by simp))
    | true => exact ⟨'-', digits, rfl, by decide⟩
  | hexadecimal digits => exact ⟨'0', 'x' :: digits, rfl, by decide⟩

/-- **A form is read** from its own text. -/
theorem read_text {form : Form} (h : form.IsValid) : read form.text = .ok form := by
  -- the first characters tell the reader
  cases form with
  | bool b => cases b <;> rfl
  | int numeral =>
    obtain ⟨c, rest, htext, hc⟩ := head_not_mem_wordHeads h
    show read numeral.text = _
    rw [htext, read_eq_readInt hc, ← htext]
    exact readInt_eq_ok_iff.2 ⟨numeral, h, rfl, rfl⟩
  | privKey numeral =>
    show readPrivKey 8 (numeral.text ++ [')']) = _
    exact readPrivKey_eq_ok_iff.2 ⟨numeral, h, rfl, rfl⟩
  | bytes digits =>
    show readBytes ('b' :: '\'' :: (digits ++ ['\''])) = _
    exact readBytes_eq_ok_iff.2 ⟨digits, h, rfl, rfl⟩
  | tagged kind digits =>
    show read (kind.name.toList ++ '(' :: 'b' :: '\'' :: (digits ++ ['\'', ')'])) = _
    rw [read_kind h.1]
    exact readTagged_eq_ok_iff.2 ⟨digits, h.2, rfl, rfl⟩

/-- The text of a truth value, with what follows it, is read as this one. -/
theorem read_bool (b : Bool) (rest : List Char) :
    read ((Form.bool b).text ++ rest) = readBool b (Form.bool b).text.length rest := by
  cases b <;> rfl

/-- **The first characters of a text decide** how it is read. -/
theorem read_cases (cs : List Char) :
    (∃ b rest, cs = (Form.bool b).text ++ rest)
      ∨ (∃ rest, cs = "PrivKey(".toList ++ rest ∧ read cs = readPrivKey 8 rest)
      ∨ (∃ kind rest, taggedKind? cs = some (kind, rest) ∧ read cs = readTagged kind rest)
      ∨ (∃ rest, cs = "b'".toList ++ rest ∧ read cs = readBytes cs)
      ∨ (∀ word ∈ openingWords, after? word cs = none) ∧ read cs = readInt cs := by
  -- the words are tried in the order in which the reader tries them
  cases htrue : after? "true" cs with
  | some rest => exact .inl ⟨true, rest, after?_eq_some_iff.1 htrue⟩
  | none =>
  cases hfalse : after? "false" cs with
  | some rest => exact .inl ⟨false, rest, after?_eq_some_iff.1 hfalse⟩
  | none =>
  cases hprivKey : after? "PrivKey(" cs with
  | some rest =>
    exact .inr (.inl ⟨rest, after?_eq_some_iff.1 hprivKey, by simp [read, htrue, hfalse, hprivKey]⟩)
  | none =>
  cases hkind : taggedKind? cs with
  | some found =>
    exact .inr (.inr (.inl ⟨found.1, found.2, rfl, by
      simp [read, htrue, hfalse, hprivKey, hkind]⟩))
  | none =>
  cases hbytes : after? "b'" cs with
  | some rest =>
    exact .inr (.inr (.inr (.inl ⟨rest, after?_eq_some_iff.1 hbytes, by
      simp [read, htrue, hfalse, hprivKey, hkind, hbytes]⟩)))
  | none =>
    have hnone : ∀ word ∈ openingWords, after? word cs = none := by
      intro word hword
      simp only [openingWords, List.mem_cons, List.mem_map] at hword
      rcases hword with rfl | rfl | rfl | rfl | ⟨kind, hmem, rfl⟩
      · exact htrue
      · exact hfalse
      · exact hprivKey
      · exact hbytes
      · exact Option.map_eq_none_iff.1 (List.findSome?_eq_none_iff.1 hkind kind hmem)
    exact .inr (.inr (.inr (.inr ⟨hnone, read_eq_readInt_of_no_word hnone⟩)))

/-- What is read is a form, and the text is its own. -/
theorem isValid_of_read {cs : List Char} {form : Form} (h : read cs = .ok form) :
    form.IsValid ∧ cs = form.text := by
  rcases read_cases cs with ⟨b, rest, rfl⟩ | ⟨rest, rfl, hread⟩ | ⟨kind, rest, hkind, hread⟩
    | ⟨rest, rfl, hread⟩ | ⟨-, hread⟩
  · -- one case for each reader
    rw [read_bool] at h
    obtain ⟨rfl, rfl⟩ := readBool_eq_ok_iff.1 h
    exact ⟨trivial, List.append_nil _⟩
  · obtain ⟨numeral, hvalid, rfl, rfl⟩ := readPrivKey_eq_ok_iff.1 (hread.symm.trans h)
    exact ⟨hvalid, rfl⟩
  · obtain ⟨hmem, rfl⟩ := mem_of_taggedKind? hkind
    obtain ⟨digits, hdigits, rfl, rfl⟩ := readTagged_eq_ok_iff.1 (hread.symm.trans h)
    exact ⟨⟨hmem, hdigits⟩, rfl⟩
  · obtain ⟨digits, hdigits, hcs, rfl⟩ := readBytes_eq_ok_iff.1 (hread.symm.trans h)
    exact ⟨hdigits, hcs⟩
  · obtain ⟨numeral, hvalid, hcs, rfl⟩ := readInt_eq_ok_iff.1 (hread.symm.trans h)
    exact ⟨hvalid, hcs⟩

/-- **A form is read from its own text**, and from no other. -/
theorem read_eq_ok_iff {cs : List Char} {form : Form} :
    read cs = .ok form ↔ form.IsValid ∧ cs = form.text := by
  constructor
  · exact isValid_of_read
  · rintro ⟨hvalid, rfl⟩
    exact read_text hvalid

end Form

end ScriptAbi
