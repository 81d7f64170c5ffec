import ScriptAbi.Proofs.Literal.Form

namespace ScriptAbi

/-!
# Where texts stop being literals

The first characters of a text decide what literal it is to be, and each part of it is read on from
there. So a text that is no literal breaks off at one place.

* `Numeral.BreaksOff`, `Form.QuotedBreaksOff`, `Form.BreaksOff`: the ways in which a number, a byte
  string between quotes and a literal break off, with the failure that is reported.
* `readNumeral_eq_error_iff`, `readQuoted_eq_error_iff`: how a part of a literal fails.
* `read_eq_error_iff`: a text is not read iff it breaks off, and the failure is that of the place.
-/

/-! ### Parts -/

/-- A text with no number at the front, and the tokens that could stand where it breaks off. -/
inductive Numeral.BreaksOff : List Char → List String → Prop
  | hexadecimal {rest : List Char} (hrest : ∀ c ∈ rest.head?, Hex.isDigit c = false) :
      BreaksOff ('0' :: 'x' :: rest) hexTokens
  | sign {rest : List Char} (hrest : ∀ c ∈ rest.head?, c.isDigit = false) :
      BreaksOff ('-' :: rest) digitTokens
  | start {cs : List Char} (hhead : ∀ c ∈ cs.head?, c ≠ '-' ∧ c.isDigit = false) :
      BreaksOff cs ["-", "0..9", "0x"]

namespace Form

/-- A text with no byte string between quotes at the front. -/
inductive QuotedBreaksOff : List Char → List String → Prop
  | start {cs : List Char} (hopen : after? "b'" cs = none) : QuotedBreaksOff cs ["b'"]
  | inside {digits rest : List Char} (hdigits : ∀ c ∈ digits, Hex.isDigit c = true)
      (hrest : ∀ c ∈ rest.head?, c ≠ '\'' ∧ Hex.isDigit c = false) :
      QuotedBreaksOff ("b'".toList ++ (digits ++ rest)) ("'" :: Numeral.hexTokens)

end Form

namespace Numeral

/-- A text with nothing at the front that a number starts with. -/
theorem after?_hex_eq_none_of_start {cs : List Char}
    (hhead : ∀ c ∈ cs.head?, c ≠ '-' ∧ c.isDigit = false) :
    Form.after? "0x" cs = none ∧ cs.head? ≠ some '-' := by
  refine ⟨?_, fun hsign => (hhead '-' hsign).1 rfl⟩
  rw [Form.after?_eq_none_iff]
  rintro body rfl
  exact absurd (hhead '0' rfl).2 (by decide)

end Numeral

namespace Form

/-- Nothing is taken iff the first character, if there is one, is not to be taken. -/
theorem isEmpty_takeWhile_iff {p : Char → Bool} {cs : List Char} :
    (cs.takeWhile p).isEmpty = true ↔ ∀ c ∈ cs.head?, p c = false := by
  cases cs with
  | nil => simp
  | cons c rest => cases hc : p c <;> simp [hc]

/-- **Numbers** are not read where they break off. -/
theorem readNumeral_eq_error_iff {start : Nat} {cs : List Char} {failure : Failure} :
    readNumeral start cs = .error failure ↔
      ∃ tokens, Numeral.BreaksOff cs tokens ∧ failure = ⟨start, tokens⟩ := by
  constructor
  · intro h
    unfold readNumeral at h
    split at h
    · rename_i body hbody
      dsimp only at h
      split at h
      · -- no digit after the `x`
        rename_i hempty
        cases h
        rw [after?_eq_some_iff.1 hbody]
        exact ⟨_, .hexadecimal (isEmpty_takeWhile_iff.1 hempty), rfl⟩
      · cases h
    · by_cases hsign : cs.head? = some '-'
      · obtain ⟨body, rfl⟩ := List.head?_eq_some_iff.1 hsign
        simp only [List.head?_cons, decide_true, if_true, List.drop_one, List.tail_cons] at h
        split at h
        · -- no digit after the sign
          rename_i hempty
          cases h
          exact ⟨_, .sign (isEmpty_takeWhile_iff.1 hempty), rfl⟩
        · cases h
      · simp only [hsign, decide_false, if_false] at h
        split at h
        · -- neither a sign nor a digit at the start
          rename_i hempty
          cases h
          refine ⟨_, .start fun c hc => ⟨?_, isEmpty_takeWhile_iff.1 hempty c hc⟩, rfl⟩
          rintro rfl
          exact hsign hc
        · cases h
  · rintro ⟨tokens, h, rfl⟩
    cases h with
    -- the reader asks for `0x` first, so that each case says whether it stands there
    | @hexadecimal rest hrest =>
      have hbody : after? "0x" ('0' :: 'x' :: rest) = some rest := rfl
      simp [readNumeral, hbody, isEmpty_takeWhile_iff.2 hrest]
    | @sign rest hrest =>
      have hbody : after? "0x" ('-' :: rest) = none := rfl
      simp [readNumeral, hbody, isEmpty_takeWhile_iff.2 hrest]
    | start hhead =>
      obtain ⟨hbody, hsign⟩ := Numeral.after?_hex_eq_none_of_start hhead
      have hempty := isEmpty_takeWhile_iff.2 fun c hc => (hhead c hc).2
      simp [readNumeral, hbody, hsign, hempty]

/-- **Byte strings** are not read where they break off. -/
theorem readQuoted_eq_error_iff {start : Nat} {cs : List Char} {failure : Failure} :
    readQuoted start cs = .error failure ↔
      ∃ tokens, QuotedBreaksOff cs tokens ∧ failure = ⟨start, tokens⟩ := by
  constructor
  · intro h
    unfold readQuoted at h
    split at h
    · rename_i hnone
      cases h
      exact ⟨_, .start hnone, rfl⟩
    · rename_i body hbody
      split at h
      · cases h
      · rename_i hclose
        cases h
        -- the digits are those that were taken, and what is left starts neither with a quote nor
        -- with one more digit
        rw [after?_eq_some_iff.1 hbody,
          ← List.takeWhile_append_dropWhile (p := Hex.isDigit) (l := body)]
        refine ⟨_, .inside (fun c hc => List.mem_takeWhile_imp hc) fun c hc => ⟨?_, ?_⟩, rfl⟩
        · rintro rfl
          obtain ⟨rest, hrest⟩ := List.head?_eq_some_iff.1 hc
          exact hclose rest hrest
        · exact Text.eq_false_of_head?_dropWhile c hc
  · rintro ⟨tokens, h, rfl⟩
    cases h with
    | start hopen => simp [readQuoted, hopen]
    | @inside digits rest hdigits hrest =>
      have hbody : after? "b'" ("b'".toList ++ (digits ++ rest)) = some (digits ++ rest) := rfl
      obtain ⟨-, hdrop⟩ := Text.takeWhile_append_of_head? hdigits fun c hc => (hrest c hc).2
      rw [readQuoted, hbody]
      dsimp only
      rw [hdrop]
      split
      · exact absurd rfl (hrest '\'' rfl).1
      · rfl

/-! ### Literals -/

/-- The tokens that would make a literal longer. -/
def moreTokens : Form → List String
  | .int numeral => numeral.moreTokens
  | _ => []

/-- The literal does not go on in the text after it. -/
def EndsBefore (rest : List Char) : Form → Prop
  | .bool _ => ∀ c ∈ rest.head?, c.isAlphanum = false
  | .int numeral => numeral.EndsBefore rest
  | _ => True

/-- **A text that is no literal**, with the failure that is reported of it. -/
inductive BreaksOff : List Char → Failure → Prop
  /-- The text goes on after a literal. -/
  | after {form : Form} {rest : List Char} (hvalid : form.IsValid) (hends : form.EndsBefore rest)
      (hrest : rest ≠ []) : BreaksOff (form.text ++ rest) ⟨form.text.length, form.moreTokens⟩
  /-- The word of a truth value is only the start of a word. -/
  | bool {b : Bool} {c : Char} {rest : List Char} (hc : c.isAlphanum = true) :
      BreaksOff ((Form.bool b).text ++ c :: rest) ⟨0, []⟩
  | hexadecimal {rest : List Char} (hrest : ∀ c ∈ rest.head?, Hex.isDigit c = false) :
      BreaksOff ('0' :: 'x' :: rest) ⟨1, Numeral.hexTokens⟩
  | sign {rest : List Char} (hrest : ∀ c ∈ rest.head?, c.isDigit = false) :
      BreaksOff ('-' :: rest) ⟨0, Numeral.digitTokens⟩
  /-- Nothing that a literal starts with stands at the front. -/
  | start {cs : List Char} (hwords : ∀ word ∈ openingWords, after? word cs = none)
      (hhead : ∀ c ∈ cs.head?, c ≠ '-' ∧ c.isDigit = false) : BreaksOff cs ⟨0, openingTokens⟩
  | privKey {rest : List Char} {tokens : List String} (hrest : Numeral.BreaksOff rest tokens) :
      BreaksOff ("PrivKey(".toList ++ rest) ⟨8, tokens⟩
  | privKeyOpen {numeral : Numeral} {rest : List Char} (hvalid : numeral.IsValid)
      (hends : numeral.EndsBefore rest) (hclose : rest.head? ≠ some ')') :
      BreaksOff ("PrivKey(".toList ++ (numeral.text ++ rest)) ⟨0, ")" :: numeral.moreTokens⟩
  | bytes {digits rest : List Char} (hdigits : ∀ c ∈ digits, Hex.isDigit c = true)
      (hrest : ∀ c ∈ rest.head?, c ≠ '\'' ∧ Hex.isDigit c = false) :
      BreaksOff ("b'".toList ++ (digits ++ rest)) ⟨0, "'" :: Numeral.hexTokens⟩
  /-- The name of a kind has no parenthesis after it. -/
  | name {cs rest : List Char} {kind : Kind} (hkind : taggedKind? cs = some (kind, rest))
      (hopen : rest.head? ≠ some '(') : BreaksOff cs ⟨0, ["("]⟩
  | tagged {kind : Kind} {rest : List Char} {tokens : List String} (hkind : kind ∈ taggedKinds)
      (hrest : QuotedBreaksOff rest tokens) :
      BreaksOff (kind.name.toList ++ '(' :: rest) ⟨kind.name.length + 1, tokens⟩
  | taggedOpen {kind : Kind} {digits rest : List Char} (hkind : kind ∈ taggedKinds)
      (hdigits : ∀ c ∈ digits, Hex.isDigit c = true) (hclose : rest.head? ≠ some ')') :
      BreaksOff (kind.name.toList ++ '(' :: 'b' :: '\'' :: (digits ++ '\'' :: rest)) ⟨0, [")"]⟩

/-- A literal that is read fails at its end iff something is left. -/
theorem finish_eq_error_iff {form : Form} {position : Nat} {expected : List String}
    {rest : List Char} {failure : Failure} :
    finish form position expected rest = .error failure ↔
      rest ≠ [] ∧ failure = ⟨position, expected⟩ := by
  cases rest <;> simp [finish, @eq_comm _ failure]

/-! ### What is not read breaks off -/

/-! The text of a literal and its length, as the reader comes to them. -/

theorem text_privKey_append (numeral : Numeral) (rest : List Char) :
    (Form.privKey numeral).text ++ rest
      = "PrivKey(".toList ++ (numeral.text ++ ')' :: rest) := by
  show "PrivKey(".toList ++ (numeral.text ++ [')']) ++ rest = _
  simp only [List.append_assoc, List.cons_append, List.nil_append]

/-- The reader counts the word and then what it took of the rest. -/
theorem length_text_privKey (numeral : Numeral) (rest : List Char) :
    (Form.privKey numeral).text.length
      = 8 + ((numeral.text ++ ')' :: rest).length - rest.length) := by
  have hlength := congrArg List.length (text_privKey_append numeral rest)
  have hword : "PrivKey(".toList.length = 8 := rfl
  simp only [List.length_append, List.length_cons, hword] at hlength ⊢
  omega

theorem text_bytes_append (digits rest : List Char) :
    (Form.bytes digits).text ++ rest = "b'".toList ++ (digits ++ '\'' :: rest) := by
  show 'b' :: '\'' :: (digits ++ ['\'']) ++ rest = 'b' :: '\'' :: (digits ++ '\'' :: rest)
  simp only [List.append_assoc, List.cons_append, List.nil_append]

theorem text_tagged_append (kind : Kind) (digits rest : List Char) :
    (Form.tagged kind digits).text ++ rest
      = kind.name.toList ++ '(' :: 'b' :: '\'' :: (digits ++ '\'' :: ')' :: rest) := by
  show kind.name.toList ++ '(' :: 'b' :: '\'' :: (digits ++ ['\'', ')']) ++ rest = _
  simp only [List.append_assoc, List.cons_append, List.nil_append]

/-- The reader counts the name, the parenthesis and then what it took of the rest. -/
theorem length_text_tagged (kind : Kind) (digits rest : List Char) :
    (Form.tagged kind digits).text.length
      = kind.name.length + 1
        + (('b' :: '\'' :: (digits ++ '\'' :: ')' :: rest)).length - rest.length) := by
  have hlength := congrArg List.length (text_tagged_append kind digits rest)
  simp only [List.length_append, List.length_cons, String.length_toList] at hlength ⊢
  omega

/-- Where the reading of a truth value fails, the text breaks off: something is left. -/
theorem breaksOff_of_readBool {b : Bool} {rest : List Char} {failure : Failure}
    (h : readBool b (Form.bool b).text.length rest = .error failure) :
    BreaksOff ((Form.bool b).text ++ rest) failure := by
  unfold readBool at h
  split at h
  · -- the word goes on
    rename_i hgoes
    cases h
    cases rest with
    | nil => simp at hgoes
    | cons c rest => exact .bool (by simpa using hgoes)
  · -- the word ends, and something is left
    rename_i hstops
    obtain ⟨hrest, rfl⟩ := finish_eq_error_iff.1 h
    have hends : (Form.bool b).EndsBefore rest := by
      intro c hc
      simpa [Option.mem_def.1 hc] using hstops
    have hvalid : (Form.bool b).IsValid := trivial
    exact .after hvalid hends hrest

/-- Where the reading of a key fails, the text breaks off: in its number, before the parenthesis, or
    after it. -/
theorem breaksOff_of_readPrivKey {rest : List Char} {failure : Failure}
    (h : readPrivKey 8 rest = .error failure) :
    BreaksOff ("PrivKey(".toList ++ rest) failure := by
  rcases bind_eq_error_iff.1 h with hnumeral | ⟨⟨numeral, rest⟩, hnumeral, hclose⟩
  · -- in the number
    obtain ⟨tokens, hbreaks, rfl⟩ := readNumeral_eq_error_iff.1 hnumeral
    exact .privKey hbreaks
  · obtain ⟨hvalid, hends, rfl⟩ := readNumeral_eq_ok_iff.1 hnumeral
    dsimp only at hclose
    split at hclose
    · -- after the parenthesis
      rename_i rest
      obtain ⟨hrest, rfl⟩ := finish_eq_error_iff.1 hclose
      have hform : (Form.privKey numeral).IsValid := hvalid
      have hafter := BreaksOff.after hform trivial hrest
      rwa [text_privKey_append, length_text_privKey numeral rest] at hafter
    · -- before the parenthesis
      rename_i hopen
      cases hclose
      refine .privKeyOpen hvalid hends fun hhead => ?_
      obtain ⟨rest', rfl⟩ := List.head?_eq_some_iff.1 hhead
      exact hopen rest' rfl

/-- Where the reading of a constructor fails, the text breaks off: at one of its parentheses, in the
    byte string, or after it. -/
theorem breaksOff_of_readTagged {cs rest : List Char} {kind : Kind} {failure : Failure}
    (hkind : taggedKind? cs = some (kind, rest)) (h : readTagged kind rest = .error failure) :
    BreaksOff cs failure := by
  obtain ⟨hmem, hcs⟩ := mem_of_taggedKind? hkind
  unfold readTagged at h
  dsimp only at h
  split at h
  · rename_i body
    subst hcs
    rcases bind_eq_error_iff.1 h with hquoted | ⟨⟨digits, rest⟩, hquoted, hclose⟩
    · -- in the byte string
      obtain ⟨tokens, hbreaks, rfl⟩ := readQuoted_eq_error_iff.1 hquoted
      exact .tagged hmem hbreaks
    · obtain ⟨hdigits, rfl⟩ := readQuoted_eq_ok_iff.1 hquoted
      dsimp only at hclose
      split at hclose
      · -- after the parenthesis
        rename_i rest
        obtain ⟨hrest, rfl⟩ := finish_eq_error_iff.1 hclose
        have hform : (Form.tagged kind digits).IsValid := ⟨hmem, hdigits⟩
        have hafter := BreaksOff.after hform trivial hrest
        rwa [text_tagged_append, length_text_tagged kind digits rest] at hafter
      · -- before the closing parenthesis
        rename_i hopen
        cases hclose
        refine .taggedOpen hmem hdigits fun hhead => ?_
        obtain ⟨rest', rfl⟩ := List.head?_eq_some_iff.1 hhead
        exact hopen rest' rfl
  · -- before the opening one
    rename_i hopen
    cases h
    refine .name hkind fun hhead => ?_
    obtain ⟨rest', rfl⟩ := List.head?_eq_some_iff.1 hhead
    exact hopen rest' rfl

/-- Where the reading of a byte string fails, the text breaks off: in its digits or after them. -/
theorem breaksOff_of_readBytes {rest : List Char} {failure : Failure}
    (h : readBytes ("b'".toList ++ rest) = .error failure) :
    BreaksOff ("b'".toList ++ rest) failure := by
  rcases bind_eq_error_iff.1 h with hquoted | ⟨⟨digits, rest'⟩, hquoted, h⟩
  · obtain ⟨tokens, hbreaks, rfl⟩ := readQuoted_eq_error_iff.1 hquoted
    generalize hcs : "b'".toList ++ rest = cs at hbreaks
    cases hbreaks with
    -- the opening quote is there
    | start hopen => exact absurd hcs.symm (after?_eq_none_iff.1 hopen rest)
    | inside hdigits hrest => exact .bytes hdigits hrest
  · obtain ⟨hdigits, hcs⟩ := readQuoted_eq_ok_iff.1 hquoted
    obtain ⟨hrest, rfl⟩ := finish_eq_error_iff.1 h
    have hform : (Form.bytes digits).IsValid := hdigits
    have hafter := BreaksOff.after hform trivial hrest
    have htext : (Form.bytes digits).text ++ rest' = "b'".toList ++ rest :=
      (text_bytes_append digits rest').trans hcs.symm
    rw [← htext, List.length_append, Nat.add_sub_cancel]
    exact hafter

/-- Where the reading of a number fails, the text breaks off: before a digit that has to be there or
    after the last one. -/
theorem breaksOff_of_readInt {cs : List Char} {failure : Failure}
    (hwords : ∀ word ∈ openingWords, after? word cs = none) (h : readInt cs = .error failure) :
    BreaksOff cs failure := by
  unfold readInt at h
  split at h
  · -- a number, and something is left after it
    rename_i numeral rest hnumeral
    obtain ⟨hvalid, hends, rfl⟩ := readNumeral_eq_ok_iff.1 hnumeral
    obtain ⟨hrest, rfl⟩ := finish_eq_error_iff.1 h
    have hform : (Form.int numeral).IsValid := hvalid
    have hafter := BreaksOff.after hform hends hrest
    rw [List.length_append, Nat.add_sub_cancel]
    exact hafter
  · -- what is expected at the start depends on how the number breaks off
    rename_i failure' hnumeral
    obtain ⟨tokens, hbreaks, rfl⟩ := readNumeral_eq_error_iff.1 hnumeral
    cases hbreaks with
    | hexadecimal hrest =>
      cases h
      exact .hexadecimal hrest
    | sign hrest =>
      cases h
      exact .sign hrest
    | start hhead =>
      obtain ⟨hhex, hsign⟩ := Numeral.after?_hex_eq_none_of_start hhead
      rw [hhex, if_neg (by simp), if_neg hsign] at h
      cases h
      exact .start hwords hhead

/-- **What is not read breaks off**, and the failure says where. -/
theorem breaksOff_of_read {cs : List Char} {failure : Failure} (h : read cs = .error failure) :
    BreaksOff cs failure := by
  rcases read_cases cs with ⟨b, rest, rfl⟩ | ⟨rest, rfl, hread⟩ | ⟨kind, rest, hkind, hread⟩
    | ⟨rest, rfl, hread⟩ | ⟨hwords, hread⟩
  · exact breaksOff_of_readBool ((read_bool b rest).symm.trans h)
  · exact breaksOff_of_readPrivKey (hread.symm.trans h)
  · exact breaksOff_of_readTagged hkind (hread.symm.trans h)
  · exact breaksOff_of_readBytes (hread.symm.trans h)
  · exact breaksOff_of_readInt hwords (hread.symm.trans h)

/-! ### What breaks off is not read -/

/-- What is left after a literal is an error. -/
theorem finish_of_ne_nil {form : Form} {position : Nat} {expected : List String}
    {rest : List Char} (h : rest ≠ []) :
    finish form position expected rest = .error ⟨position, expected⟩ :=
  finish_eq_error_iff.2 ⟨h, rfl⟩

/-- A number that breaks off is not read. -/
theorem readNumeral_of_breaksOff {cs : List Char} {tokens : List String}
    (h : Numeral.BreaksOff cs tokens) (start : Nat) :
    readNumeral start cs = .error ⟨start, tokens⟩ :=
  readNumeral_eq_error_iff.2 ⟨tokens, h, rfl⟩

/-- A byte string that breaks off is not read. -/
theorem readQuoted_of_breaksOff {cs : List Char} {tokens : List String}
    (h : QuotedBreaksOff cs tokens) (start : Nat) :
    readQuoted start cs = .error ⟨start, tokens⟩ :=
  readQuoted_eq_error_iff.2 ⟨tokens, h, rfl⟩

/-- A text that starts with the name of a kind starts with no word of another literal. -/
theorem read_of_taggedKind? {cs rest : List Char} {kind : Kind}
    (h : taggedKind? cs = some (kind, rest)) : read cs = readTagged kind rest := by
  obtain ⟨hmem, rfl⟩ := mem_of_taggedKind? h
  have hother : after? "true" (kind.name.toList ++ rest) = none
      ∧ after? "false" (kind.name.toList ++ rest) = none
      ∧ after? "PrivKey(" (kind.name.toList ++ rest) = none := by
    simp only [taggedKinds, List.mem_cons, List.not_mem_nil, or_false] at hmem
    rcases hmem with rfl | rfl | rfl | rfl | rfl | rfl | rfl | rfl <;> exact ⟨rfl, rfl, rfl⟩
  simp only [read, hother, h]

/-- The text goes on after a literal. -/
theorem read_after {form : Form} {rest : List Char} (hvalid : form.IsValid)
    (hends : form.EndsBefore rest) (hrest : rest ≠ []) :
    read (form.text ++ rest) = .error ⟨form.text.length, form.moreTokens⟩ := by
  -- each reader takes the literal, and what is left is then an error
  cases form with
  | bool b =>
    have hstops : ¬ rest.head?.any Char.isAlphanum = true := by
      cases rest with
      | nil => simp
      | cons c rest => simpa using hends c rfl
    rw [read_bool, readBool, if_neg hstops, finish_of_ne_nil hrest]
    rfl
  | int numeral =>
    have hnumeral : readNumeral 0 (numeral.text ++ rest) = .ok (numeral, rest) :=
      readNumeral_text hvalid hends 0
    obtain ⟨c, cs, htext, hc⟩ := head_not_mem_wordHeads hvalid
    have hread : read (numeral.text ++ rest) = readInt (numeral.text ++ rest) := by
      rw [htext]
      exact read_eq_readInt hc (cs ++ rest)
    show read (numeral.text ++ rest) = _
    rw [hread, readInt, hnumeral]
    dsimp only
    rw [finish_of_ne_nil hrest, List.length_append, Nat.add_sub_cancel]
    rfl
  | privKey numeral =>
    have hnumeral := readNumeral_text hvalid (numeral.endsBefore_parenthesis rest) 8
    rw [text_privKey_append, length_text_privKey numeral rest]
    show readPrivKey 8 (numeral.text ++ ')' :: rest) = _
    exact bind_eq_error_iff.2 (.inr ⟨_, hnumeral, finish_of_ne_nil hrest⟩)
  | bytes digits =>
    have hquoted : readQuoted 0 ("b'".toList ++ (digits ++ '\'' :: rest)) = .ok (digits, rest) :=
      readQuoted_eq_ok_iff.2 ⟨hvalid, rfl⟩
    have hlength : (Form.bytes digits).text.length
        = ("b'".toList ++ (digits ++ '\'' :: rest)).length - rest.length := by
      rw [← text_bytes_append, List.length_append, Nat.add_sub_cancel]
    rw [text_bytes_append, hlength]
    show readBytes ("b'".toList ++ (digits ++ '\'' :: rest)) = _
    exact bind_eq_error_iff.2 (.inr ⟨_, hquoted, finish_of_ne_nil hrest⟩)
  | tagged kind digits =>
    have hquoted : readQuoted (kind.name.length + 1)
        ('b' :: '\'' :: (digits ++ '\'' :: ')' :: rest)) = .ok (digits, ')' :: rest) :=
      readQuoted_eq_ok_iff.2 ⟨hvalid.2, rfl⟩
    rw [text_tagged_append, length_text_tagged kind digits rest, read_kind hvalid.1]
    exact bind_eq_error_iff.2 (.inr ⟨_, hquoted, finish_of_ne_nil hrest⟩)

/-- **What breaks off is not read.** -/
theorem read_of_breaksOff {cs : List Char} {failure : Failure} (h : BreaksOff cs failure) :
    read cs = .error failure := by
  -- one case for each place: the reader that comes there, and the step of it that fails
  cases h with
  | after hvalid hends hrest => exact read_after hvalid hends hrest
  | bool hc => rw [read_bool, readBool, if_pos (by simpa using hc)]
  | hexadecimal hrest =>
    rw [read_eq_readInt (by decide), readInt, readNumeral_of_breaksOff (.hexadecimal hrest)]
    rfl
  | sign hrest =>
    rw [read_eq_readInt (by decide), readInt, readNumeral_of_breaksOff (.sign hrest)]
    rfl
  | start hwords hhead =>
    obtain ⟨hhex, hsign⟩ := Numeral.after?_hex_eq_none_of_start hhead
    rw [read_eq_readInt_of_no_word hwords, readInt, readNumeral_of_breaksOff (.start hhead)]
    simp [hhex, hsign]
  | @privKey rest tokens hrest =>
    show readPrivKey 8 rest = _
    exact bind_eq_error_iff.2 (.inl (readNumeral_of_breaksOff hrest 8))
  | @privKeyOpen numeral rest hvalid hends hclose =>
    show readPrivKey 8 (numeral.text ++ rest) = _
    refine bind_eq_error_iff.2 (.inr ⟨_, readNumeral_text hvalid hends 8, ?_⟩)
    dsimp only
    split
    · exact absurd rfl hclose
    · rfl
  | @bytes digits rest hdigits hrest =>
    show readBytes ("b'".toList ++ (digits ++ rest)) = _
    exact bind_eq_error_iff.2 (.inl (readQuoted_of_breaksOff (.inside hdigits hrest) 0))
  | @name _ rest kind hkind hopen =>
    rw [read_of_taggedKind? hkind, readTagged]
    rintro body rfl
    exact hopen rfl
  | @tagged kind rest tokens hkind hrest =>
    rw [read_kind hkind]
    exact bind_eq_error_iff.2 (.inl (readQuoted_of_breaksOff hrest _))
  | @taggedOpen kind digits rest hkind hdigits hclose =>
    rw [read_kind hkind]
    have hquoted : readQuoted (kind.name.length + 1) ('b' :: '\'' :: (digits ++ '\'' :: rest))
        = .ok (digits, rest) :=
      readQuoted_eq_ok_iff.2 ⟨hdigits, rfl⟩
    refine bind_eq_error_iff.2 (.inr ⟨_, hquoted, ?_⟩)
    dsimp only
    split
    · exact absurd rfl hclose
    · rfl

/-- **A text is not read iff it breaks off**, and the failure is that of the place. -/
theorem read_eq_error_iff {cs : List Char} {failure : Failure} :
    read cs = .error failure ↔ BreaksOff cs failure :=
  ⟨breaksOff_of_read, read_of_breaksOff⟩

end Form

end ScriptAbi
