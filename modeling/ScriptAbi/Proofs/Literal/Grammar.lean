import Mathlib.Data.List.Induction
import ScriptAbi.Literal.Basic
import ScriptAbi.Proofs.Literal.Form
import ScriptAbi.Value.Render

namespace ScriptAbi

/-!
# The language of literals

The texts that are literals, with what they denote, said without the reader.

* `WrittenNat`, `WrittenInt`, `WrittenBytes`: digits and the number that they denote in a base, the
  two ways to write a whole number, and pairs of hexadecimal digits.
* `WrittenLiteral`: a text with the kind and the datum that it denotes. A text denotes at most one
  literal (`WrittenLiteral.unique`).
* `ofText_eq_ok_iff_written`: a text is read as a literal iff it is one between blanks, and comes to what it
  denotes.
-/

/-! ### Numbers and byte strings -/

/-- The digits denote the number in the base, the high digit first. There is at least one digit. -/
inductive WrittenNat (base : Nat) : List Char → Nat → Prop
  | single {c : Char} {d : Nat} (hdigit : Hex.digit? c = some d) (hbase : d < base) :
      WrittenNat base [c] d
  | snoc {cs : List Char} {n : Nat} {c : Char} {d : Nat} (hcs : WrittenNat base cs n)
      (hdigit : Hex.digit? c = some d) (hbase : d < base) :
      WrittenNat base (cs ++ [c]) (base * n + d)

/-- A whole number in decimal digits, with or without a minus sign, or in hexadecimal digits. -/
inductive WrittenInt : List Char → Int → Prop
  | decimal {cs : List Char} {n : Nat} (h : WrittenNat 10 cs n) : WrittenInt cs n
  | negative {cs : List Char} {n : Nat} (h : WrittenNat 10 cs n) : WrittenInt ('-' :: cs) (-n)
  | hexadecimal {cs : List Char} {n : Nat} (h : WrittenNat 16 cs n) :
      WrittenInt ('0' :: 'x' :: cs) n

/-- A byte string in hexadecimal digits, two for each byte, the high one first. -/
inductive WrittenBytes : List Char → Bytes → Prop
  | nil : WrittenBytes [] []
  | cons {high low : Char} {h l : Nat} {cs : List Char} {data : Bytes}
      (hhigh : Hex.digit? high = some h) (hlow : Hex.digit? low = some l)
      (hcs : WrittenBytes cs data) :
      WrittenBytes (high :: low :: cs) (UInt8.ofNat (16 * h + l) :: data)

/-- **A literal**, with the kind that it is written as and the datum that it denotes. -/
inductive WrittenLiteral : List Char → Kind → Datum → Prop
  | true : WrittenLiteral "true".toList .bool (.bool true)
  | false : WrittenLiteral "false".toList .bool (.bool false)
  | int {cs : List Char} {n : Int} (h : WrittenInt cs n) : WrittenLiteral cs .int (.int n)
  | privKey {cs : List Char} {n : Int} (h : WrittenInt cs n) :
      WrittenLiteral ("PrivKey(".toList ++ cs ++ ")".toList) .privKey (.int n)
  | bytes {cs : List Char} {data : Bytes} (h : WrittenBytes cs data) :
      WrittenLiteral ("b'".toList ++ cs ++ "'".toList) (.bytes .plain) (.bytes data)
  /-- The other kinds of byte strings are written with their names. -/
  | tagged {kind : BytesKind} {cs : List Char} {data : Bytes} (hkind : kind ≠ .plain)
      (h : WrittenBytes cs data) :
      WrittenLiteral (kind.name.toList ++ "(b'".toList ++ cs ++ "')".toList) (.bytes kind)
        (.bytes data)
  /-- A signature flag is one byte. -/
  | sigHashType {cs : List Char} {flag : UInt8} (h : WrittenBytes cs [flag]) :
      WrittenLiteral ("SigHashType(b'".toList ++ cs ++ "')".toList) .sigHashType (.int flag.toNat)

/-! ### Digits -/

/-- The three ranges of digits, with the values that they start at. -/
theorem digit?_eq_some_iff {c : Char} {d : Nat} :
    Hex.digit? c = some d ↔
      48 ≤ c.toNat ∧ c.toNat ≤ 57 ∧ d = c.toNat - 48
        ∨ 97 ≤ c.toNat ∧ c.toNat ≤ 102 ∧ d = c.toNat - 87
        ∨ 65 ≤ c.toNat ∧ c.toNat ≤ 70 ∧ d = c.toNat - 55 := by
  have hle (a b : Char) : a ≤ b ↔ a.toNat ≤ b.toNat := Iff.rfl
  simp only [Hex.digit?, hle, Char.reduceToNat]
  split_ifs <;> simp <;> omega

/-- A digit denotes less than sixteen. -/
theorem digit?_lt {c : Char} {d : Nat} (h : Hex.digit? c = some d) : d < 16 := by
  rw [digit?_eq_some_iff] at h
  omega

/-- A decimal digit is a digit below ten. -/
theorem isDigit_iff {c : Char} : c.isDigit = true ↔ ∃ d, Hex.digit? c = some d ∧ d < 10 := by
  simp only [Char.isDigit_iff_toNat, digit?_eq_some_iff, Char.reduceToNat]
  constructor
  · rintro ⟨hlow, hhigh⟩
    exact ⟨c.toNat - 48, .inl ⟨hlow, hhigh, rfl⟩, by omega⟩
  · rintro ⟨d, hdigit, hd⟩
    omega

/-- A digit below ten denotes its distance from `0`. -/
theorem toNat_sub_eq_of_digit? {c : Char} {d : Nat} (h : Hex.digit? c = some d) (hd : d < 10) :
    c.toNat - '0'.toNat = d := by
  rw [digit?_eq_some_iff] at h
  simp only [Char.reduceToNat]
  omega

/-- Digits denote what they add up to, one after the other. -/
theorem writtenNat_iff {base : Nat} {p : Char → Bool} {v : Char → Nat}
    (hp : ∀ c, p c = true ↔ ∃ d, Hex.digit? c = some d ∧ d < base)
    (hv : ∀ c d, Hex.digit? c = some d → d < base → v c = d) {cs : List Char} {n : Nat} :
    WrittenNat base cs n ↔
      (cs ≠ [] ∧ ∀ c ∈ cs, p c = true) ∧ n = cs.foldl (fun m c => base * m + v c) 0 := by
  constructor
  · intro h
    induction h with
    | @single c d hdigit hbase =>
      refine ⟨⟨by simp, fun c' hc' => ?_⟩, by simp [hv c d hdigit hbase]⟩
      rw [List.mem_singleton.1 hc']
      exact (hp c).2 ⟨d, hdigit, hbase⟩
    | @snoc cs n c d _ hdigit hbase ih =>
      obtain ⟨⟨-, hcs⟩, hn⟩ := ih
      refine ⟨⟨by simp, fun c' hc' => ?_⟩, by simp [hv c d hdigit hbase, hn]⟩
      rcases List.mem_append.1 hc' with hc' | hc'
      · exact hcs c' hc'
      · rw [List.mem_singleton.1 hc']
        exact (hp c).2 ⟨d, hdigit, hbase⟩
  · rintro ⟨⟨hne, hcs⟩, rfl⟩
    -- from the last digit, which is the one that the sum takes in last
    induction cs using List.reverseRecOn with
    | nil => contradiction
    | append_singleton cs c ih =>
      obtain ⟨d, hdigit, hbase⟩ := (hp c).1 (hcs c (by simp))
      rw [List.foldl_append, List.foldl_cons, List.foldl_nil, hv c d hdigit hbase]
      by_cases hnil : cs = []
      · subst hnil
        simpa using WrittenNat.single hdigit hbase
      · exact .snoc (ih hnil fun c' hc' => hcs c' (by simp [hc'])) hdigit hbase

/-- A decimal number is a text of digits that is not empty. -/
theorem writtenNat_decimal_iff {cs : List Char} {n : Nat} :
    WrittenNat 10 cs n ↔
      (cs ≠ [] ∧ ∀ c ∈ cs, c.isDigit = true) ∧ n = Text.natOfDigits cs := by
  rw [writtenNat_iff (fun _ => isDigit_iff) fun _ _ => toNat_sub_eq_of_digit?, Text.natOfDigits,
    Nat.ofDigitChars_eq_foldl]

/-- So is a hexadecimal one. -/
theorem writtenNat_hexadecimal_iff {cs : List Char} {n : Nat} :
    WrittenNat 16 cs n ↔
      (cs ≠ [] ∧ ∀ c ∈ cs, Hex.isDigit c = true) ∧ n = Hex.natOfDigits cs := by
  have hdigit (c : Char) : Hex.isDigit c = true ↔ ∃ d, Hex.digit? c = some d ∧ d < 16 := by
    rw [Hex.isDigit, Option.isSome_iff_exists]
    exact ⟨fun ⟨d, hd⟩ => ⟨d, hd, digit?_lt hd⟩, fun ⟨d, hd, _⟩ => ⟨d, hd⟩⟩
  rw [writtenNat_iff (v := fun c => (Hex.digit? c).getD 0) hdigit fun c d hd _ => by simp [hd],
    Hex.natOfDigits]

/-- **Whole numbers** are the texts of numerals. -/
theorem writtenInt_iff {cs : List Char} {n : Int} :
    WrittenInt cs n ↔
      ∃ numeral : Numeral, numeral.IsValid ∧ cs = numeral.text ∧ n = numeral.value := by
  constructor
  · rintro (h | h | h)
    · obtain ⟨hvalid, rfl⟩ := writtenNat_decimal_iff.1 h
      exact ⟨.decimal false cs, hvalid, rfl, rfl⟩
    · obtain ⟨hvalid, rfl⟩ := writtenNat_decimal_iff.1 h
      exact ⟨.decimal true _, hvalid, rfl, rfl⟩
    · obtain ⟨hvalid, rfl⟩ := writtenNat_hexadecimal_iff.1 h
      exact ⟨.hexadecimal _, hvalid, rfl, rfl⟩
  · rintro ⟨numeral, hvalid, rfl, rfl⟩
    cases numeral with
    | decimal negative digits =>
      have hdigits := writtenNat_decimal_iff.2 ⟨hvalid, rfl⟩
      cases negative with
      | false => exact .decimal hdigits
      | true => exact .negative hdigits
    | hexadecimal digits => exact .hexadecimal (writtenNat_hexadecimal_iff.2 ⟨hvalid, rfl⟩)

/-- **Byte strings** are the texts that can be decoded. -/
theorem writtenBytes_iff {cs : List Char} {data : Bytes} :
    WrittenBytes cs data ↔ Hex.decode? cs = some data := by
  constructor
  · intro h
    -- two digits for each byte, on both sides
    induction h with
    | nil => rfl
    | cons hhigh hlow _ ih => simp [Hex.decode?, hhigh, hlow, ih]
  · intro h
    fun_induction Hex.decode? cs generalizing data with
    | case1 =>
      cases h
      exact .nil
    | case2 => contradiction
    | case3 high low rest ih =>
      simp only [Option.bind_eq_bind, Option.bind_eq_some_iff, Option.pure_def,
        Option.some.injEq] at h
      obtain ⟨hd, hhigh, ld, hlow, bytes, hbytes, rfl⟩ := h
      exact .cons hhigh hlow (ih hbytes)

/-- Bytes are written in hexadecimal digits. -/
theorem WrittenBytes.isDigit {cs : List Char} {data : Bytes} (h : WrittenBytes cs data) :
    ∀ c ∈ cs, Hex.isDigit c = true := by
  induction h with
  | nil => simp
  | cons hhigh hlow _ ih => simpa [Hex.isDigit, hhigh, hlow] using ih

/-! ### Forms and what they denote -/

/-- The constructors with a byte string are the flag and all kinds of bytes but the plain one. -/
theorem mem_taggedKinds_iff {kind : Kind} :
    kind ∈ Form.taggedKinds ↔ kind = .sigHashType ∨ ∃ k ≠ BytesKind.plain, kind = .bytes k := by
  cases kind with
  | bytes k => cases k <;> simp [Form.taggedKinds]
  | _ => simp [Form.taggedKinds]

/-- The digits of a byte string are read as the bytes that they are written for. -/
theorem Form.data_eq_ok_iff {source : String} {start : Nat} {digits : List Char} {data : Bytes} :
    Form.data source start digits = .ok data ↔ WrittenBytes digits data := by
  rw [writtenBytes_iff, Form.data]
  cases Hex.decode? digits <;> simp

/-- A plain byte string is a literal of the bytes in it. -/
theorem Form.literal_bytes_eq_ok_iff {source : String} {digits : List Char} {literal : Literal} :
    (Form.bytes digits).literal source = .ok literal ↔
      ∃ data, WrittenBytes digits data ∧ ⟨.bytes .plain, .bytes data⟩ = literal := by
  simp only [Form.literal, bind_eq_ok_iff, Form.data_eq_ok_iff, pure, Except.pure,
    Except.ok.injEq]

/-- A constructor with a byte string is a literal of its kind. -/
theorem Form.literal_tagged_eq_ok_iff {source : String} {k : BytesKind} {digits : List Char}
    {literal : Literal} :
    (Form.tagged (.bytes k) digits).literal source = .ok literal ↔
      ∃ data, WrittenBytes digits data ∧ ⟨.bytes k, .bytes data⟩ = literal := by
  simp only [Form.literal, bind_eq_ok_iff, Form.data_eq_ok_iff, reduceCtorEq, if_false, pure,
    Except.pure, Except.ok.injEq]

/-- A flag is a literal iff there is one byte in it. -/
theorem Form.literal_sigHashType_eq_ok_iff {source : String} {digits : List Char}
    {literal : Literal} :
    (Form.tagged .sigHashType digits).literal source = .ok literal ↔
      ∃ flag : UInt8, WrittenBytes digits [flag] ∧ ⟨.sigHashType, .int flag.toNat⟩ = literal := by
  simp only [Form.literal, bind_eq_ok_iff, Form.data_eq_ok_iff, if_true]
  constructor
  · rintro ⟨data, hdata, h⟩
    split at h
    · cases h
      exact ⟨_, hdata, rfl⟩
    · contradiction
  · rintro ⟨flag, hdata, rfl⟩
    exact ⟨_, hdata, rfl⟩

/-- The text of a constructor, part by part. -/
theorem Form.text_tagged (k : BytesKind) (digits : List Char) :
    (Form.tagged (.bytes k) digits).text =
      k.name.toList ++ "(b'".toList ++ digits ++ "')".toList := by
  rw [List.append_assoc, List.append_assoc]
  rfl

/-- What a form comes to is what its text denotes. -/
theorem written_of_literal {source : String} {form : Form} (hvalid : form.IsValid)
    {literal : Literal} (h : form.literal source = .ok literal) :
    WrittenLiteral form.text literal.kind literal.value := by
  cases form with
  | bool b =>
    cases h
    cases b
    · exact .false
    · exact .true
  | int numeral =>
    cases h
    exact .int (writtenInt_iff.2 ⟨numeral, hvalid, rfl, rfl⟩)
  | privKey numeral =>
    cases h
    have hwritten := WrittenLiteral.privKey (writtenInt_iff.2 ⟨numeral, hvalid, rfl, rfl⟩)
    rwa [List.append_assoc] at hwritten
  | bytes digits =>
    obtain ⟨data, hdata, rfl⟩ := Form.literal_bytes_eq_ok_iff.1 h
    exact .bytes hdata
  | tagged kind digits =>
    obtain rfl | ⟨k, hk, rfl⟩ := mem_taggedKinds_iff.1 hvalid.1
    · -- a flag is a number, and every other constructor gives bytes
      obtain ⟨flag, hdata, rfl⟩ := Form.literal_sigHashType_eq_ok_iff.1 h
      exact .sigHashType hdata
    · obtain ⟨data, hdata, rfl⟩ := Form.literal_tagged_eq_ok_iff.1 h
      rw [Form.text_tagged]
      exact .tagged hk hdata

/-- What is written as a literal is the text of a form that comes to what it denotes. -/
theorem exists_literal_of_written {cs : List Char} {kind : Kind} {datum : Datum}
    (h : WrittenLiteral cs kind datum) :
    ∃ form : Form, form.IsValid ∧ cs = form.text
      ∧ ∀ source, form.literal source = .ok ⟨kind, datum⟩ := by
  -- the form of each text that the grammar has
  cases h with
  | true => exact ⟨.bool true, trivial, rfl, fun _ => rfl⟩
  | false => exact ⟨.bool false, trivial, rfl, fun _ => rfl⟩
  | int h =>
    obtain ⟨numeral, hvalid, rfl, rfl⟩ := writtenInt_iff.1 h
    exact ⟨.int numeral, hvalid, rfl, fun _ => rfl⟩
  | privKey h =>
    obtain ⟨numeral, hvalid, rfl, rfl⟩ := writtenInt_iff.1 h
    exact ⟨.privKey numeral, hvalid, List.append_assoc .., fun _ => rfl⟩
  | @bytes digits data h =>
    exact ⟨.bytes digits, h.isDigit, rfl,
      fun _ => Form.literal_bytes_eq_ok_iff.2 ⟨data, h, rfl⟩⟩
  | @tagged k digits data hk h =>
    exact ⟨.tagged (.bytes k) digits, ⟨mem_taggedKinds_iff.2 (.inr ⟨k, hk, rfl⟩), h.isDigit⟩,
      (Form.text_tagged _ _).symm,
      fun _ => Form.literal_tagged_eq_ok_iff.2 ⟨data, h, rfl⟩⟩
  | @sigHashType digits flag h =>
    exact ⟨.tagged .sigHashType digits, ⟨mem_taggedKinds_iff.2 (.inl rfl), h.isDigit⟩, rfl,
      fun _ => Form.literal_sigHashType_eq_ok_iff.2 ⟨flag, h, rfl⟩⟩

/-- **A text denotes one literal**: no two ways to write literals have a text in common. -/
theorem WrittenLiteral.unique {cs : List Char} {kind kind' : Kind} {datum datum' : Datum}
    (h : WrittenLiteral cs kind datum) (h' : WrittenLiteral cs kind' datum') :
    kind = kind' ∧ datum = datum' := by
  obtain ⟨form, hvalid, htext, hliteral⟩ := exists_literal_of_written h
  obtain ⟨form', hvalid', htext', hliteral'⟩ := exists_literal_of_written h'
  -- the text is read as both forms
  have hform : form' = form := by
    have hread := Form.read_eq_ok_iff.2 ⟨hvalid, htext⟩
    rw [Form.read_eq_ok_iff.2 ⟨hvalid', htext'⟩] at hread
    exact Except.ok.inj hread
  have hsame := hliteral ""
  rw [← hform, hliteral' ""] at hsame
  cases hsame
  exact ⟨rfl, rfl⟩

/-! ### Reading literals -/

/-- A text is read as a literal iff it is one between blanks. -/
theorem Literal.ofText_eq_ok_iff {text : String} {literal : Literal} :
    Literal.ofText text = .ok literal ↔
      WrittenLiteral (Text.trim text.toList) literal.kind literal.value := by
  have hsource : (Text.trimmed text).toList = Text.trim text.toList := String.toList_ofList
  rw [Literal.ofText, hsource]
  constructor
  · intro h
    split at h
    · rename_i form hread
      obtain ⟨hvalid, htext⟩ := Form.read_eq_ok_iff.1 hread
      -- what was read is the text of a form, and a form that is a literal is written for it
      rw [htext]
      exact written_of_literal hvalid h
    · contradiction
  · intro h
    obtain ⟨form, hvalid, htext, hliteral⟩ := exists_literal_of_written h
    rw [Form.read_eq_ok_iff.2 ⟨hvalid, htext⟩]
    exact hliteral _

/-- **The language of literals.** A text is read as a literal iff, without the blanks around it, it
    is one, and then it comes to the kind that it is written as and to what it denotes. Every other
    text is a malformed literal. -/
theorem ofText_eq_ok_iff_written (text : String) :
    (∀ literal, Literal.ofText text = .ok literal ↔
      WrittenLiteral (Text.trim text.toList) literal.kind literal.value)
    ∧ ((∃ diagnostic, Literal.ofText text = .error diagnostic
          ∧ Value.ofText text = .error (.literal diagnostic)) ↔
        ∀ kind datum, ¬ WrittenLiteral (Text.trim text.toList) kind datum) := by
  refine ⟨fun _ => Literal.ofText_eq_ok_iff, ?_⟩
  constructor
  · rintro ⟨diagnostic, herror, -⟩ kind datum hwritten
    have hok : Literal.ofText text = .ok ⟨kind, datum⟩ := Literal.ofText_eq_ok_iff.2 hwritten
    rw [herror] at hok
    contradiction
  · intro hnone
    -- a text that is written for nothing is not read, and the value fails with it
    cases hread : Literal.ofText text with
    | ok literal => exact absurd (Literal.ofText_eq_ok_iff.1 hread) (hnone _ _)
    | error diagnostic => exact ⟨diagnostic, rfl, by rw [Value.ofText, hread]⟩

end ScriptAbi
