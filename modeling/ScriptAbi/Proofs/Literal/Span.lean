import ScriptAbi.Proofs.Literal.Diagnosis

namespace ScriptAbi

/-!
# Spans of diagnostics

Spans count bytes, and a text may hold characters of several bytes. Still the spans of a diagnostic
end between characters: what stands in front of a failure is ASCII, as are literals.

* `Span.of`, `Span.IsValid`: the span of a part of a text, and spans with both ends in the text and
  between characters.
* `IsAscii`: texts with as many bytes as characters, as literals are (`Form.isAscii_text`).
* `BreaksOff.exists_front`: where a text breaks off, ASCII stands in front.
* `HexBody`: the digits of a byte string, plain or in a constructor.
* `report_cases`: what is reported of a text, with the parts that the spans are of.
* `isValid_span_and_column`: all spans are valid, and a column counts characters.
* `diagnostic_spans`: which texts are reported for their digits, and where.
-/

open Form

/-! ### Spans -/

/-- The span of a part of a text, given what stands in front of it. -/
def Span.of (front part : String) : Span := ⟨front.utf8ByteSize, (front ++ part).utf8ByteSize⟩

/-- The ends of the span are in order, inside the text and between characters. -/
structure Span.IsValid (source : String) (span : Span) : Prop where
  ordered : span.start ≤ span.stop
  inside : span.stop ≤ source.utf8ByteSize
  start : String.Pos.Raw.IsValid source ⟨span.start⟩
  stop : String.Pos.Raw.IsValid source ⟨span.stop⟩

/-- The span of a part is valid, whatever follows it. -/
theorem Span.isValid_of (front part back : String) :
    (Span.of front part).IsValid (front ++ part ++ back) where
  ordered := by simp [Span.of, String.utf8ByteSize_append]
  inside := by simp [Span.of, String.utf8ByteSize_append]
  start :=
    String.Pos.Raw.isValid_iff_exists_append.2 ⟨front, part ++ back, String.append_assoc, rfl⟩
  stop := String.Pos.Raw.isValid_iff_exists_append.2 ⟨front ++ part, back, rfl, rfl⟩

/-- The span starts after what stands in front and is as long as the part. -/
theorem Span.of_eq (front part : String) :
    Span.of front part = ⟨front.utf8ByteSize, front.utf8ByteSize + part.utf8ByteSize⟩ := by
  rw [Span.of, String.utf8ByteSize_append]

/-- **What stands in front of a byte position** is counted in characters. -/
theorem charsBefore?_append (front back : List Char) :
    charsBefore? (String.ofList front).utf8ByteSize (front ++ back) = some front.length := by
  induction front with
  | nil => simp [charsBefore?]
  | cons c front ih =>
    rw [String.ofList_cons, String.utf8ByteSize_append, String.utf8ByteSize_singleton]
    obtain ⟨size, hsize⟩ : ∃ size, c.utf8Size = size + 1 :=
      ⟨c.utf8Size - 1, by have := c.utf8Size_pos; omega⟩
    have hposition : c.utf8Size + (String.ofList front).utf8ByteSize
        = size + (String.ofList front).utf8ByteSize + 1 := by omega
    have hrest : size + (String.ofList front).utf8ByteSize + 1 - c.utf8Size
        = (String.ofList front).utf8ByteSize := by omega
    rw [hposition, List.cons_append, charsBefore?, if_pos (by omega), hrest, ih]
    rfl

/-- **The column** is one more than the number of characters in front of the span. -/
theorem Diagnostic.column_eq {d : Diagnostic} {front back : String}
    (hsource : d.source = front ++ back) (hstart : d.span.start = front.utf8ByteSize) :
    d.column = front.length + 1 := by
  have hposition : min d.span.start d.source.utf8ByteSize
      = (String.ofList front.toList).utf8ByteSize := by
    rw [hsource, hstart, String.utf8ByteSize_append, String.ofList_toList]
    omega
  rw [Diagnostic.column, hposition, hsource, String.toList_append, charsBefore?_append,
    Option.getD_some, String.length_toList]

/-! ### ASCII -/

/-- All characters are ASCII. -/
def IsAscii (cs : List Char) : Prop := ∀ c ∈ cs, c.utf8Size = 1

instance : DecidablePred IsAscii := fun cs =>
  decidable_of_iff (cs.all fun c => c.utf8Size = 1) List.all_iff_forall_prop

theorem IsAscii.append {cs ds : List Char} (hcs : IsAscii cs) (hds : IsAscii ds) :
    IsAscii (cs ++ ds) :=
  List.forall_mem_append.2 ⟨hcs, hds⟩

/-- ASCII has as many bytes as characters. -/
theorem IsAscii.utf8ByteSize_ofList {cs : List Char} (h : IsAscii cs) :
    (String.ofList cs).utf8ByteSize = cs.length := by
  induction cs with
  | nil => rfl
  | cons c cs ih =>
    obtain ⟨hc, hcs⟩ := List.forall_mem_cons.1 h
    rw [String.ofList_cons, String.utf8ByteSize_append, String.utf8ByteSize_singleton, hc, ih hcs,
      List.length_cons, Nat.add_comm]

/-- A digit is ASCII. -/
theorem utf8Size_of_isDigit {c : Char} (h : Hex.isDigit c = true) : c.utf8Size = 1 := by
  obtain ⟨d, hdigit⟩ := Option.isSome_iff_exists.1 h
  have hrange : c.toNat ≤ 127 := by
    rw [digit?_eq_some_iff] at hdigit
    omega
  exact Char.utf8Size_eq_one_iff.2 hrange

theorem isAscii_of_isDigit {digits : List Char} (h : ∀ c ∈ digits, Hex.isDigit c = true) :
    IsAscii digits :=
  fun c hc => utf8Size_of_isDigit (h c hc)

/-- Numbers are ASCII. -/
theorem Numeral.isAscii_text {numeral : Numeral} (h : numeral.IsValid) : IsAscii numeral.text := by
  intro c hc
  rcases Numeral.mem_text h c hc with hdigit | rfl | rfl
  · exact utf8Size_of_isDigit hdigit
  · rfl
  · rfl

/-- The names of the constructors are ASCII. -/
theorem isAscii_name {kind : Kind} (h : kind ∈ taggedKinds) : IsAscii kind.name.toList := by
  have hnames : ∀ kind ∈ taggedKinds, IsAscii kind.name.toList := by decide
  exact hnames kind h

/-- **Literals are ASCII.** -/
theorem Form.isAscii_text {form : Form} (h : form.IsValid) : IsAscii form.text := by
  cases form with
  | bool b => cases b <;> decide
  | int numeral => exact Numeral.isAscii_text h
  | privKey numeral =>
    have hopening : IsAscii "PrivKey(".toList := by decide
    exact hopening.append ((Numeral.isAscii_text h).append (by decide))
  | bytes digits =>
    have hopening : IsAscii ['b', '\''] := by decide
    exact hopening.append ((isAscii_of_isDigit h).append (by decide))
  | tagged kind digits =>
    have hopening : IsAscii ['(', 'b', '\''] := by decide
    exact (isAscii_name h.1).append (hopening.append ((isAscii_of_isDigit h.2).append (by decide)))

/-- **In front of the place where a text breaks off** stands ASCII. -/
theorem Form.BreaksOff.exists_front {cs : List Char} {failure : Failure}
    (h : BreaksOff cs failure) :
    ∃ front back, cs = front ++ back ∧ front.length = failure.position ∧ IsAscii front := by
  cases h with
  | after hvalid => exact ⟨_, _, rfl, rfl, Form.isAscii_text hvalid⟩
  | @hexadecimal rest => exact ⟨['0'], 'x' :: rest, rfl, rfl, by decide⟩
  | privKey => exact ⟨"PrivKey(".toList, _, rfl, rfl, by decide⟩
  | @tagged kind rest _ hkind =>
    refine ⟨kind.name.toList ++ ['('], rest, by simp, by simp [String.length_toList], ?_⟩
    exact (isAscii_name hkind).append (by decide)
  | _ => exact ⟨[], _, rfl, rfl, by decide⟩

/-! ### Byte strings -/

/-- What stands in front of the digits of a byte string and after them, with or without a
    constructor. -/
inductive Delimits : String → String → Prop
  | plain : Delimits "b'" "'"
  | tagged {kind : Kind} (hkind : kind ∈ taggedKinds) : Delimits (kind.name ++ "(b'") "')"

/-- The text is a byte string in these digits. -/
structure HexBody (source opening digits closing : String) : Prop where
  delimits : Delimits opening closing
  isDigit : ∀ c ∈ digits.toList, Hex.isDigit c = true
  source_eq : source = opening ++ digits ++ closing

/-- A text that is a form is read as this one. -/
theorem Literal.ofText_of_form {text : String} {form : Form} (hvalid : form.IsValid)
    (htext : (Text.trimmed text).toList = form.text) :
    Literal.ofText text = form.literal (Text.trimmed text) := by
  rw [Literal.ofText, htext, read_text hvalid]

/-- Digits have as many bytes as characters. -/
theorem utf8ByteSize_digits {digits : String} (h : ∀ c ∈ digits.toList, Hex.isDigit c = true) :
    digits.utf8ByteSize = digits.toList.length := by
  rw [← (isAscii_of_isDigit h).utf8ByteSize_ofList, String.ofList_toList]

theorem utf8ByteSize_name {kind : Kind} (h : kind ∈ taggedKinds) :
    kind.name.utf8ByteSize = kind.name.length := by
  rw [← String.length_toList, ← (isAscii_name h).utf8ByteSize_ofList, String.ofList_toList]

/-- The digits of a byte string have one byte each, after what opens it. -/
theorem Span.of_digits {digits : String} (h : ∀ c ∈ digits.toList, Hex.isDigit c = true)
    {opening : String} {size : Nat} (hopening : opening.utf8ByteSize = size) :
    Span.of opening digits = ⟨size, size + digits.length⟩ := by
  rw [Span.of_eq, utf8ByteSize_digits h, hopening, String.length_toList]

/-- The byte string of a flag has one byte for each digit, the `b` and the two quotes. -/
theorem Span.of_flag {digits : String} (h : ∀ c ∈ digits.toList, Hex.isDigit c = true) :
    Span.of "SigHashType(" ("b'" ++ digits ++ "'") = ⟨12, 12 + digits.length + 3⟩ := by
  have hopening : "SigHashType(".utf8ByteSize = 12 := rfl
  have hquotes : "b'".utf8ByteSize = 2 ∧ "'".utf8ByteSize = 1 := ⟨rfl, rfl⟩
  rw [Span.of_eq, String.utf8ByteSize_append, String.utf8ByteSize_append, utf8ByteSize_digits h,
    hopening, hquotes.1, hquotes.2, String.length_toList]
  simp only [Span.mk.injEq, true_and]
  omega

/-- A plain byte string is read as the form of its digits. -/
theorem HexBody.ofText_plain {text digits : String}
    (h : HexBody (Text.trimmed text) "b'" digits "'") :
    Literal.ofText text = (Form.bytes digits.toList).literal (Text.trimmed text) := by
  refine Literal.ofText_of_form h.isDigit ?_
  rw [h.source_eq, String.toList_append, String.toList_append, List.append_assoc]
  rfl

/-- A byte string in a constructor is read as the form of its kind and its digits. -/
theorem HexBody.ofText_tagged {text digits : String} {kind : Kind} (hkind : kind ∈ taggedKinds)
    (h : HexBody (Text.trimmed text) (kind.name ++ "(b'") digits "')") :
    Literal.ofText text = (Form.tagged kind digits.toList).literal (Text.trimmed text) := by
  refine Literal.ofText_of_form ⟨hkind, h.isDigit⟩ ?_
  rw [h.source_eq, String.toList_append, String.toList_append, String.toList_append,
    List.append_assoc, List.append_assoc]
  rfl

/-- The flag is the kind that opens like one. -/
theorem opens_flag_iff {kind : Kind} (h : kind ∈ taggedKinds) :
    kind.name ++ "(b'" = "SigHashType(b'" ↔ kind = .sigHashType := by
  have hkinds : ∀ kind ∈ taggedKinds,
      kind.name ++ "(b'" = "SigHashType(b'" ↔ kind = .sigHashType := by
    decide +kernel
  exact hkinds kind h

/-- **A byte string is no literal** iff its digits are odd in number, or it is a signature flag and
    its digits are not two; and then this is reported, with the span of what is wrong. -/
theorem HexBody.ofText_eq_error_iff {text opening digits closing : String} {d : Diagnostic}
    (h : HexBody (Text.trimmed text) opening digits closing) :
    Literal.ofText text = .error d ↔
      digits.length % 2 = 1 ∧ d = .oddHexLength (Text.trimmed text) (Span.of opening digits)
        ∨ opening = "SigHashType(b'" ∧ digits.length % 2 = 0 ∧ digits.length ≠ 2
          ∧ d = .oversizedSigHashFlag (Text.trimmed text)
            (Span.of "SigHashType(" ("b'" ++ digits ++ "'")) := by
  have hdigits := h.isDigit
  cases h.delimits with
  | plain =>
    have hopening : "b'".utf8ByteSize = 2 := rfl
    -- no flag opens like this
    have hflag : ¬ "b'" = "SigHashType(b'" := by decide
    rw [h.ofText_plain, Form.literal_bytes_eq_error_iff hdigits, Span.of_digits hdigits hopening,
      String.length_toList]
    simp only [hflag, false_and, or_false]
  | @tagged kind hkind =>
    have hopening : (kind.name ++ "(b'").utf8ByteSize = kind.name.length + 1 + 2 := by
      rw [String.utf8ByteSize_append, utf8ByteSize_name hkind]
      rfl
    rw [h.ofText_tagged hkind, Form.literal_tagged_eq_error_iff hdigits, opens_flag_iff hkind,
      Span.of_digits hdigits hopening, Span.of_flag hdigits, String.length_toList]

/-- A text that breaks off is not reported for its digits. -/
theorem diagnosis_ofFailure (source : String) (failure : Failure) :
    ¬ ((Diagnostic.ofFailure source failure).diagnosis = .oddHexLength
      ∨ (Diagnostic.ofFailure source failure).diagnosis = .oversizedSigHashFlag) := by
  unfold Diagnostic.ofFailure
  split_ifs <;>
    simp [Diagnostic.unclosedConstructor, Diagnostic.unterminatedBytes, Diagnostic.unclassified]

/-- A flag is closed by a quote and a parenthesis. -/
theorem Delimits.closing_of_flag {closing : String} (h : Delimits "SigHashType(b'" closing) :
    closing = "')" := by
  generalize hopening : "SigHashType(b'" = opening at h
  cases h with
  | plain => contradiction
  | tagged => rfl

/-- A text that is reported for its digits is a byte string. -/
theorem exists_hexBody {text : String} {d : Diagnostic} (h : Literal.ofText text = .error d)
    (hd : d.diagnosis = .oddHexLength ∨ d.diagnosis = .oversizedSigHashFlag) :
    ∃ opening digits closing, HexBody (Text.trimmed text) opening digits closing := by
  rcases Literal.ofText_eq_error_iff.1 h with ⟨failure, -, heq⟩ | ⟨form, hvalid, htext, hform⟩
  · -- a text that breaks off is reported for another reason
    rw [heq] at hd
    exact absurd hd (diagnosis_ofFailure _ _)
  · cases form with
    -- only forms with digits in quotes fail, and their text has the parts of a byte string
    | bytes digits =>
      have hdigits : ∀ c ∈ (String.ofList digits).toList, Hex.isDigit c = true := by
        rw [String.toList_ofList]
        exact hvalid
      refine ⟨"b'", String.ofList digits, "'", .plain, hdigits, ?_⟩
      have hparts : (Form.bytes digits).text = "b'".toList ++ digits ++ "'".toList := rfl
      rw [Text.trimmed, htext, hparts, String.ofList_append, String.ofList_append,
        String.ofList_toList, String.ofList_toList]
    | tagged kind digits =>
      have hdigits : ∀ c ∈ (String.ofList digits).toList, Hex.isDigit c = true := by
        rw [String.toList_ofList]
        exact hvalid.2
      refine ⟨kind.name ++ "(b'", String.ofList digits, "')", .tagged hvalid.1, hdigits, ?_⟩
      have hparts : (Form.tagged kind digits).text
          = kind.name.toList ++ ("(b'".toList ++ (digits ++ "')".toList)) := rfl
      rw [Text.trimmed, htext, hparts, String.ofList_append, String.ofList_append,
        String.ofList_append, String.ofList_toList, String.ofList_toList, String.ofList_toList,
        String.append_assoc, String.append_assoc]
    | _ => cases hform

/-- **What is reported of a text.** It breaks off, its digits are odd in number, or it is a
    signature flag of another number of bytes than one. -/
theorem report_cases {text : String} {d : Diagnostic} (h : Literal.ofText text = .error d) :
    (∃ failure, BreaksOff (Text.trimmed text).toList failure
        ∧ d = .ofFailure (Text.trimmed text) failure)
      ∨ (∃ opening digits closing, HexBody (Text.trimmed text) opening digits closing
        ∧ digits.length % 2 = 1
        ∧ d = .oddHexLength (Text.trimmed text) (Span.of opening digits))
      ∨ ∃ digits, HexBody (Text.trimmed text) "SigHashType(b'" digits "')"
        ∧ digits.length % 2 = 0 ∧ digits.length ≠ 2
        ∧ d = .oversizedSigHashFlag (Text.trimmed text)
          (Span.of "SigHashType(" ("b'" ++ digits ++ "'")) := by
  rcases Literal.ofText_eq_error_iff.1 h with ⟨failure, hbreaks, hd⟩ | ⟨form, hvalid, -, hform⟩
  · -- the text breaks off
    rw [← String.toList_ofList (l := Text.trim text.toList)] at hbreaks
    exact .inl ⟨failure, hbreaks, hd⟩
  · obtain ⟨opening, digits, closing, hbody⟩ :=
      exists_hexBody h (Form.diagnosis_of_literal hvalid hform)
    -- a byte string that is no literal is reported for its digits
    rcases hbody.ofText_eq_error_iff.1 h with ⟨hodd, hd⟩ | ⟨rfl, heven, htwo, hd⟩
    · exact .inr (.inl ⟨opening, digits, closing, hbody, hodd, hd⟩)
    · obtain rfl := hbody.delimits.closing_of_flag
      exact .inr (.inr ⟨digits, hbody, heven, htwo, hd⟩)

/-! ### All spans -/

/-- The span of a text that breaks off is empty, and stands at its end or where it does so. -/
theorem exists_parts_of_breaksOff {source : String} {failure : Failure}
    (h : BreaksOff source.toList failure) :
    ∃ front back, source = front ++ "" ++ back
      ∧ (Diagnostic.ofFailure source failure).span = Span.of front "" := by
  have hempty (front : String) : Span.of front "" = ⟨front.utf8ByteSize, front.utf8ByteSize⟩ :=
    Span.of_eq front ""
  unfold Diagnostic.ofFailure
  split_ifs
  · -- what is open is reported at the end of the text
    exact ⟨source, "", by simp, (hempty source).symm⟩
  · exact ⟨source, "", by simp, (hempty source).symm⟩
  · obtain ⟨front, back, hparts, hlength, hascii⟩ := h.exists_front
    have hsource : source = String.ofList front ++ String.ofList back := by
      rw [← String.ofList_append, ← hparts, String.ofList_toList]
    -- all else where the text breaks off, and in front of this place a byte is a character
    have hsize : (String.ofList front).utf8ByteSize = failure.position :=
      hascii.utf8ByteSize_ofList.trans hlength
    have hinside : min failure.position source.utf8ByteSize = failure.position := by
      rw [hsource, String.utf8ByteSize_append, hsize]
      omega
    refine ⟨String.ofList front, String.ofList back, by simpa using hsource, ?_⟩
    rw [hempty, hsize, Diagnostic.unclassified, hinside]

/-- **The span of a diagnostic** is that of a part of the text, and its labels stand there too. -/
theorem exists_parts {text : String} {d : Diagnostic} (h : Literal.ofText text = .error d) :
    (∃ front part back, d.source = front ++ part ++ back ∧ d.span = Span.of front part)
      ∧ ∀ label ∈ d.labels, label.span = d.span := by
  rw [Diagnostic.source_eq h]
  rcases report_cases h with ⟨failure, hbreaks, hd⟩ | ⟨opening, digits, closing, hbody, -, hd⟩
    | ⟨digits, hbody, -, -, hd⟩
  · rw [hd]
    obtain ⟨front, back, hparts, hspan⟩ := exists_parts_of_breaksOff hbreaks
    refine ⟨⟨front, "", back, hparts, hspan⟩, ?_⟩
    -- the label, if there is one, has the span of the report
    unfold Diagnostic.ofFailure
    split_ifs <;>
      simp [Diagnostic.unclosedConstructor, Diagnostic.unterminatedBytes, Diagnostic.unclassified]
  · rw [hd]
    exact ⟨⟨opening, digits, closing, hbody.source_eq, rfl⟩, by simp [Diagnostic.oddHexLength]⟩
  · rw [hd]
    refine ⟨⟨"SigHashType(", "b'" ++ digits ++ "'", ")", ?_, rfl⟩,
      by simp [Diagnostic.oversizedSigHashFlag]⟩
    rw [hbody.source_eq, ← String.toList_inj]
    simp

/-- Spans are valid, and the column counts the characters in front. -/
theorem isValid_span_and_column {text : String} {d : Diagnostic}
    (h : Literal.ofText text = .error d) :
    (∀ span ∈ d.span :: d.labels.map Label.span, span.IsValid d.source)
      ∧ ∃ front back, d.source = front ++ back ∧ d.span.start = front.utf8ByteSize
        ∧ d.column = front.length + 1 := by
  obtain ⟨⟨front, part, back, hsource, hspan⟩, hlabels⟩ := exists_parts h
  constructor
  · intro span hmem
    -- all spans of a report are the same one
    have hsame : span = d.span := by
      rcases List.mem_cons.1 hmem with rfl | hmem
      · rfl
      · obtain ⟨label, hlabel, rfl⟩ := List.mem_map.1 hmem
        exact hlabels label hlabel
    rw [hsame, hspan, hsource]
    exact Span.isValid_of front part back
  · have hstart : d.span.start = front.utf8ByteSize := by rw [hspan, Span.of]
    have hparts : d.source = front ++ (part ++ back) := by rw [hsource, String.append_assoc]
    exact ⟨front, part ++ back, hparts, hstart, Diagnostic.column_eq hparts hstart⟩

/-- **Odd digits** are reported of the byte strings that have them, and of no other text. -/
theorem diagnosis_eq_oddHexLength_iff {text : String} {d : Diagnostic}
    (h : Literal.ofText text = .error d) :
    d.diagnosis = .oddHexLength ↔
      ∃ opening digits closing, HexBody (Text.trimmed text) opening digits closing
        ∧ digits.length % 2 = 1 := by
  constructor
  · intro hdiagnosis
    rcases report_cases h with ⟨failure, -, hd⟩ | ⟨opening, digits, closing, hbody, hodd, -⟩
      | ⟨digits, -, -, -, hd⟩
    · rw [hd] at hdiagnosis
      exact absurd (.inl hdiagnosis) (diagnosis_ofFailure _ _)
    · exact ⟨opening, digits, closing, hbody, hodd⟩
    · rw [hd] at hdiagnosis
      cases hdiagnosis
  · rintro ⟨opening, digits, closing, hbody, hodd⟩
    rcases hbody.ofText_eq_error_iff.1 h with ⟨-, hd⟩ | ⟨-, heven, -⟩
    · rw [hd]
      rfl
    · -- a flag of the wrong length has an even number of digits
      omega

/-- **A wrong number of bytes** is reported of signature flags that have one, and of no other
    text. -/
theorem diagnosis_eq_oversizedSigHashFlag_iff {text : String} {d : Diagnostic}
    (h : Literal.ofText text = .error d) :
    d.diagnosis = .oversizedSigHashFlag ↔
      ∃ digits, HexBody (Text.trimmed text) "SigHashType(b'" digits "')"
        ∧ digits.length % 2 = 0 ∧ digits.length ≠ 2 := by
  constructor
  · intro hdiagnosis
    rcases report_cases h with ⟨failure, -, hd⟩ | ⟨opening, digits, closing, -, -, hd⟩
      | ⟨digits, hbody, heven, htwo, -⟩
    · rw [hd] at hdiagnosis
      exact absurd (.inr hdiagnosis) (diagnosis_ofFailure _ _)
    · rw [hd] at hdiagnosis
      cases hdiagnosis
    · exact ⟨digits, hbody, heven, htwo⟩
  · rintro ⟨digits, hbody, heven, htwo⟩
    rcases hbody.ofText_eq_error_iff.1 h with ⟨hodd, -⟩ | ⟨-, -, -, hd⟩
    · -- an odd number of digits is not an even one
      omega
    · rw [hd]
      rfl

/-- The message of odd digits has their number. -/
theorem message_oddHexLength (source opening : String) {digits : String}
    (h : ∀ c ∈ digits.toList, Hex.isDigit c = true) :
    (Diagnostic.oddHexLength source (Span.of opening digits)).message
      = "odd number of hex digits (" ++ toString digits.length ++ ")" := by
  rw [Diagnostic.oddHexLength, Span.of_eq, Nat.add_sub_cancel_left, utf8ByteSize_digits h,
    String.length_toList]

/-- **The spans of diagnostics.** Whatever characters a text has, a diagnostic is about the text
    without the blanks around it; its span and those of its labels have their ends in order, inside
    this text and between characters; and the column is one more than the number of characters in
    front of the span. Odd digits are reported exactly of byte strings that have them, with the span
    and the number of the digits. A wrong number of bytes is reported exactly of signature flags
    with an even number of digits other than two, with the span of the byte string. -/
theorem diagnostic_spans (text : String) :
    (∀ d, Literal.ofText text = .error d →
      d.source = Text.trimmed text
        ∧ (∀ span ∈ d.span :: d.labels.map Label.span, span.IsValid d.source)
        ∧ (∃ front back, d.source = front ++ back ∧ d.span.start = front.utf8ByteSize
          ∧ d.column = front.length + 1)
        ∧ d.column ≤ d.source.length + 1
        ∧ (d.diagnosis = .oddHexLength ↔
          ∃ opening digits closing, HexBody (Text.trimmed text) opening digits closing
            ∧ digits.length % 2 = 1)
        ∧ (d.diagnosis = .oversizedSigHashFlag ↔
          ∃ digits, HexBody (Text.trimmed text) "SigHashType(b'" digits "')"
            ∧ digits.length % 2 = 0 ∧ digits.length ≠ 2))
      ∧ (∀ opening digits closing, HexBody (Text.trimmed text) opening digits closing →
        digits.length % 2 = 1 →
        ∃ d, Literal.ofText text = .error d ∧ d.diagnosis = .oddHexLength
          ∧ d.span = Span.of opening digits
          ∧ d.message = "odd number of hex digits (" ++ toString digits.length ++ ")")
      ∧ ∀ digits, HexBody (Text.trimmed text) "SigHashType(b'" digits "')" →
        digits.length % 2 = 0 → digits.length ≠ 2 →
        ∃ d, Literal.ofText text = .error d ∧ d.diagnosis = .oversizedSigHashFlag
          ∧ d.span = Span.of "SigHashType(" ("b'" ++ digits ++ "'") := by
  refine ⟨fun d h => ?_, fun opening digits closing hbody hodd => ?_,
    fun digits hbody heven htwo => ?_⟩
  · obtain ⟨hspans, front, back, hsource, hstart, hcolumn⟩ := isValid_span_and_column h
    refine ⟨Diagnostic.source_eq h, hspans, ⟨front, back, hsource, hstart, hcolumn⟩, ?_,
      diagnosis_eq_oddHexLength_iff h, diagnosis_eq_oversizedSigHashFlag_iff h⟩
    -- the column counts what stands in front of the span, which is no more than the text
    rw [hcolumn, hsource, String.length_append]
    omega
  · exact ⟨_, hbody.ofText_eq_error_iff.2 (.inl ⟨hodd, rfl⟩), rfl, rfl,
      message_oddHexLength _ _ hbody.isDigit⟩
  · exact ⟨_, hbody.ofText_eq_error_iff.2 (.inr ⟨rfl, heven, htwo, rfl⟩), rfl, rfl⟩

/-- A text in which characters have up to three bytes, and a signature flag of no bytes. -/
theorem diagnostic_spans_wide :
    Literal.ofText "\u3000b'é €\n" = .error (.unterminatedBytes "b'é €")
      ∧ Span.IsValid "b'é €" ⟨8, 8⟩
      ∧ (Diagnostic.unterminatedBytes "b'é €").column = 6
      ∧ ∃ d, Literal.ofText "SigHashType(b'')" = .error d ∧ d.diagnosis = .oversizedSigHashFlag
        ∧ d.span = ⟨12, 15⟩ := by
  have hwide : Literal.ofText "\u3000b'é €\n" = .error (.unterminatedBytes "b'é €") := by
    decide +kernel
  -- a flag with no digits
  have hflag : HexBody (Text.trimmed "SigHashType(b'')") "SigHashType(b'" "" "')" := by
    have hmem : Kind.sigHashType ∈ taggedKinds := by decide
    exact ⟨Delimits.tagged hmem, by simp, by decide +kernel⟩
  obtain ⟨-, hspans, -⟩ := (diagnostic_spans "\u3000b'é €\n").1 _ hwide
  obtain ⟨-, -, hoversized⟩ := diagnostic_spans "SigHashType(b'')"
  obtain ⟨d, hd, hdiagnosis, hspan⟩ := hoversized "" hflag (by decide) (by decide)
  exact ⟨hwide, hspans _ List.mem_cons_self, by decide +kernel, d, hd, hdiagnosis, hspan⟩

end ScriptAbi
