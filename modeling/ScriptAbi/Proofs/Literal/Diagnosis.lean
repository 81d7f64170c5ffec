import ScriptAbi.Proofs.Literal.Failure
import ScriptAbi.Proofs.Literal.Grammar

namespace ScriptAbi

/-!
# What a diagnosis of an open delimiter says

A text is taken for one with an open delimiter if the delimiters do not balance, or if it breaks off
where the closing one could stand. In the second case it may be closed further on.

* `StopsBeforeParenthesis`, `StopsInBytes`: texts that break off there.
* `expects_parenthesis_iff`, `expects_quote_iff`: they are those at whose end the closing token is
  expected.
* `ofText_eq_error_iff`: a text that is no literal breaks off, or has the form of one.
* `diagnosis_iff_delimiters`: which texts get the two diagnoses.
-/

open Form

/-! ### Closing tokens -/

/-- The text breaks off where the parenthesis of a constructor is to be closed. -/
inductive StopsBeforeParenthesis : List Char → Prop
  | privKey {numeral : Numeral} {rest : List Char} (hvalid : numeral.IsValid)
      (hends : numeral.EndsBefore rest) (hclose : rest.head? ≠ some ')') :
      StopsBeforeParenthesis ("PrivKey(".toList ++ (numeral.text ++ rest))
  | tagged {kind : Kind} {digits rest : List Char} (hkind : kind ∈ taggedKinds)
      (hdigits : ∀ c ∈ digits, Hex.isDigit c = true) (hclose : rest.head? ≠ some ')') :
      StopsBeforeParenthesis (kind.name.toList ++ "(b'".toList ++ (digits ++ '\'' :: rest))

/-- The text breaks off where the digits of a byte string end. -/
inductive StopsInBytes : List Char → Prop
  | bytes {digits rest : List Char} (hdigits : ∀ c ∈ digits, Hex.isDigit c = true)
      (hrest : ∀ c ∈ rest.head?, c ≠ '\'' ∧ Hex.isDigit c = false) :
      StopsInBytes ("b'".toList ++ (digits ++ rest))
  | tagged {kind : Kind} {digits rest : List Char} (hkind : kind ∈ taggedKinds)
      (hdigits : ∀ c ∈ digits, Hex.isDigit c = true)
      (hrest : ∀ c ∈ rest.head?, c ≠ '\'' ∧ Hex.isDigit c = false) :
      StopsInBytes (kind.name.toList ++ "(b'".toList ++ (digits ++ rest))

/-! Neither token is expected in a number or where a literal goes on. -/

/-- A number may go on with more digits, and not with a delimiter. -/
theorem Numeral.not_mem_moreTokens (numeral : Numeral) :
    ")" ∉ numeral.moreTokens ∧ "'" ∉ numeral.moreTokens := by
  have htokens : ∀ tokens ∈ [digitTokens, hexTokens], ")" ∉ tokens ∧ "'" ∉ tokens := by decide
  cases numeral with
  | decimal => exact htokens digitTokens (by simp)
  | hexadecimal => exact htokens hexTokens (by simp)

/-- A number that breaks off lacks a digit, and not a delimiter. -/
theorem Numeral.BreaksOff.not_mem {cs : List Char} {tokens : List String}
    (h : Numeral.BreaksOff cs tokens) : ")" ∉ tokens ∧ "'" ∉ tokens := by
  cases h <;> decide

/-- A whole literal may go on with more digits, if with anything. -/
theorem Form.not_mem_moreTokens (form : Form) :
    ")" ∉ form.moreTokens ∧ "'" ∉ form.moreTokens := by
  cases form with
  | int numeral => exact numeral.not_mem_moreTokens
  | _ => simp [moreTokens]

/-- A text breaks off in one way. -/
theorem Form.BreaksOff.unique {cs : List Char} {failure failure' : Failure}
    (h : BreaksOff cs failure) (h' : BreaksOff cs failure') : failure = failure' := by
  have hread := read_of_breaksOff h
  rw [read_of_breaksOff h'] at hread
  exact (Except.error.inj hread).symm

/-- Such a text breaks off, and the first token that is expected is the parenthesis. -/
theorem StopsBeforeParenthesis.exists_breaksOff {cs : List Char} (h : StopsBeforeParenthesis cs) :
    ∃ tokens, BreaksOff cs ⟨0, ")" :: tokens⟩ := by
  cases h with
  | privKey hvalid hends hclose => exact ⟨_, .privKeyOpen hvalid hends hclose⟩
  | tagged hkind hdigits hclose =>
    rw [List.append_assoc]
    exact ⟨_, .taggedOpen hkind hdigits hclose⟩

/-- Such a text breaks off, and a quote or a digit is expected. -/
theorem StopsInBytes.exists_breaksOff {cs : List Char} (h : StopsInBytes cs) :
    ∃ position, BreaksOff cs ⟨position, "'" :: Numeral.hexTokens⟩ := by
  cases h with
  | bytes hdigits hrest => exact ⟨_, .bytes hdigits hrest⟩
  | tagged hkind hdigits hrest =>
    rw [List.append_assoc]
    exact ⟨_, .tagged hkind (.inside hdigits hrest)⟩

/-- **A closing parenthesis is expected** where a constructor is to be closed, and nowhere else. -/
theorem expects_parenthesis_iff {cs : List Char} {failure : Failure} (h : BreaksOff cs failure) :
    ")" ∈ failure.expected ↔ StopsBeforeParenthesis cs := by
  constructor
  · intro hmem
    cases h with
    | privKeyOpen hvalid hends hclose => exact .privKey hvalid hends hclose
    | taggedOpen hkind hdigits hclose =>
      have hstops := StopsBeforeParenthesis.tagged hkind hdigits hclose
      rwa [List.append_assoc] at hstops
    -- wherever else a text breaks off, another token is expected
    | @after form => exact absurd hmem form.not_mem_moreTokens.1
    | privKey hrest => exact absurd hmem hrest.not_mem.1
    | @tagged _ _ tokens _ hrest =>
      have hother : ")" ∉ tokens := by cases hrest <;> decide
      exact absurd hmem hother
    | _ => exact absurd hmem (by decide)
  · intro hstops
    obtain ⟨tokens, h'⟩ := hstops.exists_breaksOff
    rw [h.unique h']
    exact List.mem_cons_self

/-- **A closing quote is expected** where a byte string may be closed, and nowhere else. -/
theorem expects_quote_iff {cs : List Char} {failure : Failure} (h : BreaksOff cs failure) :
    "'" ∈ failure.expected ↔ StopsInBytes cs := by
  constructor
  · intro hmem
    cases h with
    | bytes hdigits hrest => exact .bytes hdigits hrest
    | tagged hkind hrest =>
      cases hrest with
      | start =>
        have hother : "'" ∉ ["b'"] := by decide
        exact absurd hmem hother
      | inside hdigits hrest =>
        have hstops := StopsInBytes.tagged hkind hdigits hrest
        rwa [List.append_assoc] at hstops
    -- wherever else a text breaks off, another token is expected
    | @after form => exact absurd hmem form.not_mem_moreTokens.2
    | @privKeyOpen numeral =>
      rcases List.mem_cons.1 hmem with heq | hmem
      · exact absurd heq (by decide)
      · exact absurd hmem numeral.not_mem_moreTokens.2
    | privKey hrest => exact absurd hmem hrest.not_mem.2
    | _ => exact absurd hmem (by decide)
  · intro hstops
    obtain ⟨position, h'⟩ := hstops.exists_breaksOff
    rw [h.unique h']
    exact List.mem_cons_self

/-! ### Delimiters of a text -/

/-- A byte string is opened by a `b` and the quote next to it, wherever they stand. -/
theorem opensBytes_iff {cs : List Char} :
    Diagnostic.opensBytes cs = true ↔ ['b', '\''] <:+: cs := by
  induction cs with
  | nil => simp [Diagnostic.opensBytes]
  | cons c rest ih =>
    rw [Diagnostic.opensBytes, Bool.or_eq_true, ih, List.infix_cons_iff]
    refine or_congr_left ?_
    cases rest with
    | nil => simp
    | cons d rest => simp [List.cons_prefix_cons, @eq_comm _ c, @eq_comm _ d]

/-- A text that breaks off before a closing parenthesis has an open one. -/
theorem StopsBeforeParenthesis.mem {cs : List Char} (h : StopsBeforeParenthesis cs) : '(' ∈ cs := by
  cases h with
  | privKey => exact List.mem_append_left _ (by decide)
  | tagged => exact List.mem_append_left _ (List.mem_append_right _ (by decide))

/-- A text that breaks off in a byte string has opened it. -/
theorem StopsInBytes.opens {cs : List Char} (h : StopsInBytes cs) : ['b', '\''] <:+: cs := by
  cases h with
  | @bytes digits rest => exact ⟨[], digits ++ rest, rfl⟩
  | @tagged kind digits rest =>
    have hword : "(b'".toList = ['('] ++ ['b', '\''] := rfl
    exact ⟨kind.name.toList ++ ['('], digits ++ rest, by simp only [hword, List.append_assoc]⟩

/-- A constructor seems to be open where parentheses do not balance or the text breaks off before a
    closing one. -/
theorem missesParenthesis_iff {cs : List Char} {failure : Failure} (h : BreaksOff cs failure) :
    Diagnostic.missesParenthesis cs failure = true ↔
      cs.count ')' < cs.count '(' ∨ StopsBeforeParenthesis cs := by
  rw [Diagnostic.missesParenthesis, Bool.or_eq_true, Bool.and_eq_true, decide_eq_true_iff,
    List.contains_iff_mem, List.contains_iff_mem, expects_parenthesis_iff h]
  exact or_congr_right ⟨fun h => h.2, fun h => ⟨h.mem, h⟩⟩

/-- A byte string seems to be open where one was opened and quotes do not balance, or the text
    breaks off in it. -/
theorem missesQuote_iff {cs : List Char} {failure : Failure} (h : BreaksOff cs failure) :
    Diagnostic.missesQuote cs failure = true ↔
      ['b', '\''] <:+: cs ∧ cs.count '\'' % 2 = 1 ∨ StopsInBytes cs := by
  rw [Diagnostic.missesQuote, Bool.and_eq_true, Bool.or_eq_true, opensBytes_iff, beq_iff_eq,
    List.contains_iff_mem, expects_quote_iff h]
  constructor
  · rintro ⟨hopens, hodd | hstops⟩
    · exact .inl ⟨hopens, hodd⟩
    · exact .inr hstops
  · rintro (⟨hopens, hodd⟩ | hstops)
    · exact ⟨hopens, .inl hodd⟩
    · exact ⟨hstops.opens, .inr hstops⟩

/-! ### Texts that are no literals -/

/-- **A text that is no literal** breaks off, or it has the form of one that denotes nothing. -/
theorem Literal.ofText_eq_error_iff {text : String} {d : Diagnostic} :
    Literal.ofText text = .error d ↔
      (∃ failure, BreaksOff (Text.trim text.toList) failure
          ∧ d = .ofFailure (Text.trimmed text) failure)
        ∨ ∃ form : Form, form.IsValid ∧ Text.trim text.toList = form.text
          ∧ form.literal (Text.trimmed text) = .error d := by
  have hsource : (Text.trimmed text).toList = Text.trim text.toList := String.toList_ofList
  rw [Literal.ofText, hsource]
  -- either no form is read, or the form that is read is no literal
  constructor
  · intro h
    split at h
    · rename_i form hread
      obtain ⟨hvalid, htext⟩ := Form.read_eq_ok_iff.1 hread
      exact .inr ⟨form, hvalid, htext, h⟩
    · rename_i failure hread
      exact .inl ⟨failure, Form.read_eq_error_iff.1 hread, (Except.error.inj h).symm⟩
  · rintro (⟨failure, hbreaks, hd⟩ | ⟨form, hvalid, htext, h⟩)
    · rw [read_of_breaksOff hbreaks, hd]
    · rw [Form.read_eq_ok_iff.2 ⟨hvalid, htext⟩]
      exact h

/-! ### Forms that denote nothing -/

/-- A byte takes two digits. -/
theorem WrittenBytes.length_eq {cs : List Char} {data : Bytes} (h : WrittenBytes cs data) :
    cs.length = 2 * data.length := by
  induction h with
  | nil => rfl
  | cons _ _ _ ih =>
    simp only [List.length_cons, ih]
    omega

/-- An even number of digits denotes a byte string. -/
theorem exists_writtenBytes : ∀ {cs : List Char}, (∀ c ∈ cs, Hex.isDigit c = true) →
    cs.length % 2 = 0 → ∃ data, WrittenBytes cs data
  | [], _, _ => ⟨[], .nil⟩
  | [_], _, heven => by simp at heven
  | high :: low :: rest, hdigits, heven => by
    obtain ⟨h, hhigh⟩ := Option.isSome_iff_exists.1 (hdigits high (by simp))
    obtain ⟨l, hlow⟩ := Option.isSome_iff_exists.1 (hdigits low (by simp))
    have hrest : rest.length % 2 = 0 := by
      simp only [List.length_cons] at heven
      omega
    obtain ⟨data, hdata⟩ := exists_writtenBytes (fun c hc => hdigits c (by simp [hc])) hrest
    exact ⟨_, .cons hhigh hlow hdata⟩

/-- Digits denote nothing iff they are odd in number. -/
theorem Form.data_eq_error_iff {source : String} {start : Nat} {digits : List Char} {d : Diagnostic}
    (hdigits : ∀ c ∈ digits, Hex.isDigit c = true) :
    Form.data source start digits = .error d ↔
      digits.length % 2 = 1 ∧ d = .oddHexLength source ⟨start, start + digits.length⟩ := by
  rcases Nat.mod_two_eq_zero_or_one digits.length with heven | hodd
  · obtain ⟨data, hdata⟩ := exists_writtenBytes hdigits heven
    rw [Form.data_eq_ok_iff.2 hdata]
    simp [heven]
  · have hnone : Hex.decode? digits = none := by
      rw [Option.eq_none_iff_forall_ne_some]
      intro data hdata
      have hlength := (writtenBytes_iff.2 hdata).length_eq
      omega
    simp [Form.data, hnone, hodd, @eq_comm _ d]

/-- A plain byte string is refused for an odd number of digits, and for nothing else. The span is
    that of the digits. -/
theorem Form.literal_bytes_eq_error_iff {source : String} {digits : List Char} {d : Diagnostic}
    (hdigits : ∀ c ∈ digits, Hex.isDigit c = true) :
    (Form.bytes digits).literal source = .error d ↔
      digits.length % 2 = 1 ∧ d = .oddHexLength source ⟨2, 2 + digits.length⟩ := by
  simp only [Form.literal, bind_eq_error_iff, Form.data_eq_error_iff hdigits, pure, Except.pure,
    reduceCtorEq, and_false, exists_false, or_false]

/-- A byte string in a constructor denotes nothing iff its digits are odd in number or it is a
    signature flag of another number of bytes than one. -/
theorem Form.literal_tagged_eq_error_iff {source : String} {kind : Kind} {digits : List Char}
    {d : Diagnostic} (hdigits : ∀ c ∈ digits, Hex.isDigit c = true) :
    (Form.tagged kind digits).literal source = .error d ↔
      digits.length % 2 = 1 ∧ d = .oddHexLength source
          ⟨kind.name.length + 1 + 2, kind.name.length + 1 + 2 + digits.length⟩
        ∨ kind = .sigHashType ∧ digits.length % 2 = 0 ∧ digits.length ≠ 2
          ∧ d = .oversizedSigHashFlag source ⟨12, 12 + digits.length + 3⟩ := by
  simp only [Form.literal, bind_eq_error_iff, Form.data_eq_error_iff hdigits]
  -- an odd number of digits fails for every kind, and a flag fails for its length too
  refine or_congr_right ⟨?_, ?_⟩
  · rintro ⟨data, hdata, h⟩
    have hlength := (Form.data_eq_ok_iff.1 hdata).length_eq
    split at h
    · rename_i hkind
      subst hkind
      split at h
      · cases h
      · rename_i hflag
        cases h
        refine ⟨rfl, by omega, fun htwo => ?_, rfl⟩
        -- two digits would have been one byte
        have hone : data.length = 1 := by omega
        obtain ⟨flag, rfl⟩ := List.length_eq_one_iff.1 hone
        exact hflag flag rfl
    · cases h
  · rintro ⟨rfl, heven, htwo, hd⟩
    obtain ⟨data, hdata⟩ := exists_writtenBytes hdigits heven
    have hlength := hdata.length_eq
    refine ⟨data, Form.data_eq_ok_iff.2 hdata, ?_⟩
    rw [if_pos rfl, hd]
    split
    · exact absurd hlength htwo
    · rfl

/-! ### Forms are closed -/

/-- A numeral is made of digits, a sign and the mark of hexadecimal digits. -/
theorem Numeral.mem_text {numeral : Numeral} (h : numeral.IsValid) :
    ∀ c ∈ numeral.text, Hex.isDigit c = true ∨ c = '-' ∨ c = 'x' := by
  -- a decimal digit is a hexadecimal one
  have hdecimal : ∀ c : Char, c.isDigit = true → Hex.isDigit c = true := by
    intro c hc
    obtain ⟨d, hdigit, -⟩ := isDigit_iff.1 hc
    exact Option.isSome_iff_exists.2 ⟨d, hdigit⟩
  cases numeral with
  | decimal negative digits =>
    cases negative with
    | false => exact fun c hc => .inl (hdecimal c (h.2 c hc))
    | true =>
      intro c hc
      rcases List.mem_cons.1 hc with rfl | hc
      · exact .inr (.inl rfl)
      · exact .inl (hdecimal c (h.2 c hc))
  | hexadecimal digits =>
    intro c hc
    rcases List.mem_cons.1 hc with rfl | hc
    · exact .inl (by decide)
    · rcases List.mem_cons.1 hc with rfl | hc
      · exact .inr (.inr rfl)
      · exact .inl (h.2 c hc)

/-- The delimiters of literals. -/
def delimiters : List Char := ['(', ')', '\'']

/-- No delimiter is among digits. -/
theorem count_digits {digits : List Char} (h : ∀ c ∈ digits, Hex.isDigit c = true) {d : Char}
    (hd : d ∈ delimiters) : digits.count d = 0 := by
  have hdelimiters : ∀ d ∈ delimiters, Hex.isDigit d = false :=
    List.all_iff_forall_prop.1 (by decide)
  rw [List.count_eq_zero]
  intro hmem
  exact absurd (h d hmem) (by simp [hdelimiters d hd])

/-- No delimiter stands in a number. -/
theorem Numeral.count_text {numeral : Numeral} (h : numeral.IsValid) {d : Char}
    (hd : d ∈ delimiters) : numeral.text.count d = 0 := by
  have hdelimiters : ∀ d ∈ delimiters, ¬ (Hex.isDigit d = true ∨ d = '-' ∨ d = 'x') :=
    List.all_iff_forall_prop.1 (by decide)
  rw [List.count_eq_zero]
  intro hmem
  exact hdelimiters d hd (Numeral.mem_text h d hmem)

/-- **In the text of a form** all delimiters are closed. -/
theorem Form.closed_text {form : Form} (h : form.IsValid) :
    form.text.count ')' = form.text.count '(' ∧ form.text.count '\'' % 2 = 0 := by
  -- the delimiters of a literal are the ones of its form, as its digits and names have none
  have hopen : '(' ∈ delimiters := by decide
  have hclose : ')' ∈ delimiters := by decide
  have hquote : '\'' ∈ delimiters := by decide
  cases form with
  | bool b => cases b <;> decide
  | int numeral =>
    show numeral.text.count ')' = numeral.text.count '(' ∧ numeral.text.count '\'' % 2 = 0
    simp only [Numeral.count_text h hopen, Numeral.count_text h hclose,
      Numeral.count_text h hquote, Nat.zero_mod, and_self]
  | privKey numeral =>
    have hcount (d : Char) (hd : d ∈ delimiters) :
        (Form.privKey numeral).text.count d = "PrivKey(".toList.count d + [')'].count d := by
      show ("PrivKey(".toList ++ (numeral.text ++ [')'])).count d = _
      rw [List.count_append, List.count_append, Numeral.count_text h hd, Nat.zero_add]
    rw [hcount _ hopen, hcount _ hclose, hcount _ hquote]
    decide
  | bytes digits =>
    have hcount (d : Char) (hd : d ∈ delimiters) :
        (Form.bytes digits).text.count d = ['b', '\''].count d + ['\''].count d := by
      show (['b', '\''] ++ (digits ++ ['\''])).count d = _
      rw [List.count_append, List.count_append, count_digits h hd, Nat.zero_add]
    rw [hcount _ hopen, hcount _ hclose, hcount _ hquote]
    decide
  | tagged kind digits =>
    have hnames : ∀ kind ∈ taggedKinds,
        (delimiters.all fun d => kind.name.toList.count d = 0) = true := by
      decide
    have hname := List.all_iff_forall_prop.1 (hnames kind h.1)
    have hcount (d : Char) (hd : d ∈ delimiters) :
        (Form.tagged kind digits).text.count d
          = ['(', 'b', '\''].count d + ['\'', ')'].count d := by
      show (kind.name.toList ++ (['(', 'b', '\''] ++ (digits ++ ['\'', ')']))).count d = _
      rw [List.count_append, List.count_append, List.count_append, hname d hd,
        count_digits h.2 hd, Nat.zero_add, Nat.zero_add]
    rw [hcount _ hopen, hcount _ hclose, hcount _ hquote]
    decide

/-! ### Diagnoses of open delimiters -/

/-- A form that denotes nothing has another diagnosis. -/
theorem Form.diagnosis_of_literal {form : Form} (hvalid : form.IsValid) {source : String}
    {d : Diagnostic} (h : form.literal source = .error d) :
    d.diagnosis = .oddHexLength ∨ d.diagnosis = .oversizedSigHashFlag := by
  cases form with
  | bytes digits =>
    obtain ⟨-, hd⟩ := (Form.literal_bytes_eq_error_iff hvalid).1 h
    exact .inl (by rw [hd]; rfl)
  | tagged kind digits =>
    rcases (Form.literal_tagged_eq_error_iff hvalid.2).1 h with ⟨-, hd⟩ | ⟨-, -, -, hd⟩
    · exact .inl (by rw [hd]; rfl)
    · exact .inr (by rw [hd]; rfl)
  | _ => cases h

/-- The text of a form does not break off. -/
theorem Form.not_breaksOff_text {form : Form} (h : form.IsValid) (failure : Failure) :
    ¬ BreaksOff form.text failure := by
  intro hbreaks
  have hread := read_of_breaksOff hbreaks
  rw [read_text h] at hread
  cases hread

@[simp] theorem Diagnostic.source_ofFailure (source : String) (failure : Failure) :
    (Diagnostic.ofFailure source failure).source = source := by
  unfold Diagnostic.ofFailure
  split_ifs <;> rfl

/-- **A diagnostic is about the text** without the blanks around it. -/
theorem Diagnostic.source_eq {text : String} {d : Diagnostic}
    (h : Literal.ofText text = .error d) : d.source = Text.trimmed text := by
  rcases Literal.ofText_eq_error_iff.1 h with ⟨failure, -, hd⟩ | ⟨form, hvalid, -, hform⟩
  · rw [hd, Diagnostic.source_ofFailure]
  · -- only forms with digits in quotes can fail
    cases form with
    | bytes digits =>
      obtain ⟨-, hd⟩ := (Form.literal_bytes_eq_error_iff hvalid).1 hform
      rw [hd]
      rfl
    | tagged kind digits =>
      rcases (Form.literal_tagged_eq_error_iff hvalid.2).1 hform with ⟨-, hd⟩ | ⟨-, -, -, hd⟩
      · rw [hd]
        rfl
      · rw [hd]
        rfl
    | _ => cases hform

/-- **What the two diagnoses say.** A text that is no literal is reported as an open constructor iff
    fewer parentheses close than open or it breaks off where the parenthesis of a constructor is to
    be closed. Of the others, a text is reported as an open byte string iff one is opened and quotes
    are odd in number, or it breaks off where the digits of a byte string end. -/
theorem diagnosis_iff_delimiters {text : String} {d : Diagnostic}
    (h : Literal.ofText text = .error d) :
    (d.diagnosis = .unclosedConstructor ↔
        d.source.toList.count ')' < d.source.toList.count '('
          ∨ StopsBeforeParenthesis d.source.toList)
      ∧ (d.diagnosis = .unterminatedBytes ↔
        ¬ (d.source.toList.count ')' < d.source.toList.count '('
            ∨ StopsBeforeParenthesis d.source.toList)
          ∧ (['b', '\''] <:+: d.source.toList ∧ d.source.toList.count '\'' % 2 = 1
            ∨ StopsInBytes d.source.toList)) := by
  have hsource : d.source.toList = Text.trim text.toList := by
    rw [Diagnostic.source_eq h, Text.trimmed, String.toList_ofList]
  rw [hsource]
  rcases Literal.ofText_eq_error_iff.1 h with ⟨failure, hbreaks, hd⟩ | ⟨form, hvalid, htext, hform⟩
  · rw [← missesParenthesis_iff hbreaks, ← missesQuote_iff hbreaks, hd, Diagnostic.ofFailure,
      Text.trimmed, String.toList_ofList]
    split_ifs with hparenthesis hquote
    · simp [Diagnostic.unclosedConstructor, hparenthesis]
    · simp [Diagnostic.unterminatedBytes, hparenthesis, hquote]
    · simp [Diagnostic.unclassified, hparenthesis, hquote]
  · -- a form is closed, and does not break off
    obtain ⟨hparentheses, hquotes⟩ := Form.closed_text hvalid
    have hclosed : ¬ (form.text.count ')' < form.text.count '('
        ∨ StopsBeforeParenthesis form.text) := by
      rintro (hopen | hstops)
      · omega
      · obtain ⟨_, hbreaks⟩ := hstops.exists_breaksOff
        exact Form.not_breaksOff_text hvalid _ hbreaks
    have hquoted : ¬ (['b', '\''] <:+: form.text ∧ form.text.count '\'' % 2 = 1
        ∨ StopsInBytes form.text) := by
      rintro (⟨-, hodd⟩ | hstops)
      · omega
      · obtain ⟨_, hbreaks⟩ := hstops.exists_breaksOff
        exact Form.not_breaksOff_text hvalid _ hbreaks
    rw [htext, iff_false_right hclosed, and_iff_right hclosed, iff_false_right hquoted]
    rcases Form.diagnosis_of_literal hvalid hform with hd | hd <;> simp [hd]

/-- A constructor without its parenthesis is reported as open, with the blanks around it left
    out. -/
theorem diagnosis_iff_delimiters_open :
    Literal.ofText " Sig(b'00' " = .error (.unclosedConstructor "Sig(b'00'")
      ∧ ("Sig(b'00'".toList.count ')' < "Sig(b'00'".toList.count '('
        ∨ StopsBeforeParenthesis "Sig(b'00'".toList) := by
  have h : Literal.ofText " Sig(b'00' " = .error (.unclosedConstructor "Sig(b'00'") := by
    decide +kernel
  exact ⟨h, (diagnosis_iff_delimiters h).1.1 rfl⟩

/-- A byte string that is closed after a wrong digit is reported as open, and so is a constructor
    that is closed after a wrong character. -/
theorem diagnosis_of_closed_delimiters :
    Literal.ofText "b'0g'" = .error (.unterminatedBytes "b'0g'")
      ∧ "b'0g'".toList.count '\'' = 2
      ∧ Literal.ofText "PrivKey(1.0)" = .error (.unclosedConstructor "PrivKey(1.0)")
      ∧ "PrivKey(1.0)".toList.count '(' = "PrivKey(1.0)".toList.count ')' := by
  decide +kernel

end ScriptAbi
