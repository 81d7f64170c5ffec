import ScriptAbi.Proofs.Literal.Grammar
import ScriptAbi.Proofs.Slot.Name
import ScriptAbi.Proofs.Text.Decimal

namespace ScriptAbi

/-!
# Values read back from their literals

* `WrittenLiteral.isWord`: no blank stands in a literal.
* `Literal.StandsFor`, `ofLiteral_eq_ok_iff`: the scalar that a literal stands for.
* `exists_written_literal`: the text that shows a scalar is a literal of its kind.
* `ofText_literal`: it is read back as the scalar, and so is what shows a value that was read from
  any text.
-/

/-! ### Literals are words -/

theorem isBlank_of_digit? {c : Char} {d : Nat} (h : Hex.digit? c = some d) :
    Text.isBlank c = false := by
  rw [digit?_eq_some_iff] at h
  exact isBlank_of_toNat (by omega) (by omega)

/-- A number is a word. -/
theorem WrittenNat.isWord {base : Nat} {cs : List Char} {n : Nat} (h : WrittenNat base cs n) :
    Text.IsWord cs := by
  induction h with
  | single hdigit => exact ⟨by simp, by simpa using isBlank_of_digit? hdigit⟩
  | snoc _ hdigit _ ih =>
    refine ⟨by simp, List.forall_mem_append.2 ⟨ih.2, ?_⟩⟩
    simpa using isBlank_of_digit? hdigit

/-- So is one with a sign. -/
theorem WrittenInt.isWord {cs : List Char} {n : Int} (h : WrittenInt cs n) : Text.IsWord cs := by
  cases h with
  | decimal h => exact h.isWord
  | negative h => exact ⟨by simp, List.forall_mem_cons.2 ⟨by decide, h.isWord.2⟩⟩
  | hexadecimal h =>
    exact ⟨by simp, List.forall_mem_cons.2 ⟨by decide, List.forall_mem_cons.2
      ⟨by decide, h.isWord.2⟩⟩⟩

/-- No blank stands between the digits of bytes. -/
theorem WrittenBytes.isBlank {cs : List Char} {data : Bytes} (h : WrittenBytes cs data) :
    ∀ c ∈ cs, Text.isBlank c = false := by
  intro c hc
  obtain ⟨d, hd⟩ := Option.isSome_iff_exists.1 (h.isDigit c hc)
  exact isBlank_of_digit? hd

/-- What a constructor opens with is a word. -/
theorem isWord_opening (k : BytesKind) : Text.IsWord (k.name.toList ++ "(b'".toList) := by
  cases k <;> decide

/-- **No blank stands in a literal.** -/
theorem WrittenLiteral.isWord {cs : List Char} {kind : Kind} {datum : Datum}
    (h : WrittenLiteral cs kind datum) : Text.IsWord cs := by
  cases h with
  | true => decide
  | false => decide
  | int h => exact h.isWord
  | privKey h => exact .between (by decide) h.isWord.2 (by decide)
  | bytes h => exact .between (by decide) h.isBlank (by decide)
  | @tagged k _ _ _ h => exact .between (isWord_opening k) h.isBlank (by decide)
  | sigHashType h => exact .between (by decide) h.isBlank (by decide)

/-! ### What shows numbers and byte strings -/

/-- The decimal digits of a number denote it. -/
theorem writtenNat_toDigits (n : Nat) : WrittenNat 10 (Nat.toDigits 10 n) n := by
  refine writtenNat_decimal_iff.2 ⟨⟨Nat.toDigits_ne_nil, fun _ => isDigit_of_mem_toDigits⟩, ?_⟩
  rw [Text.natOfDigits, Nat.ofDigitChars_toDigits (by decide) (by decide)]

/-- A number is written as it is printed. -/
theorem writtenInt_toString (n : Int) : WrittenInt (toString n).toList n := by
  cases n with
  | ofNat n =>
    rw [toList_toString_ofNat]
    exact .decimal (writtenNat_toDigits n)
  | negSucc n =>
    rw [toList_toString_negSucc]
    exact .negative (writtenNat_toDigits (n + 1))

/-- The digits of bytes, the last byte first, denote the number whose bytes they are. -/
theorem writtenNat_digits_reverse {bytes : Bytes} (hne : bytes ≠ []) :
    WrittenNat 16 (Hex.digits bytes.reverse) (ofLittleEndian bytes) := by
  induction bytes with
  | nil => contradiction
  | cons byte rest ih =>
    have hbyte : byte.toNat < 256 := byte.toNat_lt
    have hhigh := Hex.digit?_digitChar (show byte.toNat / 16 < 16 by omega)
    have hlow := Hex.digit?_digitChar (show byte.toNat % 16 < 16 by omega)
    have hdigits : Hex.digits (byte :: rest).reverse
        = (Hex.digits rest.reverse ++ [Nat.digitChar (byte.toNat / 16)])
          ++ [Nat.digitChar (byte.toNat % 16)] := by
      simp [Hex.digits, Hex.digitsOf]
    rw [hdigits]
    -- the first byte is the low one; where no byte is above it, its high digit is the first
    by_cases hrest : rest = []
    · subst hrest
      have hwritten : WrittenNat 16 ([Nat.digitChar (byte.toNat / 16)]
          ++ [Nat.digitChar (byte.toNat % 16)]) (16 * (byte.toNat / 16) + byte.toNat % 16) :=
        (WrittenNat.single hhigh (by omega)).snoc hlow (by omega)
      rwa [Nat.div_add_mod] at hwritten
    · have hwritten := ((ih hrest).snoc hhigh (by omega)).snoc hlow (by omega)
      have hvalue : 16 * (16 * ofLittleEndian rest + byte.toNat / 16) + byte.toNat % 16
          = ofLittleEndian (byte :: rest) := by
        rw [ofLittleEndian_cons]
        omega
      rwa [hvalue] at hwritten

/-- The hexadecimal digits of a number denote it. -/
theorem writtenNat_bigEndian (n : Nat) :
    WrittenNat 16 (Hex.digits (Value.bigEndian n)) n := by
  by_cases hn : n = 0
  · subst hn
    exact writtenNat_digits_reverse (List.cons_ne_nil 0 [])
  · have hne : littleEndian n ≠ [] := by
      unfold littleEndian
      simp [hn]
    have hwritten := writtenNat_digits_reverse hne
    rwa [ofLittleEndian_littleEndian, ← show Value.bigEndian n = (littleEndian n).reverse from
      if_neg hn] at hwritten

/-- Bytes are printed as their digits. -/
theorem toList_encode (data : Bytes) : (Hex.encode data).toList = Hex.digits data :=
  String.toList_ofList

/-- Bytes are written as they are printed. -/
theorem writtenBytes_encode (data : Bytes) : WrittenBytes (Hex.encode data).toList data := by
  rw [toList_encode]
  exact writtenBytes_iff.2 (Hex.decode?_digits data)

/-! ### Scalars -/

/-- A key is written as the number that it is, in decimal if it is negative. -/
theorem written_privKey (n : Int) :
    WrittenLiteral (Value.privKey n).literal.toList .privKey (.int n) := by
  -- a key below zero is printed in decimal digits, any other in the bytes of its number
  by_cases hn : n < 0
  · have htext : (Value.privKey n).literal.toList
        = "PrivKey(".toList ++ (toString n).toList ++ ")".toList := by
      rw [Value.literal, if_pos hn, String.toList_append, String.toList_append]
    rw [htext]
    exact .privKey (writtenInt_toString n)
  · have htext : (Value.privKey n).literal.toList
        = "PrivKey(".toList ++ ('0' :: 'x' :: Hex.digits (Value.bigEndian n.toNat))
          ++ ")".toList := by
      rw [Value.literal, if_neg hn, String.toList_append, String.toList_append, toList_encode]
      rfl
    have hwritten := WrittenInt.hexadecimal (writtenNat_bigEndian n.toNat)
    rw [Int.toNat_of_nonneg (by omega)] at hwritten
    rw [htext]
    exact .privKey hwritten

/-- A flag is written as it is printed, with its one byte in hexadecimal digits. -/
theorem written_sigHashType (flag : UInt8) :
    WrittenLiteral (Value.sigHashType flag).literal.toList .sigHashType (.int flag.toNat) := by
  have htext : (Value.sigHashType flag).literal.toList
      = "SigHashType(b'".toList ++ (Hex.encode [flag]).toList ++ "')".toList := by
    rw [Value.literal, String.toList_append, String.toList_append, String.toList_append]
    rfl
  rw [htext]
  exact .sigHashType (writtenBytes_encode [flag])

/-- A byte string is written with the name of its kind, unless it is plain. -/
theorem written_bytes (kind : BytesKind) (data : Bytes) :
    WrittenLiteral (Value.bytes kind data).literal.toList (.bytes kind) (.bytes data) := by
  -- plain bytes have no constructor
  by_cases hkind : kind = .plain
  · subst hkind
    have htext : (Value.bytes .plain data).literal.toList
        = "b'".toList ++ (Hex.encode data).toList ++ "'".toList := by
      rw [Value.literal, String.toList_append, String.toList_append]
    rw [htext]
    exact .bytes (writtenBytes_encode data)
  · have htext : (Value.bytes kind data).literal.toList
        = kind.name.toList ++ "(b'".toList ++ (Hex.encode data).toList ++ "')".toList := by
      rw [Value.literal, String.toList_append, String.toList_append, String.toList_append]
      exact hkind
    rw [htext]
    exact .tagged hkind (writtenBytes_encode data)

/-! ### What a literal stands for -/

/-- The scalar that a literal stands for: it has the literal's kind, and holds its datum. -/
inductive Literal.StandsFor : Literal → Value → Prop
  | bool (b : Bool) : StandsFor ⟨.bool, .bool b⟩ (.bool b)
  | int (n : Int) : StandsFor ⟨.int, .int n⟩ (.int n)
  | privKey (n : Int) : StandsFor ⟨.privKey, .int n⟩ (.privKey n)
  /-- A flag is a number of one byte. -/
  | sigHashType (flag : UInt8) : StandsFor ⟨.sigHashType, .int flag.toNat⟩ (.sigHashType flag)
  | bytes (kind : BytesKind) (data : Bytes) :
      StandsFor ⟨.bytes kind, .bytes data⟩ (.bytes kind data)

/-- **A literal stands for one scalar at most**, and for none if its kind does not have its datum. -/
theorem ofLiteral_eq_ok_iff {literal : Literal} {value : Value} :
    Value.ofLiteral literal = .ok value ↔ literal.StandsFor value := by
  constructor
  · intro h
    obtain ⟨kind, datum⟩ := literal
    cases datum with
    | bool b =>
      cases kind <;> cases h
      exact .bool b
    | int n =>
      cases kind with
      | int => cases h; exact .int n
      | privKey => cases h; exact .privKey n
      | sigHashType =>
        simp only [Value.ofLiteral] at h
        split_ifs at h with hflag
        cases h
        -- the number is that of its byte
        obtain ⟨m, rfl⟩ := Int.eq_ofNat_of_zero_le hflag.1
        have hlt : m < UInt8.size := Int.ofNat_lt.1 hflag.2
        have hstands := Literal.StandsFor.sigHashType (UInt8.ofNat m)
        rwa [UInt8.toNat_ofNat_of_lt' hlt] at hstands
      | bool | bytes => cases h
    | bytes data =>
      cases kind with
      | bytes kind => cases h; exact .bytes kind data
      | bool | int | privKey | sigHashType => cases h
  · rintro (b | n | n | flag | ⟨kind, data⟩)
    case sigHashType =>
      have hflag : (0 : Int) ≤ flag.toNat ∧ (flag.toNat : Int) < 256 := by
        have := flag.toNat_lt
        omega
      dsimp only [Value.ofLiteral]
      rw [if_pos hflag, Int.toNat_natCast, UInt8.ofNat_toNat]
    all_goals rfl

/-- **What shows a scalar** is a literal of its kind, which stands for the scalar. -/
theorem exists_written_literal {value : Value} {kind : Kind} (h : value.kind? = some kind) :
    ∃ datum, WrittenLiteral value.literal.toList kind datum
      ∧ Value.ofLiteral ⟨kind, datum⟩ = .ok value := by
  -- what a literal stands for is known by cases, and so is how a scalar is printed
  simp only [ofLiteral_eq_ok_iff]
  cases value with
  | bool b =>
    cases h
    cases b
    · exact ⟨_, .false, .bool false⟩
    · exact ⟨_, .true, .bool true⟩
  | int n =>
    cases h
    exact ⟨_, .int (writtenInt_toString n), .int n⟩
  | privKey n =>
    cases h
    exact ⟨_, written_privKey n, .privKey n⟩
  | sigHashType flag =>
    cases h
    exact ⟨_, written_sigHashType flag, .sigHashType flag⟩
  | bytes k data =>
    cases h
    exact ⟨_, written_bytes k data, .bytes k data⟩
  | struct | array => contradiction

/-- What a literal stands for is a scalar of its kind. -/
theorem kind?_of_ofLiteral {literal : Literal} {value : Value}
    (h : Value.ofLiteral literal = .ok value) : value.kind? = some literal.kind := by
  cases ofLiteral_eq_ok_iff.1 h <;> rfl

/-! ### The round trip -/

/-- A text that is written for a scalar is read as it. -/
theorem ofText_eq_of_written {text : String} {value : Value} {kind : Kind} {datum : Datum}
    (h : WrittenLiteral text.toList kind datum) (hvalue : Value.ofLiteral ⟨kind, datum⟩ = .ok value) :
    Value.ofText text = .ok value := by
  have hliteral : Literal.ofText text = .ok ⟨kind, datum⟩ := by
    rw [Literal.ofText_eq_ok_iff, Text.trim_of_isWord h.isWord]
    exact h
  rw [Value.ofText, hliteral]
  exact hvalue

/-- **Values are read back from their literals.** What shows a scalar is read as that scalar. So any
    text that is read as a value may be replaced by what shows the value. -/
theorem ofText_literal :
    (∀ value : Value, value.kind?.isSome → Value.ofText value.literal = .ok value)
    ∧ ∀ text value, Value.ofText text = .ok value → Value.ofText value.literal = .ok value := by
  have hscalar (value : Value) (h : value.kind?.isSome) : Value.ofText value.literal = .ok value := by
    obtain ⟨kind, hkind⟩ := Option.isSome_iff_exists.1 h
    obtain ⟨datum, hwritten, hvalue⟩ := exists_written_literal hkind
    exact ofText_eq_of_written hwritten hvalue
  -- what a text is read as comes from a literal, and literals stand for scalars only
  refine ⟨hscalar, fun text value h => hscalar value ?_⟩
  rw [Value.ofText] at h
  split at h
  · rename_i literal _
    rw [kind?_of_ofLiteral h]
    rfl
  · contradiction

/-- A key, and a number that is shown otherwise than it was written. -/
theorem ofText_literal_key :
    (Value.privKey 300).kind?.isSome
    ∧ Value.ofText (Value.privKey 300).literal = .ok (.privKey 300)
    ∧ Value.ofText " 0x02A" = .ok (.int 42)
    ∧ Value.ofText (Value.int 42).literal = .ok (.int 42) := by
  have hscalar : (Value.privKey 300).kind?.isSome := rfl
  have hread : Value.ofText " 0x02A" = .ok (.int 42) := rfl
  exact ⟨hscalar, ofText_literal.1 _ hscalar, hread, ofText_literal.2 _ _ hread⟩

end ScriptAbi
