import ScriptAbi.Json.Tree
import ScriptAbi.Json.Printer
import ScriptAbi.Proofs.Text.Decimal
import ScriptAbi.Proofs.Text.Words
import Mathlib.Algebra.Group.Int.Defs
import Mathlib.Algebra.Group.Nat.Defs
import Mathlib.Data.List.Basic

namespace ScriptAbi.Json

/-!
# Scanning what was printed

The scanner gives back the tokens that a printer wrote, whatever comes after them.

* `toList_toUTF8`, `fromUTF8?_utf8`: the bytes of a text, and the text of these bytes.
* `Quotes`: a stretch of a string stands for bytes; `quotes_quoteChar` and `quotes_flatMap` say that
  of a character with its escape and of a text.
* `scanToken_quote`, `scanToken_toString`: strings and numbers are scanned whole.
-/

/-! ### Texts as bytes -/

/-- The loop that lists bytes collects them from the given index on. -/
theorem toList_loop (bytes : ByteArray) (i : Nat) (before : Bytes) :
    ByteArray.toList.loop bytes i before = before.reverse ++ bytes.data.toList.drop i := by
  fun_induction ByteArray.toList.loop bytes i before with
  | case1 i before h ih =>
    have hget : bytes.get! i = bytes.data[i] := getElem!_pos bytes.data i h
    have hdrop := List.drop_eq_getElem_cons (show i < bytes.data.toList.length from h)
    rw [ih, hdrop, hget]
    simp
  | case2 i before h => rw [List.drop_eq_nil_of_le (by simpa using h), List.append_nil]

/-- **The bytes of a text** are those of its characters. -/
theorem toList_toUTF8 (text : String) : text.toUTF8.toList = Hex.utf8 text.toList := by
  rw [ByteArray.toList, toList_loop, String.toUTF8_eq_toByteArray, ← String.utf8Encode_toList]
  simp [List.utf8Encode, Hex.utf8]

/-- **The bytes of a text** denote it. -/
theorem fromUTF8?_utf8 (text : String) :
    String.fromUTF8? (ByteArray.mk (Hex.utf8 text.toList).toArray) = some text := by
  have hbytes : ByteArray.mk (Hex.utf8 text.toList).toArray = text.toByteArray := by
    rw [← String.utf8Encode_toList, List.utf8Encode, Hex.utf8]
    exact ByteArray.ext (by simp)
  rw [hbytes, String.fromUTF8?, dif_pos text.isValidUTF8]
  rfl

@[simp] theorem utf8_append (front back : List Char) :
    Hex.utf8 (front ++ back) = Hex.utf8 front ++ Hex.utf8 back :=
  List.flatMap_append

/-- A character of ASCII is one byte. -/
theorem utf8EncodeChar_of_lt {c : Char} (hc : c.toNat < 0x80) :
    String.utf8EncodeChar c = [UInt8.ofNat c.toNat] := by
  unfold String.utf8EncodeChar
  exact if_pos (Nat.le_of_lt_succ hc)

/-- Any other character is made of bytes that are no ASCII. -/
theorem le_of_mem_utf8EncodeChar {c : Char} (hc : 0x80 ≤ c.toNat) :
    ∀ byte ∈ String.utf8EncodeChar c, 0x80 ≤ byte.toNat := by
  have hval : c.val.toNat = c.toNat := rfl
  intro byte hbyte
  unfold String.utf8EncodeChar at hbyte
  dsimp only at hbyte
  split_ifs at hbyte with h₁ h₂ h₃
  · omega
  all_goals
    simp only [List.mem_cons, List.not_mem_nil, or_false] at hbyte
    rcases hbyte with rfl | rfl | rfl | rfl <;> simp only [UInt8.toNat_ofNat'] <;> omega

/-- The bytes of a character that needs no escape need none. -/
theorem plain_of_mem_utf8EncodeChar {c : Char} (hquote : c ≠ '"') (hescape : c ≠ '\\')
    (hcontrol : ¬ c.toNat < 0x20) {byte : UInt8} (h : byte ∈ String.utf8EncodeChar c) :
    byte ≠ 0x22 ∧ byte ≠ 0x5c ∧ ¬ byte < 0x20 := by
  rw [ne_eq, ne_eq, ← UInt8.toNat_inj, ← UInt8.toNat_inj, UInt8.lt_iff_toNat_lt]
  show byte.toNat ≠ 0x22 ∧ byte.toNat ≠ 0x5c ∧ ¬ byte.toNat < 0x20
  -- an ASCII character is its own byte, and the bytes of any other are above ASCII
  by_cases hc : c.toNat < 0x80
  · rw [utf8EncodeChar_of_lt hc, List.mem_singleton] at h
    have hbyte : byte.toNat = c.toNat := by
      rw [h, UInt8.toNat_ofNat']
      omega
    have hself : Char.ofNat c.toNat = c := Char.ofNat_toNat c
    rw [hbyte]
    refine ⟨fun hnat => hquote ?_, fun hnat => hescape ?_, hcontrol⟩
    · rw [← hself, hnat]
    · rw [← hself, hnat]
  · have hbyte := le_of_mem_utf8EncodeChar (by omega) byte h
    omega

/-! ### One step of a string -/

/-- A byte that is neither a quote, nor a backslash, nor a control character stands for itself. -/
theorem scanString_byte {byte : UInt8} (hquote : byte ≠ 0x22) (hescape : byte ≠ 0x5c)
    (hcontrol : ¬ byte < 0x20) (rest : Bytes) :
    scanString (byte :: rest)
      = (scanString rest).map fun (parts, tail) => (.byte byte :: parts, tail) := by
  rw [scanString]
  · simp [hescape, hcontrol]
    cases scanString rest <;> rfl
  all_goals simp_all

/-- A backslash and a letter stand for the byte that the letter denotes. -/
theorem scanString_escape {letter byte : UInt8} (hletter : letter ≠ 0x75)
    (h : escaped? letter = some byte) (rest : Bytes) :
    scanString (0x5c :: letter :: rest)
      = (scanString rest).map fun (parts, tail) => (.byte byte :: parts, tail) := by
  rw [scanString]
  · simp [h]
    cases scanString rest <;> rfl
  all_goals simp_all

/-- A backslash, `u` and four digits stand for a unit. -/
theorem scanString_unit {a b c d : UInt8} {n : Nat} (h : unit? a b c d = some n) (rest : Bytes) :
    scanString (0x5c :: 0x75 :: a :: b :: c :: d :: rest)
      = (scanString rest).map fun (parts, tail) => (.unit n :: parts, tail) := by
  rw [scanString]
  simp [h]
  cases scanString rest <;> rfl

/-- The number of a control is read from its four digits. -/
theorem unit?_control {n : Nat} (h : n < 0x20) :
    unit? 0x30 0x30 (UInt8.ofNat (Nat.digitChar (n / 16)).toNat)
      (UInt8.ofNat (Nat.digitChar (n % 16)).toNat) = some n := by
  revert h
  revert n
  decide

/-! ### Stretches of a string -/

/-- The stretch of a string is scanned into parts that stand for the bytes, whatever comes after
    it. -/
def Quotes (written meant : Bytes) : Prop :=
  ∃ parts,
    (∀ rest, scanString (written ++ rest)
      = (scanString rest).map fun (more, tail) => (parts ++ more, tail))
    ∧ ∀ more, stringBytes? (parts ++ more) = (stringBytes? more).map (meant ++ ·)

theorem Quotes.nil : Quotes [] [] := by
  refine ⟨[], fun rest => ?_, fun more => ?_⟩
  · simp
  · simp

/-- What stands for two texts stands for one after the other. -/
theorem Quotes.append {front back meant meant' : Bytes} (hfront : Quotes front meant)
    (hback : Quotes back meant') : Quotes (front ++ back) (meant ++ meant') := by
  obtain ⟨parts, hscan, hmeant⟩ := hfront
  obtain ⟨parts', hscan', hmeant'⟩ := hback
  refine ⟨parts ++ parts', fun rest => ?_, fun more => ?_⟩
  · rw [List.append_assoc, hscan, hscan', Option.map_map]
    simp [Function.comp_def]
  · rw [List.append_assoc, hmeant, hmeant', Option.map_map]
    simp [Function.comp_def]

/-- Bytes that need no escape stand for themselves. -/
theorem Quotes.plain {bytes : Bytes}
    (h : ∀ byte ∈ bytes, byte ≠ 0x22 ∧ byte ≠ 0x5c ∧ ¬ byte < 0x20) : Quotes bytes bytes := by
  induction bytes with
  | nil => exact .nil
  | cons byte bytes ih =>
    obtain ⟨hquote, hescape, hcontrol⟩ := h byte (by simp)
    have hbyte : Quotes [byte] [byte] :=
      ⟨[.byte byte], scanString_byte hquote hescape hcontrol, fun _ => rfl⟩
    exact hbyte.append (ih fun b hb => h b (by simp [hb]))

/-- An escape letter after a backslash stands for its byte. -/
theorem Quotes.escape {letter byte : UInt8} (hletter : letter ≠ 0x75)
    (h : escaped? letter = some byte) : Quotes [0x5c, letter] [byte] :=
  ⟨[.byte byte], scanString_escape hletter h, fun _ => rfl⟩

/-- A control by its number stands for its byte. -/
theorem Quotes.control {n : Nat} (h : n < 0x20) :
    Quotes [0x5c, 0x75, 0x30, 0x30, UInt8.ofNat (Nat.digitChar (n / 16)).toNat,
      UInt8.ofNat (Nat.digitChar (n % 16)).toNat] (String.utf8EncodeChar (Char.ofNat n)) := by
  refine ⟨[.unit n], scanString_unit (unit?_control h), fun more => ?_⟩
  show stringBytes? (.unit n :: more) = _
  rw [stringBytes?.eq_def]
  exact if_pos (.inl (by omega))

/-- The bytes of a control that is written by its number. -/
theorem utf8_numbered {n : Nat} (h : n < 0x20) :
    Hex.utf8 ['\\', 'u', '0', '0', Nat.digitChar (n / 16), Nat.digitChar (n % 16)]
      = [0x5c, 0x75, 0x30, 0x30, UInt8.ofNat (Nat.digitChar (n / 16)).toNat,
        UInt8.ofNat (Nat.digitChar (n % 16)).toNat] := by
  have hdigit : ∀ d : Fin 16, String.utf8EncodeChar (Nat.digitChar d)
      = [UInt8.ofNat (Nat.digitChar d).toNat] := by decide
  have hhigh := hdigit ⟨n / 16, by omega⟩
  have hlow := hdigit ⟨n % 16, by omega⟩
  simp only [Hex.utf8, List.flatMap_cons, List.flatMap_nil, hhigh, hlow]
  rfl

/-- **A character with its escape** stands for its bytes. -/
theorem quotes_quoteChar (c : Char) :
    Quotes (Hex.utf8 (quoteChar c)) (String.utf8EncodeChar c) := by
  unfold quoteChar
  split
  · exact .escape (by decide) (by decide)
  · exact .escape (by decide) (by decide)
  · exact .escape (by decide) (by decide)
  · exact .escape (by decide) (by decide)
  · exact .escape (by decide) (by decide)
  · -- a character with no letter of its own to escape it
    rename_i hquote hescape _ _ _
    split
    · -- a control, by its number
      rename_i hcontrol
      have hwritten := Quotes.control hcontrol
      rwa [Char.ofNat_toNat, ← utf8_numbered hcontrol] at hwritten
    · -- any other, as it is
      rename_i hcontrol
      have hbytes : Hex.utf8 [c] = String.utf8EncodeChar c := by simp [Hex.utf8]
      rw [hbytes]
      exact .plain fun byte => plain_of_mem_utf8EncodeChar hquote hescape hcontrol

/-- **A text with its escapes** stands for its bytes. -/
theorem quotes_flatMap (cs : List Char) :
    Quotes (Hex.utf8 (cs.flatMap quoteChar)) (Hex.utf8 cs) := by
  induction cs with
  | nil => exact .nil
  | cons c cs ih =>
    rw [List.flatMap_cons, utf8_append]
    exact (quotes_quoteChar c).append ih

/-! ### Numbers -/

/-- The bytes that may come after a number: a comma or a closing mark. -/
def Follows (bytes : Bytes) : Prop := ∀ byte ∈ bytes.head?, byte = 0x2c ∨ byte = 0x5d ∨ byte = 0x7d

/-- The bytes of a character of ASCII are read as that character. -/
theorem charOf_ofNat {c : Char} (hc : c.toNat < 0x80) : charOf (UInt8.ofNat c.toNat) = c := by
  have hbyte : (UInt8.ofNat c.toNat).toNat = c.toNat := by
    rw [UInt8.toNat_ofNat']
    omega
  rw [charOf, hbyte]
  exact Char.ofNat_toNat c

/-- The digits are ten characters in a row. -/
theorem toNat_lt_of_isDigit {c : Char} (h : c.isDigit = true) :
    0x30 ≤ c.toNat ∧ c.toNat < 0x3a := by
  simp only [Char.isDigit, Bool.and_eq_true, decide_eq_true_eq, ge_iff_le, UInt32.le_iff_toNat_le]
    at h
  have hvalues : '0'.val.toNat = 48 ∧ '9'.val.toNat = 57 := by decide
  show 0x30 ≤ c.val.toNat ∧ c.val.toNat < 0x3a
  omega

/-- The digits of a number as bytes. -/
def digitBytes (n : Nat) : Bytes := (Nat.toDigits 10 n).map fun c => UInt8.ofNat c.toNat

/-- The digits of a number as bytes. -/
theorem utf8_toDigits (n : Nat) : Hex.utf8 (Nat.toDigits 10 n) = digitBytes n := by
  have hdigits : ∀ c ∈ Nat.toDigits 10 n, String.utf8EncodeChar c = [UInt8.ofNat c.toNat] := by
    intro c hc
    have hdigit := toNat_lt_of_isDigit (isDigit_of_mem_toDigits hc)
    exact utf8EncodeChar_of_lt (by omega)
  rw [Hex.utf8, digitBytes, List.flatMap_congr hdigits, List.map_eq_flatMap]

/-- A number is written in bytes that are digits. -/
theorem isDigitByte_of_mem_digitBytes {n : Nat} :
    ∀ byte ∈ digitBytes n, isDigitByte byte = true := by
  intro byte hbyte
  obtain ⟨c, hc, rfl⟩ := List.mem_map.1 hbyte
  have hdigit := isDigit_of_mem_toDigits hc
  rw [isDigitByte, charOf_ofNat (by have := toNat_lt_of_isDigit hdigit; omega)]
  exact hdigit

/-- The digits of a number add up to it. -/
theorem foldl_digitBytes (n : Nat) :
    (digitBytes n).foldl (fun m digit => 10 * m + (digit.toNat - 0x30)) 0 = n := by
  have hstep : ∀ c ∈ Nat.toDigits 10 n, ∀ m : Nat,
      10 * m + ((UInt8.ofNat c.toNat).toNat - 0x30) = 10 * m + (c.toNat - '0'.toNat) := by
    intro c hc m
    have hdigit := toNat_lt_of_isDigit (isDigit_of_mem_toDigits hc)
    have hbyte : (UInt8.ofNat c.toNat).toNat = c.toNat := by
      rw [UInt8.toNat_ofNat']
      omega
    rw [hbyte]
    rfl
  rw [digitBytes, List.foldl_map, List.foldl_ext _ _ _ fun m c hc => hstep c hc m]
  exact Nat.ofDigitChars_ten_toDigits

/-- No digit follows a leading zero. -/
theorem head?_toDigits {n : Nat} (h : 0 < n) : (Nat.toDigits 10 n).head? ≠ some '0' := by
  induction n using Nat.base_induction 10 (by decide) with
  | single m hm =>
    rw [Nat.toDigits_of_lt_base hm]
    revert m
    decide
  | digit m k hk hm ih =>
    rw [← Nat.toDigits_append_toDigits (by decide) hm hk, List.head?_append, Option.or_of_isSome]
    · exact ih hm
    · simp [Nat.toDigits_ne_nil]

/-- A number has at least one digit. -/
theorem exists_digitBytes_eq_cons (n : Nat) :
    ∃ byte bytes, digitBytes n = byte :: bytes ∧ isDigitByte byte = true := by
  have hne : digitBytes n ≠ [] := by simp [digitBytes, Nat.toDigits_ne_nil]
  obtain ⟨byte, bytes, heq⟩ := List.exists_cons_of_ne_nil hne
  have hmem : byte ∈ digitBytes n := by simp [heq]
  exact ⟨byte, bytes, heq, isDigitByte_of_mem_digitBytes byte hmem⟩

/-- The digits of a number do not start with a zero, unless it is the only one. -/
theorem length_or_head?_digitBytes (n : Nat) :
    (digitBytes n).length = 1 ∨ (digitBytes n).head? ≠ some 0x30 := by
  rcases Nat.eq_zero_or_pos n with rfl | hn
  · exact .inl rfl
  · right
    intro hhead
    rw [digitBytes, List.head?_map, Option.map_eq_some_iff] at hhead
    obtain ⟨c, hc, hbyte⟩ := hhead
    have hdigit := toNat_lt_of_isDigit
      (isDigit_of_mem_toDigits (List.mem_of_mem_head? hc))
    have hzero : c = '0' := by
      rw [← charOf_ofNat (show c.toNat < 0x80 by omega), hbyte]
      decide
    exact head?_toDigits hn (hzero ▸ hc)

/-- What may come after a number does not go on with it. -/
theorem Follows.head {rest : Bytes} (h : Follows rest) :
    (∀ byte ∈ rest.head?, isDigitByte byte = false) ∧ afterFraction? rest = some rest
      ∧ afterExponent? rest = some rest := by
  cases rest with
  | nil => exact ⟨by simp, rfl, rfl⟩
  | cons byte rest =>
    rcases h byte (by simp) with rfl | rfl | rfl
    · exact ⟨by simp; decide, rfl, rfl⟩
    · exact ⟨by simp; decide, rfl, rfl⟩
    · exact ⟨by simp; decide, rfl, rfl⟩

/-- **A number** is scanned whole. -/
theorem scanNumber_eq {bytes rest : Bytes} {n : Nat} (h : Follows rest)
    (hbody : (if bytes.head? = some 0x2d then bytes.drop 1 else bytes) = digitBytes n ++ rest) :
    scanNumber bytes = some (intToken (bytes.head? = some 0x2d) n, rest) := by
  obtain ⟨hstop, hfraction, hexponent⟩ := h.head
  obtain ⟨htake, hdrop⟩ := Text.takeWhile_append_of_head? isDigitByte_of_mem_digitBytes hstop
  have hne : digitBytes n ≠ [] := by
    obtain ⟨_, _, heq, -⟩ := exists_digitBytes_eq_cons n
    simp [heq]
  have hafter : afterDigits? (digitBytes n ++ rest) = some rest := by
    rw [afterDigits?, htake, hdrop, if_neg (by simpa using hne)]
  -- no zero stands in front of other digits
  have hguard : (guard ((digitBytes n).length = 1 ∨ (digitBytes n).head? ≠ some 0x30)
      : Option Unit) = some () := if_pos (length_or_head?_digitBytes n)
  unfold scanNumber
  dsimp only
  rw [hbody, htake, hafter, Option.bind_eq_bind, Option.bind_some, hguard]
  simp only [Option.bind_eq_bind, Option.bind_some, hfraction, hexponent, if_pos,
    foldl_digitBytes]
  rfl

/-- The characters of a number that is not negative are its digits. -/
theorem utf8_toString_ofNat (n : Nat) :
    Hex.utf8 (toString (Int.ofNat n)).toList = digitBytes n := by
  rw [toList_toString_ofNat, utf8_toDigits]

/-- A number below zero is written with a minus sign. -/
theorem utf8_toString_negSucc (n : Nat) :
    Hex.utf8 (toString (Int.negSucc n)).toList = 0x2d :: digitBytes (n + 1) := by
  rw [toList_toString_negSucc, ← utf8_toDigits]
  rfl

/-- **A number of 64 bits**, signed or unsigned, is scanned from its decimal text. -/
theorem scanNumber_toString {n : Int} (hlow : -2 ^ 63 ≤ n) (hhigh : n < 2 ^ 64) {rest : Bytes}
    (h : Follows rest) :
    scanNumber (Hex.utf8 (toString n).toList ++ rest) = some (.int n, rest) := by
  cases n with
  | ofNat n =>
    obtain ⟨byte, bytes, heq, hbyte⟩ := exists_digitBytes_eq_cons n
    -- a digit comes first
    have hsign : ¬ (digitBytes n ++ rest).head? = some 0x2d := by
      rw [heq]
      rintro ⟨⟩
      revert hbyte
      decide
    have hsize : n < UInt64.size := by
      have : UInt64.size = 2 ^ 64 := rfl
      rw [Int.ofNat_eq_natCast] at hhigh
      omega
    rw [utf8_toString_ofNat, scanNumber_eq h (if_neg hsign), decide_eq_false hsign, intToken,
      if_neg (by decide), if_pos hsize]
    rfl
  | negSucc n =>
    have hsize : 0 < n + 1 ∧ n + 1 ≤ UInt64.size / 2 := by
      have : UInt64.size / 2 = 2 ^ 63 := rfl
      omega
    rw [utf8_toString_negSucc, scanNumber_eq h rfl]
    show some (intToken true (n + 1), rest) = _
    rw [intToken, if_pos rfl, if_pos hsize]
    rfl

/-! ### Tokens -/

/-- **A string in quotes** is scanned whole. -/
theorem scanToken_quote (text : String) (rest : Bytes) :
    scanToken (Hex.utf8 (quote text).toList ++ rest) = some (.str (some text), rest) := by
  obtain ⟨parts, hscan, hmeant⟩ := quotes_flatMap text.toList
  have hbytes : Hex.utf8 (quote text).toList ++ rest
      = 0x22 :: (Hex.utf8 (text.toList.flatMap quoteChar) ++ 0x22 :: rest) := by
    simp only [quote, String.toList_append, String.toList_ofList, utf8_append, List.append_assoc]
    rfl
  have hclose : scanString (0x22 :: rest) = some ([], rest) := by rw [scanString]
  -- the parts stand for the bytes of the text, and these for its characters
  have htext : stringText? parts = some text := by
    have hparts := hmeant []
    rw [List.append_nil] at hparts
    rw [stringText?, hparts]
    simpa [stringBytes?] using fromUTF8?_utf8 text
  rw [hbytes]
  show (scanString _).map _ = _
  rw [hscan, hclose]
  simp [htext]

/-- A byte that starts a number starts no other token. -/
theorem scanToken_number {byte : UInt8} (h : byte = 0x2d ∨ isDigitByte byte = true) (rest : Bytes) :
    scanToken (byte :: rest) = scanNumber (byte :: rest) := by
  unfold scanToken
  split
  case h_11 => rfl
  all_goals
    rename_i heq
    cases heq
    exact absurd h (by decide)

/-- **A number of 64 bits** is scanned whole from its decimal text. -/
theorem scanToken_toString {n : Int} (hlow : -2 ^ 63 ≤ n) (hhigh : n < 2 ^ 64) {rest : Bytes}
    (h : Follows rest) :
    scanToken (Hex.utf8 (toString n).toList ++ rest) = some (.int n, rest) := by
  obtain ⟨byte, bytes, heq, hbyte⟩ : ∃ byte bytes,
      Hex.utf8 (toString n).toList = byte :: bytes
        ∧ (byte = 0x2d ∨ isDigitByte byte = true) := by
    cases n with
    | ofNat n =>
      obtain ⟨byte, bytes, heq, hbyte⟩ := exists_digitBytes_eq_cons n
      exact ⟨byte, bytes, (utf8_toString_ofNat n).trans heq, .inr hbyte⟩
    | negSucc n => exact ⟨_, _, utf8_toString_negSucc n, .inl rfl⟩
  rw [← scanNumber_toString hlow hhigh h, heq]
  exact scanToken_number hbyte _

/-- No token starts with a blank. -/
theorem isBlankByte_of_scanToken {byte : UInt8} {rest tail : Bytes} {token : Token}
    (h : scanToken (byte :: rest) = some (token, tail)) : isBlankByte byte = false := by
  by_contra hblank
  have hbyte : byte = 0x20 ∨ byte = 0x09 ∨ byte = 0x0a ∨ byte = 0x0d := by
    simpa only [Bool.not_eq_false, isBlankByte, Bool.or_eq_true, beq_iff_eq, or_assoc] using hblank
  -- what starts with a blank is no number either
  rcases hbyte with rfl | rfl | rfl | rfl <;> contradiction

/-- The token at the front of a text is its first one. -/
theorem scan_of_scanToken {bytes tail : Bytes} {token : Token}
    (h : scanToken bytes = some (token, tail)) :
    Token.scan bytes = (Token.scan tail).map (token :: ·) := by
  cases bytes with
  | nil => contradiction
  | cons byte rest =>
    -- a token does not start with a blank
    have hstart : (byte :: rest).dropWhile isBlankByte = byte :: rest :=
      List.dropWhile_cons_of_neg (by simp [isBlankByte_of_scanToken h])
    rw [Token.scan]
    simp only [hstart]
    split
    · contradiction
    · split
      · simp_all
      · rename_i heq
        rw [hstart, h] at heq
        cases heq
        rfl

end ScriptAbi.Json
