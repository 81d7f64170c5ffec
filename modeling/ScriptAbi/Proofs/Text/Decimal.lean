import ScriptAbi.Text.Decimal

namespace ScriptAbi

/-!
# Decimal text of numbers

* `toList_toString_ofNat`, `toList_toString_negSucc`: the characters that a number is printed with.
* `Text.readInt?_toString`: a printed number is read back.
-/

/-- Numbers are printed in digits. -/
theorem isDigit_of_mem_toDigits {n : Nat} {c : Char} (h : c ∈ Nat.toDigits 10 n) :
    c.isDigit = true :=
  Nat.isDigit_of_mem_toDigits (by decide) (by decide) h

/-- There is at least one of them. -/
theorem exists_toDigits_eq_cons (n : Nat) : ∃ first rest, Nat.toDigits 10 n = first :: rest :=
  List.exists_cons_of_ne_nil Nat.toDigits_ne_nil

/-- A number that is not negative is printed as its digits. -/
theorem toList_toString_ofNat (n : Nat) :
    (toString (Int.ofNat n)).toList = Nat.toDigits 10 n :=
  Nat.toList_repr

/-- A negative one has a minus sign in front. -/
theorem toList_toString_negSucc (n : Nat) :
    (toString (Int.negSucc n)).toList = '-' :: Nat.toDigits 10 (n + 1) := by
  show ("-" ++ (n + 1).repr).toList = _
  rw [String.toList_append, Nat.toList_repr]
  rfl

namespace Text

/-- Digits with no underscores among them are read as the number that they denote. -/
theorem readSeparated?_toDigits (n : Nat) : readSeparated? (Nat.toDigits 10 n) = some n := by
  have hdigits : ∀ c ∈ Nat.toDigits 10 n, c.isDigit = true := fun _ => isDigit_of_mem_toDigits
  have hvalue : natOfDigits (Nat.toDigits 10 n) = n := Nat.ofDigitChars_ten_toDigits
  obtain ⟨first, rest, hcons⟩ := exists_toDigits_eq_cons n
  rw [hcons] at hdigits hvalue ⊢
  have hfilter : (first :: rest).filter Char.isDigit = first :: rest :=
    List.filter_eq_self.2 hdigits
  rw [readSeparated?, hfilter, hvalue, if_pos]
  rw [List.forall_mem_cons] at hdigits
  simp only [Bool.and_eq_true, List.all_eq_true]
  exact ⟨hdigits.1, fun c hc => by simp [hdigits.2 c hc]⟩

/-- **A printed number** is read back. -/
theorem readInt?_toString (n : Int) : readInt? (toString n).toList = some n := by
  cases n with
  | ofNat n =>
    obtain ⟨first, rest, hcons⟩ := exists_toDigits_eq_cons n
    have hfirst : first.isDigit = true := isDigit_of_mem_toDigits (n := n) (by simp [hcons])
    have hread := readSeparated?_toDigits n
    rw [toList_toString_ofNat]
    rw [hcons] at hread ⊢
    -- a digit is no sign
    unfold readInt?
    split
    · rename_i heq
      cases heq
      contradiction
    · rename_i heq
      cases heq
      contradiction
    · rw [hread]
      rfl
  | negSucc n =>
    rw [toList_toString_negSucc, readInt?, readSeparated?_toDigits]
    rfl

end Text

end ScriptAbi
