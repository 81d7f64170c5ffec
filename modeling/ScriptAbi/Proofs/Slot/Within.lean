import ScriptAbi.Proofs.Slot.Name
import ScriptAbi.Proofs.Text.Decimal
import ScriptAbi.Slot

namespace ScriptAbi

/-!
# Slots within a slot

* `Within`: a slot with selectors after it. The slots of items and members are within the slot of
  the array or struct.
* `Apart`: slots that have no slot within both, as different names are (`apart_name`), different
  items of an array (`apart_itemSlot`) and different members of a struct (`apart_memberSlot`).
-/

/-- The slot is the other one with selectors after it. -/
def Within (base slot : String) : Prop := ∃ path, IsSelectors path ∧ slot.toList = base.toList ++ path

/-- No slot is within both. -/
def Apart (a b : String) : Prop := ∀ slot, Within a slot → ¬ Within b slot

theorem within_self (base : String) : Within base base := ⟨[], .nil, by simp⟩

/-- What is within a name is a slot name. -/
theorem isSlotName_of_within {name slot : String} (hname : Text.isName name.toList = true)
    (h : Within name slot) : IsSlotName slot.toList := by
  obtain ⟨path, hpath, heq⟩ := h
  exact ⟨name.toList, path, hname, hpath, heq⟩

variable (style : SlotStyle)

/-- The characters of a slot of an item. -/
theorem toList_itemSlot (base : String) (index : Nat) :
    (style.itemSlot base index).toList
      = base.toList ++ '[' :: (Nat.toDigits 10 index ++ [']']) := by
  cases style
  simp [SlotStyle.itemSlot]

/-- The characters of a slot of a member. -/
theorem toList_memberSlot (base member : String) :
    (style.memberSlot base member).toList = base.toList ++ '.' :: member.toList := by
  cases style
  simp [SlotStyle.memberSlot]

/-- What is within the slot of an item is within that of the array. -/
theorem within_of_itemSlot {base slot : String} {index : Nat}
    (h : Within (style.itemSlot base index) slot) : Within base slot := by
  obtain ⟨path, hpath, heq⟩ := h
  refine ⟨'[' :: (Nat.toDigits 10 index ++ ']' :: path), ?_, ?_⟩
  · exact .item Nat.toDigits_ne_nil (fun _ => isDigit_of_mem_toDigits) hpath
  · rw [heq, toList_itemSlot]
    simp

/-- What is within the slot of a member is within that of the struct. -/
theorem within_of_memberSlot {base member slot : String}
    (hmember : Text.isName member.toList = true) (h : Within (style.memberSlot base member) slot) :
    Within base slot := by
  obtain ⟨path, hpath, heq⟩ := h
  refine ⟨_, .member hmember hpath, ?_⟩
  rw [heq, toList_memberSlot]
  simp

/-! ### Slots apart -/

/-- The number in front of a closing bracket is told by its digits. -/
theorem index_eq_of_append {i j : Nat} {cs ds : List Char}
    (h : Nat.toDigits 10 i ++ ']' :: cs = Nat.toDigits 10 j ++ ']' :: ds) : i = j := by
  -- the digits are what comes before the first character that is none, the bracket
  have hstop : ∀ rest : List Char, ∀ c ∈ (']' :: rest).head?, c.isDigit = false := by simp
  have htake : ∀ n rest, (Nat.toDigits 10 n ++ ']' :: rest).takeWhile Char.isDigit
      = Nat.toDigits 10 n :=
    fun n rest => (Text.takeWhile_append_of_head? (fun _ => isDigit_of_mem_toDigits) (hstop rest)).1
  have hdigits : Nat.toDigits 10 i = Nat.toDigits 10 j := by rw [← htake i cs, h, htake j ds]
  rw [← Nat.ofDigitChars_ten_toDigits (n := i), hdigits, Nat.ofDigitChars_ten_toDigits]

/-- The name in front of selectors is told by its characters. -/
theorem name_eq_of_append {m n path path' : List Char} (hm : Text.isName m = true)
    (hn : Text.isName n = true) (hpath : IsSelectors path) (hpath' : IsSelectors path')
    (h : m ++ path = n ++ path') : m = n := by
  have htake : ∀ name path, Text.isName name = true → IsSelectors path →
      (name ++ path).takeWhile Text.isNameChar = name := by
    intro name path hname hpath
    have hstop : ∀ c ∈ (path ++ []).head?, Text.isNameChar c = false :=
      hpath.head?_append (by simp)
    rw [List.append_nil] at hstop
    exact (Text.takeWhile_append_of_head? (isName_iff.1 hname).2 hstop).1
  rw [← htake m path hm hpath, h, htake n path' hn hpath']

/-- **Items** of different indices are apart. -/
theorem apart_itemSlot (base : String) {i j : Nat} (h : i ≠ j) :
    Apart (style.itemSlot base i) (style.itemSlot base j) := by
  rintro slot ⟨path, -, heq⟩ ⟨path', -, heq'⟩
  rw [heq, toList_itemSlot, toList_itemSlot, List.append_assoc, List.append_assoc] at heq'
  have hitem := List.append_cancel_left heq'
  simp only [List.cons_append, List.append_assoc, List.nil_append, List.cons.injEq,
    true_and] at hitem
  exact h (index_eq_of_append hitem)

/-- **Names** that differ are apart. -/
theorem apart_name {m n : String} (hm : Text.isName m.toList = true)
    (hn : Text.isName n.toList = true) (h : m ≠ n) : Apart m n := by
  rintro slot ⟨path, hpath, heq⟩ ⟨path', hpath', heq'⟩
  rw [heq] at heq'
  exact h (String.toList_inj.1 (name_eq_of_append hm hn hpath hpath' heq'))

/-- **Members** of different names are apart. -/
theorem apart_memberSlot (base : String) {m n : String} (hm : Text.isName m.toList = true)
    (hn : Text.isName n.toList = true) (h : m ≠ n) :
    Apart (style.memberSlot base m) (style.memberSlot base n) := by
  rintro slot ⟨path, hpath, heq⟩ ⟨path', hpath', heq'⟩
  rw [heq, toList_memberSlot, toList_memberSlot, List.append_assoc, List.append_assoc] at heq'
  have hmember := List.append_cancel_left heq'
  simp only [List.cons_append, List.cons.injEq, true_and] at hmember
  exact h (String.toList_inj.1 (name_eq_of_append hm hn hpath hpath' hmember))

end ScriptAbi
