namespace ScriptAbi.Text

/-!
# White space

Blank characters are those with the Unicode property White_Space.

* `isBlank`: the property, from the table `blankRanges`.
* `trim`: a text without the blanks at its ends.
* `words`: the longest runs of characters that are not blank.

Each works on characters; `trimmed` and `wordsOf` are the same on strings.
-/

/-- The code points with the property White_Space, as inclusive ranges. -/
def blankRanges : List (Nat × Nat) :=
  [(0x09, 0x0d), (0x20, 0x20), (0x85, 0x85), (0xa0, 0xa0), (0x1680, 0x1680), (0x2000, 0x200a),
    (0x2028, 0x2029), (0x202f, 0x202f), (0x205f, 0x205f), (0x3000, 0x3000)]

/-- The character has the property White_Space. -/
def isBlank (c : Char) : Bool :=
  blankRanges.any fun (first, last) => decide (first ≤ c.toNat) && decide (c.toNat ≤ last)

/-- Drops the blanks at the front. -/
def trimStart (cs : List Char) : List Char := cs.dropWhile isBlank

/-- Drops the blanks at the back. -/
def trimEnd (cs : List Char) : List Char := (cs.reverse.dropWhile isBlank).reverse

/-- Drops the blanks at both ends. -/
def trim (cs : List Char) : List Char := trimEnd (trimStart cs)

/-- The words of a text: what stands between its blanks, empty pieces dropped. -/
def words (cs : List Char) : List (List Char) :=
  (cs.splitOnP isBlank).filter fun word => !word.isEmpty

/-- A string without the blanks at its ends. -/
def trimmed (text : String) : String := String.ofList (trim text.toList)

/-- The words of a string. -/
def wordsOf (text : String) : List String := (words text.toList).map String.ofList

/-- The string holds no character but blanks. -/
def isBlankText (text : String) : Bool := text.toList.all isBlank

/-- A text that ends in no blank is not trimmed there. -/
theorem trimEnd_append_of_not_blank (cs : List Char) {c : Char} (h : isBlank c = false) :
    trimEnd (cs ++ [c]) = cs ++ [c] := by
  simp [trimEnd, h]

/-- A text that neither starts nor ends with a blank is its own trimmed form. -/
theorem trim_eq_self {cs : List Char} (front : ∀ c ∈ cs.head?, isBlank c = false)
    (back : ∀ c ∈ cs.getLast?, isBlank c = false) : trim cs = cs := by
  have start : trimStart cs = cs := by
    cases cs with
    | nil => rfl
    | cons c rest => simp [trimStart, front c (by simp)]
  rw [trim, start]
  rcases List.eq_nil_or_concat cs with rfl | ⟨init, last, rfl⟩
  · rfl
  · rw [List.concat_eq_append] at back ⊢
    exact trimEnd_append_of_not_blank init (back last (by simp))

end ScriptAbi.Text
