import ScriptAbi.Proofs.Literal.RoundTrip
import ScriptAbi.TypeExpr

namespace ScriptAbi

/-!
# The language of types

The texts that denote types, said without the reader.

* `WrittenSize`, `WrittenSizes`: a size, and a run of sizes in brackets.
* `WrittenBase`: a name, perhaps with `struct` before it and braces after it.
* `WrittenType`: a text with the type that it denotes.
* `TypeExpr.ofText?_eq_some_iff_written`: a text is read as a type iff it is written so.
-/

/-! ### The grammar -/

/-- A size in decimal digits, perhaps with a plus sign before them. -/
inductive WrittenSize : List Char → Nat → Prop
  | plain {cs : List Char} {n : Nat} (h : WrittenNat 10 cs n) (hlt : n < Text.sizeBound) :
      WrittenSize cs n
  | signed {cs : List Char} {n : Nat} (h : WrittenNat 10 cs n) (hlt : n < Text.sizeBound) :
      WrittenSize ('+' :: cs) n

/-- Sizes in brackets, one after the other. Blanks may stand around each size. -/
inductive WrittenSizes : List Char → List Nat → Prop
  | nil : WrittenSizes [] []
  | cons {inner size cs : List Char} {n : Nat} {sizes : List Nat} (hinner : Text.Padded size inner)
      (hsize : WrittenSize size n) (hcs : WrittenSizes cs sizes) :
      WrittenSizes ('[' :: (inner ++ ']' :: cs)) (n :: sizes)

/-- Nothing, or braces with blanks before them. -/
inductive ClosesName : List Char → Prop
  | nothing : ClosesName []
  | braces {gap : List Char} (hgap : ∀ c ∈ gap, Text.isBlank c = true) :
      ClosesName (gap ++ ['\x7b', '\x7d'])

/-- A name, perhaps after the word `struct` and perhaps with braces after it. Where the text starts
    with that word and a space, the word is no name. -/
inductive WrittenBase : List Char → List Char → Prop
  | bare {name tail : List Char} (hname : Text.isName name = true) (htail : ClosesName tail)
      (hmark : ¬ "struct ".toList <+: name ++ tail) : WrittenBase (name ++ tail) name
  | marked {gap name tail : List Char} (hgap : ∀ c ∈ gap, Text.isBlank c = true)
      (hname : Text.isName name = true) (htail : ClosesName tail) :
      WrittenBase ("struct ".toList ++ (gap ++ (name ++ tail))) name

/-- **A type**: its base and its sizes, with blanks around the base and at the end. -/
inductive WrittenType : List Char → TypeExpr → Prop
  | intro {front base name brackets trail : List Char} {sizes : List Nat}
      (hfront : Text.Padded base front) (hbase : WrittenBase base name)
      (hbrackets : WrittenSizes brackets sizes) (htrail : ∀ c ∈ trail, Text.isBlank c = true) :
      WrittenType (front ++ brackets ++ trail)
        ((TypeExpr.ofName (String.ofList name)).withSizes sizes)

/-! ### Sizes -/

/-- A number does not start with a plus sign. -/
theorem isPrefixOf?_of_writtenNat {cs : List Char} {n : Nat} (h : WrittenNat 10 cs n) :
    ['+'].isPrefixOf? cs = none := by
  obtain ⟨⟨hne, hdigits⟩, -⟩ := writtenNat_decimal_iff.1 h
  obtain ⟨first, rest, rfl⟩ := List.exists_cons_of_ne_nil hne
  -- a digit is no plus sign
  have hplus : '+' ≠ first := by
    rintro rfl
    exact absurd (hdigits '+' (by simp)) (by decide)
  simp [List.isPrefixOf?, hplus]

/-- **A size is read** iff it is written so. -/
theorem readSize?_eq_some_iff {cs : List Char} {n : Nat} :
    Text.readSize? cs = some n ↔ WrittenSize cs n := by
  have hread : ∀ digits : List Char,
      (!digits.isEmpty && digits.all Char.isDigit
          && decide (Text.natOfDigits digits < Text.sizeBound)) = true
          ∧ Text.natOfDigits digits = n ↔
        WrittenNat 10 digits n ∧ n < Text.sizeBound := by
    intro digits
    rw [writtenNat_decimal_iff]
    simp only [Bool.and_eq_true, Bool.not_eq_true', List.isEmpty_eq_false_iff, List.all_eq_true,
      decide_eq_true_eq]
    constructor
    · rintro ⟨⟨hdigits, hlt⟩, rfl⟩
      exact ⟨⟨hdigits, rfl⟩, hlt⟩
    · rintro ⟨⟨hdigits, rfl⟩, hlt⟩
      exact ⟨⟨hdigits, hlt⟩, rfl⟩
  -- what is left is the plus sign, which is allowed once
  rw [Text.readSize?]
  simp only [Option.ite_none_right_eq_some, Option.some.injEq, hread]
  constructor
  · rintro ⟨h, hlt⟩
    cases hsign : ['+'].isPrefixOf? cs with
    | none =>
      rw [hsign, Option.getD_none] at h
      exact .plain h hlt
    | some digits =>
      rw [hsign, Option.getD_some] at h
      rw [List.isPrefixOf?_eq_some_iff_append_eq] at hsign
      exact hsign ▸ .signed h hlt
  · intro h
    cases h with
    | plain h hlt => exact ⟨by rwa [isPrefixOf?_of_writtenNat h], hlt⟩
    | signed h hlt => exact ⟨by simpa [List.isPrefixOf?] using h, hlt⟩

/-- A size is a word, with the sign or without. -/
theorem WrittenSize.isWord {cs : List Char} {n : Nat} (h : WrittenSize cs n) : Text.IsWord cs := by
  cases h with
  | plain h => exact h.isWord
  | signed h => exact ⟨by simp, List.forall_mem_cons.2 ⟨by decide, h.isWord.2⟩⟩

/-- No bracket stands in a size, nor among the blanks around it. -/
theorem WrittenSize.ne_closingBracket {size inner : List Char} {n : Nat} (h : WrittenSize size n)
    (hinner : Text.Padded size inner) : ∀ c ∈ inner, (c != ']') = true := by
  have hdigits : ∀ {cs : List Char}, WrittenNat 10 cs n → ']' ∉ cs := by
    intro cs hcs hmem
    exact absurd ((writtenNat_decimal_iff.1 hcs).1.2 ']' hmem) (by decide)
  have hsize : ']' ∉ size := by
    cases h with
    | plain h => exact hdigits h
    | signed h => simpa using hdigits h
  obtain ⟨lead, trail, hlead, htrail, rfl⟩ := hinner
  intro c hc
  rw [bne_iff_ne]
  rintro rfl
  rw [List.mem_append, List.mem_append] at hc
  rcases hc with (hc | hc) | hc
  · exact absurd (hlead ']' hc) (by decide)
  · exact hsize hc
  · exact absurd (htrail ']' hc) (by decide)

/-- **Sizes are read** iff they are written so. -/
theorem readSizes?_eq_some_iff {cs : List Char} {sizes : List Nat} :
    TypeExpr.readSizes? cs = some sizes ↔ WrittenSizes cs sizes := by
  constructor
  · intro h
    fun_induction TypeExpr.readSizes? cs generalizing sizes with
    | case1 =>
      cases h
      exact .nil
    | case2 => contradiction
    | case3 rest bracket tail heq _ ih =>
      simp only [Option.bind_eq_bind, Option.bind_eq_some_iff, Option.pure_def,
        Option.some.injEq] at h
      obtain ⟨n, hsize, others, hothers, rfl⟩ := h
      -- what stopped the run is the closing bracket
      have hbracket : bracket = ']' := by
        have hmem : bracket ∈ (rest.dropWhile (· != ']')).head? := by simp [heq]
        simpa using Text.eq_false_of_head?_dropWhile bracket hmem
      have hrest := List.takeWhile_append_dropWhile (p := (· != ']')) (l := rest)
      rw [heq, hbracket] at hrest
      rw [← hrest]
      exact .cons (Text.padded_trim _) (readSize?_eq_some_iff.1 hsize) (ih hothers)
    | case4 => contradiction
  · intro h
    induction h with
    | nil => simp [TypeExpr.readSizes?]
    | @cons inner size cs n sizes hinner hsize _ ih =>
      have hstop : ∀ c ∈ (']' :: cs).head?, (c != ']') = false := by simp
      obtain ⟨htake, hdrop⟩ :=
        Text.takeWhile_append_of_head? (hsize.ne_closingBracket hinner) hstop
      rw [TypeExpr.readSizes?, if_pos rfl]
      split
      · rename_i hnil
        rw [hdrop] at hnil
        contradiction
      · rename_i heq
        rw [hdrop] at heq
        cases heq
        rw [htake, Text.trim_of_padded_word hinner hsize.isWord, readSize?_eq_some_iff.2 hsize, ih]
        rfl

/-! ### Bases -/

/-- What is left of a base when the braces are taken off. -/
def withoutBraces (cs : List Char) : List Char :=
  if ['\x7b', '\x7d'].isSuffixOf cs then cs.take (cs.length - 2) else cs

/-- Braces at the end are taken off. -/
theorem withoutBraces_append (cs : List Char) : withoutBraces (cs ++ ['\x7b', '\x7d']) = cs := by
  have hsuffix : ['\x7b', '\x7d'].isSuffixOf (cs ++ ['\x7b', '\x7d']) = true :=
    List.isSuffixOf_iff_suffix.2 (List.suffix_append cs _)
  rw [withoutBraces, if_pos hsuffix, List.length_append]
  exact List.take_left

/-- Where there are none, nothing is. -/
theorem withoutBraces_of_not_suffix {cs : List Char} (h : ¬ ['\x7b', '\x7d'] <:+ cs) :
    withoutBraces cs = cs :=
  if_neg fun hsuffix => h (List.isSuffixOf_iff_suffix.1 hsuffix)

/-- **Braces are taken off** a text with no blank at its end iff they close the name in it. -/
theorem trim_withoutBraces_iff {cs name : List Char} (hname : Text.isName name = true)
    (hback : ∀ c ∈ cs.getLast?, Text.isBlank c = false) :
    Text.trim (withoutBraces cs) = name ↔
      ∃ gap tail, (∀ c ∈ gap, Text.isBlank c = true) ∧ ClosesName tail
        ∧ cs = gap ++ (name ++ tail) := by
  constructor
  · intro h
    obtain ⟨lead, trail, hlead, htrail, heq⟩ := Text.padded_trim (withoutBraces cs)
    rw [h] at heq
    by_cases hsuffix : ['\x7b', '\x7d'] <:+ cs
    · obtain ⟨front, rfl⟩ := hsuffix
      rw [withoutBraces_append] at heq
      refine ⟨lead, trail ++ ['\x7b', '\x7d'], hlead, .braces htrail, ?_⟩
      rw [heq]
      simp only [List.append_assoc]
    · rw [withoutBraces_of_not_suffix hsuffix] at heq
      -- a blank at the end would be the last character
      have hnil : trail = [] := by
        rw [heq, List.getLast?_append] at hback
        rcases List.eq_nil_or_concat trail with hnil | ⟨init, last, rfl⟩
        · exact hnil
        · rw [List.concat_eq_append] at hback htrail
          have hlast := hback last (by simp)
          rw [htrail last (by simp)] at hlast
          contradiction
      rw [hnil, List.append_nil] at heq
      exact ⟨lead, [], hlead, .nothing, by rwa [List.append_nil]⟩
  · rintro ⟨gap, tail, hgap, htail, rfl⟩
    cases htail with
    | nothing =>
      -- there is no brace in a name, nor among blanks
      have hsuffix : ¬ ['\x7b', '\x7d'] <:+ gap ++ (name ++ []) := by
        intro h
        rcases List.mem_append.1 (h.mem (List.mem_cons_self ..)) with hmem | hmem
        · exact absurd (hgap _ hmem) (by decide)
        · rw [List.append_nil] at hmem
          exact absurd ((isName_iff.1 hname).2 _ hmem) (by decide)
      rw [withoutBraces_of_not_suffix hsuffix]
      exact Text.trim_of_padded_word ⟨gap, [], hgap, by simp, by simp⟩ (isWord_of_isName hname)
    | @braces gap' hgap' =>
      have hassoc : gap ++ (name ++ (gap' ++ ['\x7b', '\x7d']))
          = (gap ++ name ++ gap') ++ ['\x7b', '\x7d'] := by simp only [List.append_assoc]
      rw [hassoc, withoutBraces_append]
      exact Text.trim_of_padded_word ⟨gap, gap', hgap, hgap', rfl⟩ (isWord_of_isName hname)

/-- **A name is read off a base** iff the base is written with it. -/
theorem readName_eq_iff {cs name : List Char} (hname : Text.isName name = true) :
    TypeExpr.readName cs = name ↔ WrittenBase (Text.trim cs) name := by
  have hread : TypeExpr.readName cs = Text.trim (withoutBraces
      (("struct ".toList.isPrefixOf? (Text.trim cs)).getD (Text.trim cs))) := rfl
  have hfront : ∀ c ∈ (Text.trim cs).head?, Text.isBlank c = false := Text.eq_false_of_head?_trim
  have hback : ∀ c ∈ (Text.trim cs).getLast?, Text.isBlank c = false :=
    Text.eq_false_of_getLast?_trim
  rw [hread]
  generalize Text.trim cs = base at hfront hback
  cases hmark : "struct ".toList.isPrefixOf? base with
  | some rest =>
    rw [List.isPrefixOf?_eq_some_iff_append_eq] at hmark
    subst hmark
    have hlast : ∀ c ∈ rest.getLast?, Text.isBlank c = false := by
      intro c hc
      refine hback c ?_
      rw [List.getLast?_append, hc]
      rfl
    rw [Option.getD_some, trim_withoutBraces_iff hname hlast]
    constructor
    · rintro ⟨gap, tail, hgap, htail, rfl⟩
      exact .marked hgap hname htail
    · intro h
      generalize hbase : "struct ".toList ++ rest = base at h
      cases h with
      | bare _ _ hplain => exact absurd (hbase ▸ List.prefix_append _ rest) hplain
      | marked hgap _ htail => exact ⟨_, _, hgap, htail, List.append_cancel_left hbase⟩
  | none =>
    have hplain : ¬ "struct ".toList <+: base := by
      rintro ⟨rest, hrest⟩
      rw [List.isPrefixOf?_eq_some_iff_append_eq.2 hrest] at hmark
      contradiction
    rw [Option.getD_none, trim_withoutBraces_iff hname hback]
    constructor
    · rintro ⟨gap, tail, hgap, htail, rfl⟩
      -- no blank stands in front of the name
      cases gap with
      | nil => exact .bare hname htail hplain
      | cons c gap =>
        have hc := hfront c (by simp)
        rw [hgap c (by simp)] at hc
        contradiction
    · intro h
      cases h with
      | @bare _ tail _ htail => exact ⟨[], tail, by simp, htail, rfl⟩
      | marked => exact absurd (List.prefix_append _ _) hplain

/-- A name does not end in a blank, with braces or without. -/
theorem ClosesName.isBlank_getLast? {front tail : List Char} (h : ClosesName tail)
    (hfront : Text.IsWord front) : ∀ c ∈ (front ++ tail).getLast?, Text.isBlank c = false := by
  cases h with
  | nothing =>
    rw [List.append_nil]
    exact fun c hc => hfront.2 c (List.mem_of_mem_getLast? hc)
  | braces =>
    have hbrace : Text.isBlank '\x7d' = false := by decide
    rw [← List.append_assoc]
    simpa using hbrace

/-- What is written for a base names it. -/
theorem WrittenBase.isName {base name : List Char} (h : WrittenBase base name) :
    Text.isName name = true := by
  cases h with
  | bare hname => exact hname
  | marked _ hname => exact hname

/-- Something is written for a base. -/
theorem WrittenBase.ne_nil {base name : List Char} (h : WrittenBase base name) : base ≠ [] := by
  cases h with
  | bare hname => simp [(isName_iff.1 hname).1]
  | marked => simp

/-- No blank stands in front of a base. -/
theorem WrittenBase.isBlank_head? {base name : List Char} (h : WrittenBase base name) :
    ∀ c ∈ base.head?, Text.isBlank c = false := by
  cases h with
  | bare hname =>
    have hword := isWord_of_isName hname
    rw [List.head?_append_of_ne_nil name hword.1]
    exact fun c hc => hword.2 c (List.mem_of_mem_head? hc)
  | marked =>
    have hs : Text.isBlank 's' = false := by decide
    simpa using hs

/-- No blank stands at the end of a base. -/
theorem WrittenBase.isBlank_getLast? {base name : List Char} (h : WrittenBase base name) :
    ∀ c ∈ base.getLast?, Text.isBlank c = false := by
  cases h with
  | bare hname htail => exact htail.isBlank_getLast? (isWord_of_isName hname)
  | marked _ hname htail =>
    have hword := isWord_of_isName hname
    rw [← List.append_assoc, List.getLast?_append_of_ne_nil _ (by simp [hword.1])]
    exact htail.isBlank_getLast? hword

/-- Trimming gives the base. -/
theorem WrittenBase.trim_of_padded {base name front : List Char} (h : WrittenBase base name)
    (hfront : Text.Padded base front) : Text.trim front = base :=
  Text.trim_of_padded hfront h.ne_nil h.isBlank_head? h.isBlank_getLast?

theorem ne_openingBracket_of_isBlank {gap : List Char} (h : ∀ c ∈ gap, Text.isBlank c = true) :
    ∀ c ∈ gap, (c != '[') = true := by
  intro c hc
  rw [bne_iff_ne]
  rintro rfl
  exact absurd (h '[' hc) (by decide)

theorem ne_openingBracket_of_isName {name : List Char} (h : Text.isName name = true) :
    ∀ c ∈ name, (c != '[') = true := by
  intro c hc
  rw [bne_iff_ne]
  rintro rfl
  exact absurd ((isName_iff.1 h).2 '[' hc) (by decide)

/-- No bracket stands in what closes a name. -/
theorem ClosesName.ne_openingBracket {tail : List Char} (h : ClosesName tail) :
    ∀ c ∈ tail, (c != '[') = true := by
  cases h with
  | nothing => simp
  | braces hgap => exact List.forall_mem_append.2 ⟨ne_openingBracket_of_isBlank hgap, by simp⟩

/-- No bracket stands in a base. -/
theorem WrittenBase.ne_openingBracket {base name : List Char} (h : WrittenBase base name) :
    ∀ c ∈ base, (c != '[') = true := by
  cases h with
  | bare hname htail =>
    exact List.forall_mem_append.2 ⟨ne_openingBracket_of_isName hname, htail.ne_openingBracket⟩
  | marked hgap hname htail =>
    refine List.forall_mem_append.2 ⟨by simp, List.forall_mem_append.2 ⟨?_, ?_⟩⟩
    · exact ne_openingBracket_of_isBlank hgap
    · exact List.forall_mem_append.2 ⟨ne_openingBracket_of_isName hname, htail.ne_openingBracket⟩

/-! ### Types -/

/-- Sizes that are there end with a bracket. -/
theorem WrittenSizes.endsWithBracket {cs : List Char} {sizes : List Nat} (h : WrittenSizes cs sizes)
    (hne : cs ≠ []) : cs.getLast? = some ']' := by
  induction h with
  | nil => contradiction
  | @cons inner size cs n sizes _ _ hcs ih =>
    have hsplit : '[' :: (inner ++ ']' :: cs) = ('[' :: inner ++ [']']) ++ cs := by simp
    rw [hsplit]
    by_cases hnil : cs = []
    · rw [hnil, List.append_nil, List.getLast?_append]
      rfl
    · rw [List.getLast?_append_of_ne_nil _ hnil, ih hnil]

/-- Sizes start with a bracket, if there are any. -/
theorem WrittenSizes.startsWithBracket {cs : List Char} {sizes : List Nat}
    (h : WrittenSizes cs sizes) : ∀ c ∈ cs.head?, (c != '[') = false := by
  cases h with
  | nil => simp
  | cons => simp

/-- Without the blanks around it a type is its base, with blanks after it if sizes follow, and its
    sizes. -/
theorem exists_trim_eq {base front brackets trail name : List Char} {sizes : List Nat}
    (hfront : Text.Padded base front) (hbase : WrittenBase base name)
    (hbrackets : WrittenSizes brackets sizes) (htrail : ∀ c ∈ trail, Text.isBlank c = true) :
    ∃ gap, (∀ c ∈ gap, Text.isBlank c = true)
      ∧ Text.trim (front ++ brackets ++ trail) = base ++ gap ++ brackets := by
  obtain ⟨lead, gap, hlead, hgap, rfl⟩ := hfront
  -- without brackets the gap is trimmed away as well
  by_cases hnil : brackets = []
  · subst hnil
    refine ⟨[], by simp, ?_⟩
    rw [List.append_nil, List.append_nil, List.append_nil]
    refine hbase.trim_of_padded ⟨lead, gap ++ trail, hlead, ?_, by simp only [List.append_assoc]⟩
    exact List.forall_mem_append.2 ⟨hgap, htrail⟩
  · refine ⟨gap, hgap, ?_⟩
    have hne := hbase.ne_nil
    refine Text.trim_of_padded ⟨lead, trail, hlead, htrail, by simp only [List.append_assoc]⟩
      (by simp [hne]) ?_ ?_
    · rw [List.append_assoc, List.head?_append_of_ne_nil _ hne]
      exact hbase.isBlank_head?
    · have hbracket : Text.isBlank ']' = false := by decide
      rw [List.getLast?_append_of_ne_nil _ hnil, hbrackets.endsWithBracket hnil]
      simpa using hbracket

namespace TypeExpr

/-- A text denotes a type iff there is a name before its first bracket and the rest is sizes in
    brackets. -/
theorem ofText?_eq_some_iff {text : String} {type : TypeExpr} :
    ofText? text = some type ↔
      Text.isName (readName ((Text.trim text.toList).takeWhile (· != '['))) = true
        ∧ ∃ sizes, readSizes? ((Text.trim text.toList).dropWhile (· != '[')) = some sizes
          ∧ (ofName (String.ofList (readName ((Text.trim text.toList).takeWhile (· != '['))))).withSizes
              sizes = type := by
  unfold ofText?
  by_cases hname : Text.isName (readName ((Text.trim text.toList).takeWhile (· != '['))) = true
  · simp only [hname, guard, if_true, Option.pure_def, Option.bind_eq_bind, Option.bind_some,
      Option.bind_eq_some_iff, Option.some.injEq, true_and]
  · simp [hname, guard, failure]

/-- **The language of types.** A text is read as a type iff it is written as one. -/
theorem ofText?_eq_some_iff_written {text : String} {type : TypeExpr} :
    ofText? text = some type ↔ WrittenType text.toList type := by
  rw [ofText?_eq_some_iff]
  constructor
  · rintro ⟨hname, sizes, hsizes, rfl⟩
    obtain ⟨lead, trail, hlead, htrail, htext⟩ := Text.padded_trim text.toList
    have hparts := List.takeWhile_append_dropWhile (p := (· != '[')) (l := Text.trim text.toList)
    generalize (Text.trim text.toList).takeWhile (· != '[') = front at *
    generalize (Text.trim text.toList).dropWhile (· != '[') = brackets at *
    rw [htext, ← hparts, ← List.append_assoc]
    -- the blanks in front of the text are in front of its base
    refine .intro ?_ ((readName_eq_iff hname).1 rfl) (readSizes?_eq_some_iff.1 hsizes) htrail
    obtain ⟨lead', gap, hlead', hgap, hfront⟩ := Text.padded_trim front
    refine ⟨lead ++ lead', gap, List.forall_mem_append.2 ⟨hlead, hlead'⟩, hgap, ?_⟩
    rw [List.append_assoc, List.append_assoc, ← List.append_assoc lead', ← hfront]
  · intro h
    generalize text.toList = cs at h
    cases h with
    | @intro front base name brackets trail sizes hfront hbase hbrackets htrail =>
      obtain ⟨gap, hgap, htrim⟩ := exists_trim_eq hfront hbase hbrackets htrail
      have hrun : ∀ c ∈ base ++ gap, (c != '[') = true :=
        List.forall_mem_append.2 ⟨hbase.ne_openingBracket, ne_openingBracket_of_isBlank hgap⟩
      obtain ⟨htake, hdrop⟩ := Text.takeWhile_append_of_head? hrun hbrackets.startsWithBracket
      have hread : readName (base ++ gap) = name := by
        have hbaseTrim : Text.trim (base ++ gap) = base :=
          hbase.trim_of_padded ⟨[], gap, by simp, hgap, rfl⟩
        rw [readName_eq_iff hbase.isName, hbaseTrim]
        exact hbase
      rw [htrim, htake, hdrop, hread]
      exact ⟨hbase.isName, sizes, readSizes?_eq_some_iff.2 hbrackets, rfl⟩

end TypeExpr

end ScriptAbi
