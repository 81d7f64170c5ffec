import ScriptAbi.Proofs.Call.Constructor
import ScriptAbi.Proofs.Literal.Grammar
import ScriptAbi.Proofs.Template.Deferred

namespace ScriptAbi

/-!
# Placeholders filled later

A constructor's call fills the slots of its arguments, and the placeholders that stay are filled
later, from the text of the call.

* `not_mem_of_ofWord`: no word of a script has a dollar sign, so that the words of arguments have
  none (`plain_leafWords`).
* `asm_fill_ofConstructor`: a constructor's call that is filled later is its template filled at once.
* `fill_fill_eq_fill_or`: filling in two passes, for any text and any values.
-/

/-! ### Words of arguments -/

/-- No name of an opcode has a dollar sign in it. -/
private theorem not_mem_of_mem_names : ∀ entry ∈ Opcode.names, '$' ∉ entry.2.toList := by
  decide +kernel

/-- Nor has another name that an opcode goes by. -/
private theorem not_mem_of_mem_aliases : ∀ entry ∈ Opcode.aliases, '$' ∉ entry.1.toList := by
  decide +kernel

/-- **No word of a script has a dollar sign in it.** -/
theorem not_mem_of_ofWord {word : String} {instr : Instr} (h : Instr.ofWord word = .ok instr) :
    '$' ∉ word.toList := by
  unfold Instr.ofWord at h
  split at h
  · rename_i code hname
    rcases mem_of_ofName? hname with hmem | hmem
    · exact not_mem_of_mem_names _ hmem
    · exact not_mem_of_mem_aliases _ hmem
  · split_ifs at h
    split at h
    · rename_i data hdata
      -- a dollar sign is no digit
      intro hmem
      have hdigit := (writtenBytes_iff.2 hdata).isDigit '$' hmem
      revert hdigit
      decide
    · contradiction

/-- Values by name have no dollar sign in them if no value of the list has one. -/
theorem plain_lookup_ofList {pairs : List (String × String)}
    (h : ∀ pair ∈ pairs, '$' ∉ pair.2.toList) :
    Plain fun slot => (Named.ofList pairs).lookup slot := by
  intro slot value hvalue
  obtain ⟨front, back, rfl, -⟩ := Named.lookup_ofList_eq_some_iff.1 hvalue
  exact h (slot, value) (by simp)

/-- The words that fill slots have no dollar sign. -/
theorem plain_leafWords (style : SlotStyle) (values : List (String × Value)) :
    Plain fun slot => (Named.ofList (leafWords style values)).lookup slot := by
  apply plain_lookup_ofList
  intro pair hpair
  have hword := List.mem_map_of_mem (f := Prod.snd) hpair
  rw [map_snd_leafWords] at hword
  obtain ⟨value, -, hword⟩ := List.mem_flatMap.1 hword
  obtain ⟨scalar, hscalar, heq⟩ := List.mem_map.1 hword
  obtain ⟨kind, hkind⟩ := Value.kind?_of_mem_scalars hscalar
  obtain ⟨-, instr, hinstr⟩ := Value.ofWord_word hkind
  rw [← heq]
  exact not_mem_of_ofWord hinstr

/-! ### Passes -/

/-- **A constructor's call that is filled later** has the text of its template filled at once, in
    which the arguments have their way. -/
theorem asm_fill_ofConstructor {text : String} {params : List Param} {schemas : List Schema}
    {style : SlotStyle} {args : List Value} {call : Call} (hwhole : WholeWords text.toList)
    (h : Call.ofConstructor (Template.ofText text) params schemas style args = .ok call) :
    ∃ values, checkArguments schemas params args = .ok values ∧ ∀ later,
      (call.fill later).asm = (Template.ofText text).substitute fun slot =>
        ((Named.ofList (leafWords style values)).lookup slot).or (later slot) := by
  obtain ⟨-, values, hvalues, -, rfl⟩ := ofConstructor_eq_ok_iff.1 h
  refine ⟨values, hvalues, fun later => String.toList_inj.1 ?_⟩
  exact substitute_substitute (plain_leafWords style values) hwhole

/-- **Two passes are one.** Where each placeholder of a text is a whole word and no value has a dollar
    sign, filling the text and then filling what that gives is filling it once, with the values of
    the first pass and, for slots that have none there, of the second. The slots that are open
    between the passes are those that the first has no value for. If no slot has a value in both,
    the passes can be made in any order. So it is with the texts of calls, and with the arguments of
    a constructor as the first pass. -/
theorem fill_fill_eq_fill_or {text : String} {first second : String → Option String}
    (hwhole : ∀ w ∈ Text.words text.toList, WholeWord w)
    (hfirst : ∀ slot value, first slot = some value → '$' ∉ value.toList)
    (hsecond : ∀ slot value, second slot = some value → '$' ∉ value.toList) :
    (Template.ofText ((Template.ofText text).substitute first)).substitute second
        = (Template.ofText text).substitute (fun slot => (first slot).or (second slot))
      ∧ (∀ slot, slot ∈ (Template.ofText ((Template.ofText text).substitute first)).slots ↔
          slot ∈ (Template.ofText text).slots ∧ first slot = none)
      ∧ ((∀ slot, first slot = none ∨ second slot = none) →
          (Template.ofText ((Template.ofText text).substitute first)).substitute second
            = (Template.ofText ((Template.ofText text).substitute second)).substitute first)
      ∧ (∀ call : Call, call.asm = text →
          (call.fill first).fill second = call.fill fun slot => (first slot).or (second slot))
      ∧ ∀ params schemas style args call,
          Call.ofConstructor (Template.ofText text) params schemas style args = .ok call →
          ∃ values, checkArguments schemas params args = .ok values
            ∧ (call.fill second).asm = (Template.ofText text).substitute fun slot =>
              ((Named.ofList (leafWords style values)).lookup slot).or (second slot) := by
  have htwice {first second : String → Option String} (hplain : Plain first) :
      (Template.ofText ((Template.ofText text).substitute first)).substitute second
        = (Template.ofText text).substitute fun slot => (first slot).or (second slot) :=
    String.toList_inj.1 (substitute_substitute hplain hwhole)
  refine ⟨htwice hfirst, fun slot => ?_, fun hdisjoint => ?_, ?_, ?_⟩
  · have hopen : (Template.ofText ((Template.ofText text).substitute first)).occurrences
        = (Template.ofText text).occurrences.filter fun slot => (first slot).isNone :=
      occurrences_substitute hfirst hwhole
    rw [Template.mem_slots_iff, Template.mem_slots_iff, hopen, List.mem_filter,
      Option.isNone_iff_eq_none]
  · -- in either order a slot takes the one value that it has
    have hor : (fun slot => (first slot).or (second slot))
        = fun slot => (second slot).or (first slot) := by
      funext slot
      rcases hdisjoint slot with h | h <;> simp [h]
    rw [htwice hfirst, htwice hsecond, hor]
  · rintro call rfl
    simp only [Call.fill, htwice hfirst]
  · intro params schemas style args call hcall
    obtain ⟨values, hvalues, hfill⟩ := asm_fill_ofConstructor hwhole hcall
    exact ⟨values, hvalues, hfill second⟩

/-! A text in which a slot is met twice, and values with blanks in them and with nothing in them. -/

/-- A text with placeholders of several forms. -/
def deferredText : String := "$a OP_DROP\t$p.keys[1] $a\n$later"

/-- The values of the first pass. -/
def earlyValues (slot : String) : Option String :=
  (Named.ofList [("a", ""), ("p.keys[1]", " 01  02"), ("p", "03")]).lookup slot

/-- The value of the second. -/
def lateValues (slot : String) : Option String :=
  (Named.ofList [("later", "OP_1"), ("p.keys", "04")]).lookup slot

/-- Two passes over a text with a slot that is met twice and with one that only the second pass has
    a value for: in either order they do what one pass with both does. -/
theorem fill_fill_eq_fill_or_deferred :
    (Template.ofText deferredText).substitute earlyValues = " OP_DROP\t 01  02 \n$later"
      ∧ (Template.ofText deferredText).substitute (fun slot => (earlyValues slot).or (lateValues slot))
        = " OP_DROP\t 01  02 \nOP_1"
      ∧ (Template.ofText ((Template.ofText deferredText).substitute lateValues)).substitute earlyValues
        = " OP_DROP\t 01  02 \nOP_1" := by
  have hwhole : ∀ w ∈ Text.words deferredText.toList, WholeWord w := by decide +kernel
  have hearly : Plain earlyValues := plain_lookup_ofList (by decide)
  have hlate : Plain lateValues := plain_lookup_ofList (by decide)
  have hdisjoint : ∀ slot, earlyValues slot = none ∨ lateValues slot = none := by
    intro slot
    -- the second pass has values for these slots alone, and the first has none for them
    by_cases hmem : slot ∈ ["later", "p.keys"]
    · left
      simp only [List.mem_cons, List.not_mem_nil, or_false] at hmem
      rcases hmem with rfl | rfl <;> decide
    · right
      exact Named.lookup_ofList_eq_none_iff.2 hmem
  have hfilled : (Template.ofText deferredText).substitute earlyValues
      = " OP_DROP\t 01  02 \n$later" := by
    decide +kernel
  have hopen : (Template.ofText " OP_DROP\t 01  02 \n$later").substitute lateValues
      = " OP_DROP\t 01  02 \nOP_1" := by
    decide +kernel
  obtain ⟨htwice, -, hswap, -⟩ := fill_fill_eq_fill_or hwhole hearly hlate
  -- one order is computed, and the other two results come from the theorem
  rw [hfilled, hopen] at htwice
  exact ⟨hfilled, htwice.symm, by rw [← hswap hdisjoint, hfilled, hopen]⟩

end ScriptAbi
