import ScriptAbi.Proofs.Call.Deferred
import ScriptAbi.Proofs.Template.Matches
import ScriptAbi.Proofs.Template.Wordwise

namespace ScriptAbi

/-!
# Calls that are final

Scripts and templates cut a text in two ways: a script's text is cut into words, of which a
placeholder is refused by its first character, while a template finds placeholders anywhere in it.
Still, what is read as a script has no placeholder.

* `exists_mem_words`: what is not blank stands in a word.
* `not_mem_of_ofAsm`: a text that is read as a script has no dollar sign.
* `length_substitute_empty_le`: a text gets shorter where its placeholders are filled with nothing,
  so that only a text with no placeholder stays the same with all values
  (`occurrences_eq_nil_of_substitute`).
* `fill_eq_self_of_script`: a call that renders to a script stays as it is.
-/

/-- **What is not blank** stands in a word of the text. -/
theorem exists_mem_words {cs : List Char} {c : Char} (hblank : Text.isBlank c = false)
    (hc : c ∈ cs) : ∃ w ∈ Text.words cs, c ∈ w := by
  induction cs using Text.text_induction with
  | nil => cases hc
  | blank b rest hb ih =>
    rw [Text.words_cons_blank hb]
    -- a blank in front is not the character
    rcases List.mem_cons.1 hc with rfl | hc
    · simp [hb] at hblank
    · exact ih hc
  | word w rest hw hrest ih =>
    rw [Text.words_append_of_isWord hw hrest]
    rcases List.mem_append.1 hc with hc | hc
    · exact ⟨w, by simp, hc⟩
    · obtain ⟨v, hv, hmem⟩ := ih hc
      exact ⟨v, by simp [hv], hmem⟩

/-- **A text that is read as a script** has no dollar sign, at the front of a word or inside one. -/
theorem not_mem_of_ofAsm {text : String} {script : Script} (h : Script.ofAsm text = .ok script) :
    '$' ∉ text.toList := by
  intro hdollar
  obtain ⟨w, hw, hmem⟩ := exists_mem_words (by decide) hdollar
  have hword : String.ofList w ∈ Text.wordsOf text := List.mem_map_of_mem hw
  obtain ⟨instr, -, hinstr⟩ := exists_of_mem_left (mapM_eq_ok_iff.1 h) hword
  exact not_mem_of_ofWord hinstr (by simpa using hmem)

/-- So a dollar sign makes a script fail. -/
theorem exists_ofAsm_eq_error {text : String} (h : '$' ∈ text.toList) :
    ∃ fault, Script.ofAsm text = .error fault := by
  cases hscript : Script.ofAsm text with
  | error fault => exact ⟨fault, rfl⟩
  | ok script => exact absurd h (not_mem_of_ofAsm hscript)

namespace Template

/-! ### Texts that stay the same -/

/-- **Placeholders filled with nothing** take their dollar signs off the text, if not more. -/
theorem length_substitute_empty_le (template : Template) :
    (template.substitute fun _ => some "").length + template.occurrences.length
      ≤ template.render.length := by
  -- a placeholder loses at least its dollar sign, and all else keeps its length
  induction template with
  | nil => exact Nat.le_refl _
  | cons piece template ih =>
    simp only [render, substitute, occurrences, List.map_cons, String.join_cons,
      String.length_append] at ih ⊢
    cases piece with
    | text cs =>
      rw [List.filterMap_cons_none rfl]
      simp only [Piece.substitute]
      omega
    | slot name =>
      have hslot : (Piece.slot name).slot? = some name := rfl
      rw [List.filterMap_cons_some hslot, List.length_cons]
      simp only [Piece.substitute, Option.getD_some, Option.getD_none, String.length_append]
      have hdollar : "$".length = 1 := rfl
      have hempty : "".length = 0 := rfl
      omega

/-- A text that stays the same where its placeholders are filled with nothing has none. -/
theorem occurrences_eq_nil_of_substitute {text : String}
    (h : (ofText text).substitute (fun _ => some "") = text) : (ofText text).occurrences = [] := by
  have hlength := length_substitute_empty_le (ofText text)
  rw [h, render_ofText] at hlength
  rw [← List.length_eq_zero_iff]
  omega

/-- With no placeholder there is nothing to fill. -/
theorem substitute_of_occurrences_eq_nil {template : Template} (h : template.occurrences = [])
    (values : String → Option String) : template.substitute values = template.render := by
  rw [render, substitute, substitute]
  congr 1
  refine List.map_congr_left fun piece hpiece => ?_
  cases piece with
  | text cs => rfl
  | slot name =>
    have hname : name ∈ template.occurrences := List.mem_filterMap.2 ⟨_, hpiece, rfl⟩
    simp [h] at hname

/-- A template has no slots iff no placeholder occurs in it. -/
theorem slots_eq_nil_iff {template : Template} :
    template.slots = [] ↔ template.occurrences = [] := by
  simp [List.eq_nil_iff_forall_not_mem, mem_slots_iff]

end Template

/-- A placeholder starts with a dollar sign. -/
theorem mem_of_hasSlot {text slot : String} (h : (Template.ofText text).hasSlot slot = true) :
    '$' ∈ text.toList := by
  obtain ⟨front, rest, heq, -⟩ := Template.hasSlot_ofText_iff.1 h
  simp [heq]

/-! ### Calls -/

/-- A call whose text has no dollar sign is left as it is, whatever the values. -/
theorem fill_eq_self_of_not_mem {call : Call} (h : '$' ∉ call.asm.toList)
    (values : String → Option String) : call.fill values = call := by
  rw [Call.fill, Template.substitute_of_not_mem values h]

/-- A text that is read as a script has no dollar sign in it. -/
theorem not_mem_of_script {call : Call} {script : Script} (h : call.script = .ok script) :
    '$' ∉ call.asm.toList :=
  not_mem_of_ofAsm (mapError_eq_ok_iff.1 h)

/-- **A call stays the same with all values** iff its text has no placeholder. -/
theorem forall_fill_eq_self_iff {call : Call} :
    (∀ values, call.fill values = call) ↔ (Template.ofText call.asm).slots = [] := by
  rw [Template.slots_eq_nil_iff]
  constructor
  · intro h
    exact Template.occurrences_eq_nil_of_substitute (congrArg Call.asm (h fun _ => some ""))
  · intro h values
    rw [Call.fill, Template.substitute_of_occurrences_eq_nil h, Template.render_ofText]

/-- **A call that renders to a script is final.** A text that is read as a script has no slot, and a
    text with a dollar sign anywhere, as one with a placeholder is, is not read as one. A call stays
    the same with all values iff its text has no slot; so it does if it renders to a script, and its
    bytes stay what they are. -/
theorem fill_eq_self_of_script (text : String) :
    (∀ script, Script.ofAsm text = .ok script → (Template.ofText text).slots = [])
      ∧ ('$' ∈ text.toList → ∃ fault, Script.ofAsm text = .error fault)
      ∧ (∀ slot, (Template.ofText text).hasSlot slot = true →
        ∃ fault, Script.ofAsm text = .error fault)
      ∧ ∀ call : Call, call.asm = text →
        ((∀ values, call.fill values = call) ↔ (Template.ofText text).slots = [])
          ∧ (∀ script, call.script = .ok script → ∀ values, call.fill values = call)
          ∧ ∀ bytes, call.toBytes = .ok bytes → ∀ values,
            (call.fill values).toBytes = .ok bytes := by
  refine ⟨fun script hscript => ?_, exists_ofAsm_eq_error, fun slot hslot => ?_, ?_⟩
  · -- a text that is read has no dollar sign, and so no placeholder
    rw [Template.slots_eq_nil_iff]
    exact occurrences_of_not_mem (not_mem_of_ofAsm hscript)
  · -- nor can a text be read that has a placeholder
    exact exists_ofAsm_eq_error (mem_of_hasSlot hslot)
  · rintro call rfl
    refine ⟨forall_fill_eq_self_iff, fun script hscript => ?_, fun bytes hbytes values => ?_⟩
    · exact fill_eq_self_of_not_mem (not_mem_of_script hscript)
    · obtain ⟨script, hscript, -⟩ := map_eq_ok_iff.1 hbytes
      rw [fill_eq_self_of_not_mem (not_mem_of_script hscript)]
      exact hbytes

/-- A word that ends in a placeholder does not start with a dollar sign, and is refused all the
    same; without it the text is a script. -/
theorem fill_eq_self_of_script_inside :
    Script.ofAsm "OP_1 ab$tail" = .error (.unknownWord "ab$tail")
      ∧ (Template.ofText "OP_1 ab$tail").hasSlot "tail" = true
      ∧ ∃ script, Script.ofAsm "OP_1 ab" = .ok script
        ∧ (Template.ofText "OP_1 ab").slots = []
        ∧ ∀ values, Call.fill values ⟨"f", [], .unlocking, "OP_1 ab"⟩
          = ⟨"f", [], .unlocking, "OP_1 ab"⟩ := by
  have hscript : Script.ofAsm "OP_1 ab" = .ok [.op 0x51, .ofData [0xab]] := by decide +kernel
  obtain ⟨hslots, -, -, hcall⟩ := fill_eq_self_of_script "OP_1 ab"
  obtain ⟨-, hfinal, -⟩ := hcall ⟨"f", [], .unlocking, "OP_1 ab"⟩ rfl
  have hcallScript : Call.script ⟨"f", [], .unlocking, "OP_1 ab"⟩
      = .ok [.op 0x51, .ofData [0xab]] := mapError_eq_ok_iff.2 hscript
  exact ⟨by decide +kernel, by decide +kernel, _, hscript, hslots _ hscript, hfinal _ hcallScript⟩

end ScriptAbi
