import ScriptAbi.Proofs.State.RoundTrip
import Mathlib.Data.List.DropRight

namespace ScriptAbi

/-!
# Where a script keeps its state

The state of a script is what one collects from its end: the last instruction is left out, and then
instructions are taken backwards up to a return, or up to the start of the script.

* `Script.trailer`: the instructions that are collected in this way.
* `IsTrailer`, `isTrailer_iff`: the same without the scan, as the longest run with no bare return
  that ends right before the last instruction.
* `cells_eq_trailer_iff`: the cells of a script are its trailer, unless its last instruction is a
  return and another one stands before it.
* `cells_ne_trailer_of_last_return`: there they run over the return at which the state starts.
-/

/-- The instructions before the last one, collected backwards up to a bare return. -/
def Script.trailer (script : Script) : Script :=
  (List.dropLast script).rtakeWhile (· ≠ .op Opcode.ret)

/-- The run is the longest one with no bare return that ends right before the last instruction. -/
structure IsTrailer (run script : Script) : Prop where
  isSuffix : run <:+ List.dropLast script
  not_mem : .op Opcode.ret ∉ run
  length_le : ∀ other : Script, other <:+ List.dropLast script → .op Opcode.ret ∉ other →
    other.length ≤ run.length

variable {script run body : Script}

/-! ### The scan -/

/-- What stands after the last return has none in it. -/
theorem not_mem_rtakeWhile (body : Script) :
    .op Opcode.ret ∉ List.rtakeWhile (· ≠ .op Opcode.ret) body := by
  intro hmem
  simpa using List.mem_rtakeWhile_imp hmem

/-- Collecting backwards ends at the start of the instructions or at a return. -/
theorem eq_rtakeWhile_or (body : Script) :
    body = List.rtakeWhile (· ≠ .op Opcode.ret) body
      ∨ ∃ code, body = code ++ .op Opcode.ret :: List.rtakeWhile (· ≠ .op Opcode.ret) body := by
  induction body using List.reverseRecOn with
  | nil => exact .inl rfl
  | append_singleton body last ih =>
    by_cases hlast : last = .op Opcode.ret
    · rw [List.rtakeWhile_concat_neg _ _ _ (by simpa using hlast), hlast]
      exact .inr ⟨body, rfl⟩
    · rw [List.rtakeWhile_concat_pos _ _ _ (by simpa using hlast)]
      rcases ih with hall | ⟨code, hcode⟩
      · exact .inl (congrArg (· ++ [last]) hall)
      · exact .inr ⟨code, by simpa using congrArg (· ++ [last]) hcode⟩

/-- What the scan collects is such a run. -/
theorem isTrailer_trailer (script : Script) : IsTrailer script.trailer script where
  isSuffix := List.rtakeWhile_suffix _ _
  not_mem := not_mem_rtakeWhile _
  length_le other hsuffix hother := by
    rcases eq_rtakeWhile_or (List.dropLast script) with hall | ⟨code, hcode⟩
    · rw [hall] at hsuffix
      exact hsuffix.length_le
    · -- a longer run would have the return in it
      by_contra hle
      have hlonger : (.op Opcode.ret :: script.trailer : Script).length ≤ other.length := by
        rw [List.length_cons]
        omega
      have hlong : (.op Opcode.ret :: script.trailer) <:+ other :=
        List.suffix_of_suffix_length_le ⟨code, hcode.symm⟩ hsuffix hlonger
      exact hother (hlong.mem (by simp))

/-- **What the scan collects** is the longest run with no bare return before the last
    instruction. -/
theorem isTrailer_iff : IsTrailer run script ↔ run = script.trailer := by
  constructor
  · intro hrun
    have htrailer := isTrailer_trailer script
    have hle := htrailer.length_le run hrun.isSuffix hrun.not_mem
    have hge := hrun.length_le _ htrailer.isSuffix htrailer.not_mem
    exact (List.suffix_of_suffix_length_le hrun.isSuffix htrailer.isSuffix hle).eq_of_length_le hge
  · rintro rfl
    exact isTrailer_trailer script

/-! ### The cells -/

/-- The cells of the instructions with their positions are told by the instructions. -/
theorem map_instr_mapIdx (instrs : Script) :
    (instrs.mapIdx Cell.mk).map Cell.instr = instrs := by
  simp [List.mapIdx_eq_zipIdx_map, List.map_map, Function.comp_def]

/-- Where a return is the last instruction, all that stands before it is taken. -/
theorem cells_concat_ret (body : Script) :
    Script.cells (body ++ [.op Opcode.ret]) = body.mapIdx Cell.mk := by
  have hlast : Script.lastReturn? (body ++ [.op Opcode.ret]) = some body.length :=
    lastReturn?_append_ret body (by simp)
  simp [Script.cells, hlast]

/-- Where a return is the last instruction, all before it are cells. -/
theorem cells_of_getLast? (h : script.getLast? = some (.op Opcode.ret)) :
    script.cells = (List.dropLast script).mapIdx Cell.mk := by
  have hconcat : List.dropLast script ++ [.op Opcode.ret] = script :=
    List.dropLast_append_getLast? _ h
  rw [← cells_concat_ret, hconcat]

/-- And so it is where no return stands before the last instruction, whatever that one is. -/
theorem cells_concat_of_not_mem (hbody : .op Opcode.ret ∉ body) (last : Instr) :
    Script.cells (body ++ [last]) = body.mapIdx Cell.mk := by
  by_cases hlast : last = .op Opcode.ret
  · rw [hlast, cells_concat_ret]
  · have hnone : Script.lastReturn? (body ++ [last]) = none :=
      lastReturn?_eq_none (by simp [hbody, Ne.symm hlast])
    simp [Script.cells, hnone]

/-- **Elsewhere the cells are what the scan collects.** -/
theorem cells_eq_trailer
    (h : script.getLast? = some (.op Opcode.ret) → .op Opcode.ret ∉ List.dropLast script) :
    script.cells = script.trailer.mapIdx Cell.mk := by
  rcases List.eq_nil_or_concat script with rfl | ⟨body, last, rfl⟩
  · rfl
  · rw [List.concat_eq_append] at h ⊢
    rw [List.getLast?_concat, List.dropLast_concat, Option.some.injEq] at h
    rw [Script.trailer, List.dropLast_concat]
    -- either no return stands before the last instruction, or the cells begin after one
    rcases eq_rtakeWhile_or body with hall | ⟨code, hcode⟩
    · have hbody : .op Opcode.ret ∉ body := by
        rw [hall]
        exact not_mem_rtakeWhile body
      rw [← hall, cells_concat_of_not_mem hbody]
    · have hmem : .op Opcode.ret ∈ body := by
        rw [hcode]
        simp
      -- this is what the hypothesis rules out: the reader would stop at the closing return itself
      have hlast : last ≠ .op Opcode.ret := fun hlast => h hlast hmem
      rw [← cells_append_ret code (not_mem_rtakeWhile body) hlast, ← List.cons_append,
        ← List.append_assoc, ← hcode]

/-- **The cells of a script** are the longest run with no bare return before its last instruction,
    unless that instruction is a return and another one stands before it. There all that stands
    before the last instruction is taken, and this is the only way in which a return can be a
    cell. -/
theorem cells_eq_trailer_iff (script : Script) :
    (∀ run, IsTrailer run script ↔ run = script.trailer)
      ∧ (script.cells = script.trailer.mapIdx Cell.mk ↔
        (script.getLast? = some (.op Opcode.ret) → .op Opcode.ret ∉ List.dropLast script))
      ∧ ((∀ cell ∈ script.cells, cell.instr ≠ .op Opcode.ret) ↔
        (script.getLast? = some (.op Opcode.ret) → .op Opcode.ret ∉ List.dropLast script))
      ∧ (script.getLast? = some (.op Opcode.ret) →
        script.cells = (List.dropLast script).mapIdx Cell.mk) := by
  have hreturns : (∀ cell ∈ script.cells, cell.instr ≠ .op Opcode.ret) ↔
      .op Opcode.ret ∉ script.cells.map Cell.instr := by
    simp
  refine ⟨fun run => isTrailer_iff, ⟨fun heq hlast => ?_, cells_eq_trailer⟩, ?_, cells_of_getLast?⟩
  · -- cells with the same instructions are read off the same stretch
    have hsame : List.dropLast script = script.trailer := by
      rw [← map_instr_mapIdx (List.dropLast script), ← cells_of_getLast? hlast, heq,
        map_instr_mapIdx]
    rw [hsame]
    exact not_mem_rtakeWhile _
  · rw [hreturns]
    constructor
    · intro hcells hlast
      rwa [cells_of_getLast? hlast, map_instr_mapIdx] at hcells
    · intro h
      rw [cells_eq_trailer h, map_instr_mapIdx]
      exact not_mem_rtakeWhile _

/-! A script that ends in a return, with a return and a push before it. -/

/-- A number after a return, and one more return. -/
def closedScript : Script :=
  [.op Opcode.one, .op Opcode.ret, .push .direct [0x01], .op Opcode.ret]

/-- **The cells of a script that ends in a return** run over the return before them: the state of
    the script is the one push, and its cells are three, with the return among them. -/
theorem cells_ne_trailer_of_last_return :
    Script.ofAsm "OP_1 OP_RETURN 01 OP_RETURN" = .ok closedScript
      ∧ IsTrailer [.push .direct [0x01]] closedScript
      ∧ closedScript.cells ≠ [⟨0, .push .direct [0x01]⟩]
      ∧ closedScript.cells
        = [⟨0, .op Opcode.one⟩, ⟨1, .op Opcode.ret⟩, ⟨2, .push .direct [0x01]⟩] := by
  refine ⟨by decide +kernel, isTrailer_iff.2 (by decide), by decide, by decide⟩

end ScriptAbi
