import RiscvDebug.Foundations.BoundedRun
import RiscvDebug.Hart.AccessRegister

/-!
# Runs of generated code, step by step

The run of a hart in generated code as a machine that goes on or ends, with the registers at its
end (`codeStep`, `run_eq`). A run through straight code that ends has executed the instructions
before the one it ends at, and that one has trapped or is none of the hart; or it has executed all
of them (`exit_straight`). For the code of a transfer `foldlM_of_halted` and `foldlM_of_trapped`
follow: what the hart has executed when it reaches the `ebreak`, and when an instruction traps.
-/

set_option autoImplicit false
set_option relaxedAutoImplicit false

namespace RiscvDebug.Hart

open Foundations DmMem

variable {cfg : Config} {xlen flen : ℕ}

/-! ### Steps -/

/-- How a run of generated code ends, with the registers there. -/
inductive CodeExit (cfg : Config) (xlen flen : ℕ)
  /-- At an `ebreak`. -/
  | halted (m : Machine cfg xlen flen)
  /-- At an instruction that traps. -/
  | trapped (m : Machine cfg xlen flen)
  /-- At a word that is no instruction of the hart, or at an access outside the debug memory. -/
  | stuck (m : Machine cfg xlen flen)

/-- The end of a run without the registers of a hart that does not reach an `ebreak`. -/
def CodeExit.outcome : CodeExit cfg xlen flen → Outcome cfg xlen flen
  | .halted m => .halted m
  | .trapped _ => .trapped
  | .stuck _ => .stuck

/-- The program counter of a trap. -/
def CodeExit.trapPc? : CodeExit cfg xlen flen → Option (BitVec xlen)
  | .trapped m => some m.pc
  | _ => none

theorem exists_trapped {exit : Option (CodeExit cfg xlen flen)} {pc : BitVec xlen}
    (htrap : exit.bind CodeExit.trapPc? = some pc) :
    ∃ last, exit = some (.trapped last) ∧ last.pc = pc := by
  obtain ⟨outcome, rfl, hpc⟩ := Option.bind_eq_some_iff.mp htrap
  cases outcome with
  | trapped last => exact ⟨last, rfl, Option.some_inj.mp hpc⟩
  | halted last | stuck last => exact absurd hpc.symm (Option.some_ne_none pc)

namespace Environment

variable (e : Environment cfg xlen flen)

/-- One step of a hart in generated code. -/
def codeStep (m : Machine cfg xlen flen) :
    StepResult (Machine cfg xlen flen) (CodeExit cfg xlen flen) :=
  match e.fetch m with
  | none => .done (.stuck m)
  | some .ebreak => .done (.halted m)
  | some instruction =>
    if e.traps m instruction then .done (.trapped m)
    else
      match e.execute m instruction with
      | none => .done (.stuck m)
      | some after => .next after

/-- The steps make up the run. -/
theorem run_eq (fuel : ℕ) (m : Machine cfg xlen flen) :
    e.run fuel m = ((boundedRun e.codeStep fuel m).map CodeExit.outcome).getD .unfinished := by
  induction fuel generalizing m with
  | zero => rfl
  | succ fuel ih =>
    rw [run, boundedRun, codeStep]
    cases hfetch : e.fetch m with
    | none => rfl
    | some instruction =>
      cases instruction with
      | ebreak => rfl
      | _ =>
        simp only
        cases e.traps m _ with
        | true => rfl
        | false =>
          simp only [Bool.false_eq_true, if_false]
          cases e.execute m _ with
          | none => rfl
          | some after => exact ih after

theorem codeStep_straight {m : Machine cfg xlen flen} {instruction : Instruction}
    (hfetch : e.fetch m = some instruction) (hstraight : instruction.isStraight = true) :
    e.codeStep m =
      if e.traps m instruction then .done (.trapped m)
      else
        match e.execute m instruction with
        | none => .done (.stuck m)
        | some after => .next after := by
  rw [codeStep, hfetch]
  cases instruction with
  | ebreak => exact absurd hstraight Bool.false_ne_true
  | _ => rfl

end Environment

/-! ### Straight code -/

section Straight

variable (hxlen : xlen = 32 ∨ xlen = 64) (haligned : cfg.dmBaseAddress.toNat % 4096 = 0)
  (e : Environment cfg xlen flen)
include hxlen haligned

theorem codeAddress_injective {index index' : ℕ} (hindex : index ≤ 18) (hindex' : index' ≤ 18) :
    codeAddress cfg xlen index = codeAddress cfg xlen index' ↔ index = index' := by
  rw [← BitVec.toNat_inj, codeAddress, codeAddress, dmBase_add_toNat hxlen haligned,
    dmBase_add_toNat hxlen haligned, commandOffset_toNat hindex, commandOffset_toNat hindex']
  omega

/-- A run through straight code ends at one of its instructions, with those before it executed, or
it executes all of them. -/
theorem exit_straight {code : List Instruction} {index fuel : ℕ} {m : Machine cfg xlen flen}
    {exit : CodeExit cfg xlen flen} (hpc : m.pc = codeAddress cfg xlen index)
    (hfits : index + code.length ≤ 10)
    (hcode : ∀ position < code.length,
      decode ((cfg.abstractCmd e.inputs.cmd).words[index + position]?.getD 0) = code[position]?)
    (hstraight : ∀ instruction ∈ code, instruction.isStraight = true)
    (hrun : boundedRun e.codeStep fuel m = some exit) :
    (∃ position < code.length, ∃ last, (code.take position).foldlM e.execute m = some last ∧
        last.pc = codeAddress cfg xlen (index + position) ∧
        (exit = .trapped last ∨ exit = .stuck last)) ∨
      ∃ rest last, code.foldlM e.execute m = some last ∧
        last.pc = codeAddress cfg xlen (index + code.length) ∧
        boundedRun e.codeStep rest last = some exit := by
  -- The induction is on the code; its first word is the one at the program counter.
  induction code generalizing index m fuel with
  | nil => exact Or.inr ⟨fuel, m, rfl, hpc, hrun⟩
  | cons instruction rest ih =>
    rw [List.length_cons] at hfits hcode
    have hfetch := hcode 0 (by omega)
    rw [Nat.add_zero, ← fetch_codeAddress hxlen haligned e (by omega) hpc] at hfetch
    have hplain := hstraight instruction List.mem_cons_self
    cases fuel with
    | zero => exact absurd hrun.symm (Option.some_ne_none exit)
    | succ fuel =>
      rw [boundedRun, e.codeStep_straight hfetch hplain] at hrun
      cases htraps : e.traps m instruction with
      | true =>
        rw [htraps] at hrun
        have hexit : CodeExit.trapped m = exit := Option.some_inj.mp hrun
        exact Or.inl ⟨0, Nat.succ_pos _, m, rfl, hpc, Or.inl hexit.symm⟩
      | false =>
        cases hexecute : e.execute m instruction with
        | none =>
          simp only [htraps, hexecute, Bool.false_eq_true, if_false] at hrun
          have hexit : CodeExit.stuck m = exit := Option.some_inj.mp hrun
          exact Or.inl ⟨0, Nat.succ_pos _, m, rfl, hpc, Or.inr hexit.symm⟩
        | some after =>
          simp only [htraps, hexecute, Bool.false_eq_true, if_false] at hrun
          have hpc' : after.pc = codeAddress cfg xlen (index + 1) := by
            rw [pc_of_isStraight hplain hexecute, hpc, codeAddress_succ hxlen (by omega)]
          have hfirst (code : List Instruction) :
              (instruction :: code).foldlM e.execute m = code.foldlM e.execute after := by
            rw [List.foldlM_cons, hexecute]
            rfl
          have hrest := ih hpc' (by omega)
            (tail_of_code (fun index ↦ decode ((cfg.abstractCmd e.inputs.cmd).words[index]?.getD 0))
              hcode)
            (fun other hother ↦ hstraight other (List.mem_cons_of_mem _ hother)) hrun
          rcases hrest with ⟨position, hposition, last, hlast, hend, hexit⟩ | ⟨rest', last, hlast,
            hend, hexit⟩
          · refine Or.inl ⟨position + 1, Nat.succ_lt_succ hposition, last, ?_, ?_, hexit⟩
            · rw [List.take_succ_cons, hfirst, hlast]
            · rw [hend, Nat.add_assoc, Nat.add_comm 1 position]
          · refine Or.inr ⟨rest', last, (hfirst rest).trans hlast, ?_, hexit⟩
            rw [hend, List.length_cons, Nat.add_assoc, Nat.add_comm 1 rest.length]

/-- Some steps through straight code execute its first instructions. -/
theorem foldlM_of_advances {code : List Instruction} {index : ℕ} {m last : Machine cfg xlen flen}
    (hpc : m.pc = codeAddress cfg xlen index) (hfits : index + code.length ≤ 10)
    (hcode : ∀ position < code.length,
      decode ((cfg.abstractCmd e.inputs.cmd).words[index + position]?.getD 0) = code[position]?)
    (hstraight : ∀ instruction ∈ code, instruction.isStraight = true)
    (hadvances : Advances e.codeStep code.length m last) :
    code.foldlM e.execute m = some last := by
  induction code generalizing index m with
  | nil => exact congrArg some hadvances
  | cons instruction rest ih =>
    rw [List.length_cons] at hfits hcode hadvances
    have hfetch := hcode 0 (by omega)
    rw [Nat.add_zero, ← fetch_codeAddress hxlen haligned e (by omega) hpc] at hfetch
    have hplain := hstraight instruction List.mem_cons_self
    obtain ⟨after, hstep, hrest⟩ := hadvances
    rw [e.codeStep_straight hfetch hplain] at hstep
    have hexecute : e.execute m instruction = some after := by
      split_ifs at hstep
      cases hexecute : e.execute m instruction with
      | none => simp [hexecute] at hstep
      | some middle =>
        rw [hexecute] at hstep
        exact congrArg some (StepResult.next.inj hstep)
    have hpc' : after.pc = codeAddress cfg xlen (index + 1) := by
      rw [pc_of_isStraight hplain hexecute, hpc, codeAddress_succ hxlen (by omega)]
    rw [List.foldlM_cons, hexecute]
    exact ih hpc' (by omega)
      (tail_of_code (fun index ↦ decode ((cfg.abstractCmd e.inputs.cmd).words[index]?.getD 0))
        hcode)
      (fun other hother ↦ hstraight other (List.mem_cons_of_mem _ hother)) hrest

/-! ### The code of a transfer -/

variable {name : RegisterName} {size : BitVec 3} {write postexec : Bool}
  (hgenerates : GeneratesTransfer cfg e.inputs.cmd name size write postexec)
  {start last : Machine cfg xlen flen} (hpc : start.pc = codeAddress cfg xlen 0) {fuel : ℕ}
include hgenerates hpc

/-- How a run of the code of a transfer ends. -/
theorem exit_code {exit : CodeExit cfg xlen flen}
    (hrun : boundedRun e.codeStep fuel start = some exit) :
    (∃ position < 9, ∃ last,
        ((code cfg name size write).take position).foldlM e.execute start = some last ∧
        last.pc = codeAddress cfg xlen position ∧
        (exit = .trapped last ∨ exit = .stuck last)) ∨
      ∃ rest last, (code cfg name size write).foldlM e.execute start = some last ∧
        last.pc = codeAddress cfg xlen 9 ∧ boundedRun e.codeStep rest last = some exit := by
  have hlength : (code cfg name size write).length = 9 := length_code name size write
  have hends := exit_straight hxlen haligned e hpc (by rw [hlength]; decide)
    (fun position hposition ↦ by
      rw [hlength] at hposition
      rw [Nat.zero_add, decode_words hgenerates (by omega), List.getElem?_append_left (by omega)])
    (isStraight_code name size write) hrun
  simpa only [hlength, Nat.zero_add] using hends

end Straight

/-- A run that halts does so with the registers at its end. -/
theorem exit_of_halted {e : Environment cfg xlen flen} {fuel : ℕ} {m last : Machine cfg xlen flen}
    (hrun : e.run fuel m = .halted last) : boundedRun e.codeStep fuel m = some (.halted last) := by
  rw [e.run_eq] at hrun
  cases hexit : boundedRun e.codeStep fuel m with
  | none => simp [hexit] at hrun
  | some exit =>
    cases exit with
    | halted final =>
      simp only [hexit, Option.map_some, Option.getD_some, CodeExit.outcome,
        Outcome.halted.injEq] at hrun
      rw [hrun]
    | trapped final | stuck final => simp [hexit, CodeExit.outcome] at hrun

section Transfer

variable (hxlen : xlen = 32 ∨ xlen = 64) (haligned : cfg.dmBaseAddress.toNat % 4096 = 0)
  (e : Environment cfg xlen flen) {name : RegisterName} {size : BitVec 3} {write : Bool}
  (hgenerates : GeneratesTransfer cfg e.inputs.cmd name size write false)
  {start last : Machine cfg xlen flen} (hpc : start.pc = codeAddress cfg xlen 0) {fuel : ℕ}
include hxlen haligned hgenerates

/-- Behind its code a transfer ends with an `ebreak`. -/
theorem exit_of_ebreak {exit : CodeExit cfg xlen flen} (hlast : last.pc = codeAddress cfg xlen 9)
    (hrun : boundedRun e.codeStep fuel last = some exit) : exit = .halted last := by
  have hfetch : e.fetch last = some .ebreak := by
    rw [fetch_codeAddress hxlen haligned e (by decide) hlast, decode_words hgenerates (by decide),
      List.getElem?_append_right (by rw [length_code]), length_code]
    rfl
  cases fuel with
  | zero => exact absurd hrun.symm (Option.some_ne_none exit)
  | succ fuel =>
    rw [boundedRun, Environment.codeStep, hfetch] at hrun
    exact (Option.some_inj.mp hrun).symm

include hpc

/-- A transfer that reaches the `ebreak` has executed its code. -/
theorem foldlM_of_halted (hrun : e.run fuel start = .halted last) :
    (code cfg name size write).foldlM e.execute start = some last := by
  rcases exit_code hxlen haligned e hgenerates hpc (exit_of_halted hrun) with
    ⟨-, -, middle, -, -, htrapped | hstuck⟩ | ⟨rest, middle, hmiddle, hend, hexit⟩
  · cases htrapped
  · cases hstuck
  · have hsame := exit_of_ebreak hxlen haligned e hgenerates hend hexit
    rw [hmiddle, CodeExit.halted.inj hsame]

/-- A transfer that traps has executed the instructions before. -/
theorem foldlM_of_trapped {position : ℕ} (hposition : position < 9)
    (hrun : boundedRun e.codeStep fuel start = some (.trapped last))
    (hlast : last.pc = codeAddress cfg xlen position) :
    ((code cfg name size write).take position).foldlM e.execute start = some last := by
  rcases exit_code hxlen haligned e hgenerates hpc hrun with
    ⟨other, hother, middle, hmiddle, hend, htrapped | hstuck⟩ | ⟨rest, middle, -, hend, hexit⟩
  · obtain rfl := CodeExit.trapped.inj htrapped
    rw [hend, codeAddress_injective hxlen haligned (by omega) (by omega)] at hlast
    rw [← hlast, hmiddle]
  · cases hstuck
  · cases exit_of_ebreak hxlen haligned e hgenerates hend hexit

end Transfer

end RiscvDebug.Hart
