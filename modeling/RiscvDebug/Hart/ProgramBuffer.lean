import RiscvDebug.Hart.CodeRuns
import RiscvDebug.Hart.ExceptionReturn
import RiscvDebug.RunControl.CommandExecution

/-!
# The way to the program buffer

At WhereTo a hart finds a jump to the code of the command, and goes there with its registers as
they are (`advances_whereTo`): to the program buffer when the command has no transfer, and otherwise
to the generated code, which ends with a NOP before the program buffer. The program buffer itself
is arbitrary code of the hart (`ProgbufStep`).
-/

set_option autoImplicit false
set_option relaxedAutoImplicit false

namespace RiscvDebug.Hart

open Foundations DmMem

variable {cfg : Config} {xlen flen : ℕ}

/-! ### WhereTo -/

/-- A load from WhereTo. -/
theorem readWord_whereTo (r : DmMem.Regs cfg) (i : DmMem.Inputs cfg)
    (data : Vector (BitVec 32) cfg.dataCount) :
    readWord r i data whereToAddr =
      (whereToRdata r (i.withAccess data (readAccess cfg whereToAddr))).setWidth 32 := by
  have hlane : 8 * (whereToAddr.toNat % busBytes cfg) = 0 := by
    unfold busBytes
    rcases cfg.busWidth_eq with hwidth | hwidth <;> rw [hwidth] <;> rfl
  have hword := whereToWord_next (r := r) (i := i.withAccess data (readAccess cfg whereToAddr)) rfl
    (offset_readAccess whereToAddr)
  rw [DmMem.readWord, hlane, ← hword]
  ext index hindex
  simp

/-- While the command unit is busy with an Access Register command, WhereTo holds a jump to its
code. -/
theorem readWord_whereTo_busy {r : DmMem.Regs cfg} (i : DmMem.Inputs cfg)
    (data : Vector (BitVec 32) cfg.dataCount) (hbusy : r.state ≠ .idle)
    (hcmdtype : i.cmd.cmdtype = accessRegister) :
    decode (readWord r i data whereToAddr) =
      some (.jal 0 (romDistance 21 whereToAddr (DmTop.commandEntry i.cmd))) := by
  have hcmd : (i.withAccess data (readAccess cfg whereToAddr)).cmd = i.cmd := rfl
  rw [readWord_whereTo, whereToRdata, DmTop.hartCtrlQueue_cmdbusy, bne_iff_ne.mpr hbusy, if_pos rfl,
    hcmd, DmTop.commandEntry]
  simp only [hcmdtype, true_and, Bool.and_eq_true]
  split_ifs
  · decide
  · decide

section Jump

variable (hxlen : xlen = 32 ∨ xlen = 64) (haligned : cfg.dmBaseAddress.toNat % 4096 = 0)
  (e : Environment cfg xlen flen) {m : Machine cfg xlen flen}
include hxlen haligned

/-- The jump at WhereTo takes the hart to the code of the command, with its registers as they
are. -/
theorem codeStep_whereTo (hbusy : e.memory.state ≠ .idle)
    (hcmdtype : e.inputs.cmd.cmdtype = accessRegister) (hpc : m.pc = whereToAddress cfg xlen) :
    e.codeStep m =
      if e.traps m (.jal 0 (romDistance 21 whereToAddr (DmTop.commandEntry e.inputs.cmd))) then
        .done (.trapped m)
      else
        .next (m.withPc (dmBase cfg xlen + (DmTop.commandEntry e.inputs.cmd).setWidth xlen)) := by
  have hfetch : e.fetch m =
      some (.jal 0 (romDistance 21 whereToAddr (DmTop.commandEntry e.inputs.cmd))) := by
    rw [Environment.fetch, hpc, whereToAddress, debugOffset_add hxlen haligned, Option.bind_some,
      readWord_whereTo_busy e.inputs m.data hbusy hcmdtype]
  have hexecute : e.execute m
      (.jal 0 (romDistance 21 whereToAddr (DmTop.commandEntry e.inputs.cmd))) =
        some (m.withPc (dmBase cfg xlen + (DmTop.commandEntry e.inputs.cmd).setWidth xlen)) := by
    have hzero : m.setGpr 0 (m.pc + 4) = m := setGpr_zero m _
    rw [Environment.execute, hzero, hpc, whereToAddress,
      dmBase_add_romDistance hxlen haligned (by decide) (by decide)]
    rfl
  simp only [Environment.codeStep, hfetch, hexecute]

theorem advances_whereTo (hbusy : e.memory.state ≠ .idle)
    (hcmdtype : e.inputs.cmd.cmdtype = accessRegister)
    (htraps : ∀ imm, e.traps m (.jal 0 imm) = false) (hpc : m.pc = whereToAddress cfg xlen) :
    Advances e.codeStep 1 m
      (m.withPc (dmBase cfg xlen + (DmTop.commandEntry e.inputs.cmd).setWidth xlen)) := by
  refine Advances.single ?_
  rw [codeStep_whereTo hxlen haligned e hbusy hcmdtype hpc, htraps, if_neg Bool.false_ne_true]

end Jump

/-- The first word of the program buffer is behind the generated code. -/
theorem progbufPc_eq (cfg : Config) (xlen : ℕ) :
    dmBase cfg xlen + progBufBaseAddr.setWidth xlen = codeAddress cfg xlen 10 := rfl

/-! ### The program buffer -/

/-- A step of a hart in the program buffer. What the instruction of a word does is left open. -/
def ProgbufStep (e : Environment cfg xlen flen)
    (executes : BitVec 32 → Machine cfg xlen flen → Machine cfg xlen flen → Prop)
    (m after : Machine cfg xlen flen) : Prop :=
  ∃ position < progBufSize, m.pc = codeAddress cfg xlen (10 + position) ∧
    executes (readWord e.memory e.inputs m.data (commandOffset (10 + position))) m after

end RiscvDebug.Hart
