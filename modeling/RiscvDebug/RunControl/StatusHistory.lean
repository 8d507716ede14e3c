import RiscvDebug.DebugModule.DmiHandshake
import RiscvDebug.RunControl.ResetAcknowledgements

/-!
# What `dmstatus` tells

The status that a debugger reads of the selected hart is that of the last event of each kind.
`dmstatus_tellsHistory` says which events these are: the hart is halted when it has written Halted
and neither Resuming nor a reset of the system has come since, its resume is acknowledged when it
has written Resuming and neither a reset nor a rise of `resumereq` has come since that found it
selected, and its reset, that of the start included, is reported until an acknowledgement finds it
selected. A write of `dmcontrol` that selects another hart at once counts for the hart that was
selected before. The three are instances of one fact about flags (`latch_iff`).
-/

set_option autoImplicit false
set_option relaxedAutoImplicit false

namespace RiscvDebug.DmTop

open Foundations

variable {cfg : Config}

/-! ### Events -/

/-- A hart signals that it is in debug mode. -/
def entersDebugMode (s : Regs cfg) (i : Inputs cfg) (hart : ℕ) : Prop :=
  s.csrs.dmcontrol.ndmreset = false ∧ i.hartWrites DmMem.haltedAddr hart = true

/-- A hart signals that it resumes. -/
def leavesDebugMode (s : Regs cfg) (i : Inputs cfg) (hart : ℕ) : Prop :=
  s.csrs.dmcontrol.ndmreset = false ∧ i.hartWrites DmMem.resumingAddr hart = true

/-- The host raises `resumereq` in a write that finds a hart selected, whichever hart it selects
itself. -/
def raisesResumereq (s : Regs cfg) (i : Inputs cfg) (hart : ℕ) : Prop :=
  s.csrs.dmcontrol.resumereq = false ∧ (writtenDmcontrol s i).resumereq = true ∧ s.selected = hart

/-- The host acknowledges the reset of a hart that is selected before the write. -/
def acksResetOf (s : Regs cfg) (i : Inputs cfg) (hart : ℕ) : Prop :=
  acksReset s i = true ∧ s.selected = hart

/-- The rest of the system is in reset. -/
def inReset (s : Regs cfg) : Prop := s.csrs.dmcontrol.ndmreset = true

/-! ### One cycle -/

theorem halted_next_iff (s : Regs cfg) (i : Inputs cfg) {hart : ℕ}
    (hselectable : cfg.selectableHarts.getLsbD hart = true) :
    (next s i).mem.halted.getLsbD hart = true ↔
      entersDebugMode s i hart ∨
        s.mem.halted.getLsbD hart = true ∧ ¬ (inReset s ∨ leavesDebugMode s i hart) := by
  rw [halted_next s i (lt_nrHarts_of_getLsbD hselectable), hselectable]
  unfold entersDebugMode leavesDebugMode inReset
  cases s.csrs.dmcontrol.ndmreset <;> cases i.hartWrites DmMem.resumingAddr hart <;> simp

theorem resuming_next_iff (s : Regs cfg) (i : Inputs cfg) {hart : ℕ}
    (hselectable : cfg.selectableHarts.getLsbD hart = true) :
    (next s i).mem.resuming.getLsbD hart = true ↔
      leavesDebugMode s i hart ∨
        s.mem.resuming.getLsbD hart = true ∧ ¬ (inReset s ∨ raisesResumereq s i hart) := by
  have hpulse : (csrSignals s i).clearResumeack =
      (!s.csrs.dmcontrol.resumereq && (writtenDmcontrol s i).resumereq) :=
    DmCsrs.clearResumeack_eq s.csrs (csrInputs s i)
  rw [resuming_next s i (lt_nrHarts_of_getLsbD hselectable), hselectable, hpulse]
  unfold leavesDebugMode inReset raisesResumereq
  cases s.csrs.dmcontrol.ndmreset <;> cases s.csrs.dmcontrol.resumereq <;>
    cases (writtenDmcontrol s i).resumereq <;> simp

theorem haveReset_next_iff (s : Regs cfg) (i : Inputs cfg) {hart : ℕ}
    (hselectable : cfg.selectableHarts.getLsbD hart = true) :
    haveReset (next s i) hart = true ↔
      i.ndmresetAck = true ∨ haveReset s hart = true ∧ ¬ acksResetOf s i hart := by
  rw [haveReset_next s i (lt_nrHarts_of_getLsbD hselectable), hselectable]
  unfold acksResetOf
  by_cases hselected : s.selected = hart
  · cases acksReset s i <;> simp [hselected]
  · have hother : hart ≠ s.selected := Ne.symm hselected
    simp [hselected, hother]

/-! ### Runs -/

section Runs

variable (inputs : ℕ → Inputs cfg)

/-- The hart is in debug mode, as far as it has signalled. -/
def HaltedSince (hart : ℕ) : ℕ → Prop :=
  SetSince False (fun time ↦ entersDebugMode (run inputs time) (inputs time) hart)
    fun time ↦ inReset (run inputs time) ∨ leavesDebugMode (run inputs time) (inputs time) hart

/-- The hart has resumed since it was last asked to. -/
def ResumedSince (hart : ℕ) : ℕ → Prop :=
  SetSince False (fun time ↦ leavesDebugMode (run inputs time) (inputs time) hart)
    fun time ↦ inReset (run inputs time) ∨ raisesResumereq (run inputs time) (inputs time) hart

/-- The hart has been reset since its reset was last acknowledged. -/
def ResetSince (hart : ℕ) : ℕ → Prop :=
  SetSince True (fun time ↦ (inputs time).ndmresetAck = true)
    fun time ↦ acksResetOf (run inputs time) (inputs time) hart

variable {hart : ℕ} (hselectable : cfg.selectableHarts.getLsbD hart = true) (time : ℕ)
include hselectable

theorem halted_iff :
    (run inputs time).mem.halted.getLsbD hart = true ↔ HaltedSince inputs hart time := by
  have hstart : (run inputs 0).mem.halted.getLsbD hart = true ↔ False := by
    simp [run, machine, Regs.reset, DmMem.Regs.reset]
  exact @latch_iff _ (fun time ↦ (run inputs time).mem.halted.getLsbD hart = true) _ _ hstart
    (fun time ↦ halted_next_iff (run inputs time) (inputs time) hselectable) time

theorem resuming_iff :
    (run inputs time).mem.resuming.getLsbD hart = true ↔ ResumedSince inputs hart time := by
  have hstart : (run inputs 0).mem.resuming.getLsbD hart = true ↔ False := by
    simp [run, machine, Regs.reset, DmMem.Regs.reset]
  exact @latch_iff _ (fun time ↦ (run inputs time).mem.resuming.getLsbD hart = true) _ _ hstart
    (fun time ↦ resuming_next_iff (run inputs time) (inputs time) hselectable) time

theorem haveReset_iff : haveReset (run inputs time) hart = true ↔ ResetSince inputs hart time := by
  have hhart := lt_nrHarts_of_getLsbD hselectable
  have hstart : haveReset (run inputs 0) hart = true ↔ True := by
    simp [haveReset, run, machine, Regs.reset, DmCsrs.Regs.reset, hhart]
  exact @latch_iff _ (fun time ↦ haveReset (run inputs time) hart = true) _ _ hstart
    (fun time ↦ haveReset_next_iff (run inputs time) (inputs time) hselectable) time

end Runs

/-! ### The answer to a read -/

/-- `dmstatus` in a cycle of a run. -/
def statusOf (inputs : ℕ → Inputs cfg) (time : ℕ) : Dmstatus :=
  DmCsrs.dmstatus (run inputs time).csrs (csrInputs (run inputs time) (inputs time))

/-- An accepted read of `dmstatus` is answered with the bits of the status. -/
theorem resp_of_reads {s : Regs cfg} {i : Inputs cfg}
    (hreads : DmCsrs.readsCsr s.csrs (csrInputs s i) .dmStatus = true) :
    answers s i = [⟨(DmCsrs.dmstatus s.csrs (csrInputs s i)).toBits, dtmSuccess⟩] := by
  obtain ⟨hread, haddressed⟩ := Bool.and_eq_true_iff.mp hreads
  have haccepts : accepts s i = true := (Bool.and_eq_true_iff.mp hread).1
  have hresp : (csrSignals s i).resp =
      (DmCsrs.dmiAccess s.csrs (csrInputs s i)).resp := rfl
  rw [answers, haccepts, if_pos rfl, hresp, DmCsrs.dmiAccess_of_read hread, DmCsrs.dmiRead,
    eq_of_beq haddressed]
  rfl

/-- In a cycle of a run, `dmstatus` tells of the selected hart what has happened to it last. A hart
that is not available is neither halted nor running. -/
structure StatusTells (inputs : ℕ → Inputs cfg) (hart time : ℕ) (status : Dmstatus) : Prop where
  halted : status.allhalted = true ↔
    (inputs time).unavailable.getLsbD hart = false ∧ HaltedSince inputs hart time
  running : status.allrunning = true ↔
    (inputs time).unavailable.getLsbD hart = false ∧ ¬ HaltedSince inputs hart time
  resumeack : status.allresumeack = true ↔ ResumedSince inputs hart time
  havereset : status.allhavereset = true ↔ ResetSince inputs hart time
  anys : status.anyhalted = status.allhalted ∧ status.anyrunning = status.allrunning ∧
    status.anyresumeack = status.allresumeack ∧ status.anyhavereset = status.allhavereset

/-- Whatever the host and the harts do, `dmstatus` tells what has happened last to the selected
hart, if that is a selectable one, and a read of `dmstatus` is answered with these bits. -/
theorem dmstatus_tellsHistory (inputs : ℕ → Inputs cfg) {hart : ℕ}
    (hselectable : cfg.selectableHarts.getLsbD hart = true) (time : ℕ)
    (hselected : (run inputs time).selected = hart) :
    StatusTells inputs hart time (statusOf inputs time) ∧
      (DmCsrs.readsCsr (run inputs time).csrs (csrInputs (run inputs time) (inputs time))
          .dmStatus = true →
        answers (run inputs time) (inputs time) =
          [⟨(statusOf inputs time).toBits, dtmSuccess⟩]) := by
  have hhalted := halted_iff inputs hselectable time
  have hresuming := resuming_iff inputs hselectable time
  have hreset := haveReset_iff inputs hselectable time
  have hselects : (run inputs time).csrs.selectedHart = hart := hselected
  refine ⟨⟨?_, ?_, ?_, ?_, rfl, rfl, rfl, rfl⟩, resp_of_reads⟩
  · rw [← hhalted, statusOf, DmCsrs.dmstatus]
    simp [hselects, csrInputs, and_comm]
  · rw [← hhalted, statusOf, DmCsrs.dmstatus]
    simp [hselects, csrInputs, and_comm]
  · rw [← hresuming, statusOf, DmCsrs.dmstatus]
    simp [hselects, csrInputs]
  · rw [← hreset, statusOf, DmCsrs.dmstatus, haveReset]
    simp [hselects]

/-- The second hart is selected and signals Halted before `dmstatus` is read. -/
def haltedSecondHart : ℕ → Inputs twoHarts :=
  script
    [(Inputs.quiet twoHarts).withRequest ⟨0x10, dtmWrite, 0x00000001⟩,
      (Inputs.quiet twoHarts).withRequest ⟨0x10, dtmWrite, 0x00010001⟩,
      (Inputs.quiet twoHarts).withHartWrite DmMem.haltedAddr 1,
      (Inputs.quiet twoHarts).withRequest ⟨0x11, dtmRead, 0⟩]

/-- The answer shows a hart that is halted and whose reset has not been acknowledged. -/
theorem haltedSecondHart_tells :
    answers (run haltedSecondHart 3) (haltedSecondHart 3) = [⟨0x000c0382, dtmSuccess⟩] ∧
      HaltedSince haltedSecondHart 1 3 ∧ ¬ ResumedSince haltedSecondHart 1 3 ∧
        ResetSince haltedSecondHart 1 3 := by
  obtain ⟨htells, hanswer⟩ := dmstatus_tellsHistory haltedSecondHart
    (show twoHarts.selectableHarts.getLsbD 1 = true by decide) 3 (by decide +kernel)
  refine ⟨(hanswer (by decide +kernel)).trans (by decide +kernel),
    (htells.halted.mp (by decide +kernel)).2, ?_, htells.havereset.mp (by decide +kernel)⟩
  rw [← htells.resumeack]
  decide +kernel

end RiscvDebug.DmTop
