import RiscvDebug.DebugModule.DmTopCycles
import RiscvDebug.Foundations.Temporal

/-!
# The command error

The field `cmderr` is meant to stay at the first error until the host clears its bits. An access
that an executing command refuses keeps to this, but an error of the harts or of the command unit
(`reportedError`) is written whatever the field holds. `cmderr_next` is the next value of the field,
and `firstErrorKept_iff` finds the runs in which the first error is kept: those in which no error
is reported on top of another one.
-/

set_option autoImplicit false
set_option relaxedAutoImplicit false

namespace RiscvDebug.DmTop

open Foundations

variable {cfg : Config}

/-! ### The next command error -/

/-- The error that `dm_mem` reports: an exception of a hart goes before an unsupported command, and
that before a command for a hart that is not halted. -/
def reportedError (s : Regs cfg) (i : Inputs cfg) : Option (BitVec 3) :=
  if i.slave.writes DmMem.exceptionAddr then some cmdErrorException
  else if s.csrs.cmdValid && cfg.unsupportedCommand s.csrs.command then some cmdErrNotSupported
  else if s.csrs.cmdValid && s.mem.state == .idle && !s.mem.halted.getLsbD s.selected then
    some cmdErrorHaltResume
  else none

/-- The error of a state: a command in Idle that does not start. -/
theorem stateBranch_error (r : DmMem.Regs cfg) (i : DmMem.Inputs cfg) :
    (if (DmMem.stateBranch r i).cmderrorValid then some (DmMem.stateBranch r i).cmderror
        else none) =
      if r.state == .idle && i.cmdValid &&
          !(r.halted.getLsbD i.selected && !cfg.unsupportedCommand i.cmd) then
        some cmdErrorHaltResume
      else none := by
  unfold DmMem.stateBranch
  cases r.state with
  | idle =>
    unfold DmMem.idleBranch
    cases i.cmdValid <;> cases r.halted.getLsbD i.selected <;>
      cases cfg.unsupportedCommand i.cmd <;> simp <;> split_ifs <;> simp_all
  | go => rfl
  | resume => rfl
  | cmdExecuting => rfl

theorem reportedError_eq (s : Regs cfg) (i : Inputs cfg) :
    (if (ctrl s i).cmderrorValid then some (ctrl s i).cmderror else none) = reportedError s i := by
  have hstate := stateBranch_error s.mem (memInputs s i false)
  have hcmdValid : (memInputs s i false).cmdValid = s.csrs.cmdValid := rfl
  have hcmd : (memInputs s i false).cmd = s.csrs.command := rfl
  have hslave : (memInputs s i false).slave = i.slave := rfl
  have hreset (c : DmMem.CtrlSignals) (reset : Bool) :
      (if reset then { c with state := .idle, go := false, resume := false } else c).cmderrorValid =
          c.cmderrorValid ∧
        (if reset then { c with state := .idle, go := false, resume := false } else c).cmderror =
          c.cmderror := by
    cases reset <;> exact ⟨rfl, rfl⟩
  rw [hcmdValid, hcmd, selected_memInputs] at hstate
  unfold ctrl DmMem.hartCtrlQueue reportedError
  simp only [(hreset _ _).1, (hreset _ _).2, hcmdValid, hcmd, hslave]
  cases i.slave.writes DmMem.exceptionAddr with
  | true => rfl
  | false =>
    simp only [Bool.false_eq_true, if_false]
    rw [Bool.and_comm (cfg.unsupportedCommand s.csrs.command)]
    by_cases hunsupported : (s.csrs.cmdValid && cfg.unsupportedCommand s.csrs.command) = true
    · rw [if_pos hunsupported, if_pos hunsupported]
      rfl
    · rw [if_neg hunsupported, if_neg hunsupported, hstate]
      cases hpulse : s.csrs.cmdValid with
      | false => simp
      | true =>
        have hsupported : cfg.unsupportedCommand s.csrs.command = false := by
          simpa [hpulse] using hunsupported
        cases s.mem.halted.getLsbD s.selected <;> simp [hsupported]

/-- The host writes `abstractcs` while the command unit is idle. -/
def clearsError (s : Regs cfg) (i : Inputs cfg) : Bool :=
  writes s i .abstractCS && !(ctrl s i).cmdbusy

/-- The error that is left of the old one when the host may clear bits of it. -/
def remainingError (s : Regs cfg) (i : Inputs cfg) : BitVec 3 :=
  if clearsError s i then ~~~ i.dmiReq.data.extractLsb' 8 3 &&& s.csrs.cmderr else s.csrs.cmderr

/-- An access that an executing command refuses, with no error pending. -/
def raisesBusyError (s : Regs cfg) (i : Inputs cfg) : Bool :=
  DmCsrs.needsIdleCommand s.csrs (csrInputs s i) && (ctrl s i).cmdbusy &&
    s.csrs.cmderr == cmdErrNone

theorem cmderr_next {s : Regs cfg} (i : Inputs cfg) (hactive : s.csrs.dmcontrol.dmactive = true) :
    (next s i).csrs.cmderr =
      (reportedError s i).getD
        (if raisesBusyError s i then cmdErrBusy else remainingError s i) := by
  have hcmderr := DmCsrs.cmderr_eq s.csrs (csrInputs s i)
  have hvalid : (csrInputs s i).cmderrorValid = (ctrl s i).cmderrorValid := rfl
  have herror : (csrInputs s i).cmderror = (ctrl s i).cmderror := rfl
  have hbusy : (csrInputs s i).cmdbusy = (ctrl s i).cmdbusy := rfl
  have hrequest : (csrInputs s i).dmiReq = i.dmiReq := rfl
  show (DmCsrs.next s.csrs (csrInputs s i)).cmderr = _
  unfold DmCsrs.next
  rw [hactive, if_pos rfl]
  show (DmCsrs.csrReadWrite s.csrs (csrInputs s i)).cmderr = _
  rw [hcmderr, hvalid, herror, hbusy, hrequest, ← reportedError_eq]
  cases hreported : (ctrl s i).cmderrorValid with
  | true => rfl
  | false =>
    simp only [Bool.false_eq_true, if_false, Option.getD_none]
    unfold raisesBusyError remainingError clearsError writes
    cases hidle : (ctrl s i).cmdbusy with
    | false => simp
    | true =>
      -- An executing command refuses the access, so that it clears nothing.
      have hneeds : DmCsrs.writes s.csrs (csrInputs s i) .abstractCS = true →
          DmCsrs.needsIdleCommand s.csrs (csrInputs s i) = true := by
        intro hwrites
        obtain ⟨hwrite, haddressed⟩ := Bool.and_eq_true_iff.mp hwrites
        unfold DmCsrs.needsIdleCommand
        rw [beq_iff_eq.mp haddressed]
        exact hwrite
      cases hwrites : DmCsrs.writes s.csrs (csrInputs s i) .abstractCS with
      | true => simp [hneeds hwrites]
      | false => cases DmCsrs.needsIdleCommand s.csrs (csrInputs s i) <;> simp

/-! ### The first error -/

/-- The command error keeps the first error. Once it is nonzero it stays as it is in a stretch of
cycles in which the module is active and the host does not write `abstractcs`; such a write leaves
the old value without the bits that it clears, and if nothing is left then an error that is
reported in the same cycle. -/
structure FirstErrorKept (inputs : ℕ → Inputs cfg) : Prop where
  kept : ∀ start stop, start ≤ stop → (run inputs start).csrs.cmderr ≠ cmdErrNone →
    (∀ time, start ≤ time → time < stop → (run inputs time).csrs.dmcontrol.dmactive = true ∧
      clearsError (run inputs time) (inputs time) = false) →
      (run inputs stop).csrs.cmderr = (run inputs start).csrs.cmderr
  cleared : ∀ time, (run inputs time).csrs.dmcontrol.dmactive = true →
    clearsError (run inputs time) (inputs time) = true →
      remainingError (run inputs time) (inputs time) ≠ cmdErrNone →
        (run inputs (time + 1)).csrs.cmderr = remainingError (run inputs time) (inputs time)
  notLost : ∀ time, (run inputs time).csrs.dmcontrol.dmactive = true →
    clearsError (run inputs time) (inputs time) = true →
      remainingError (run inputs time) (inputs time) = cmdErrNone →
        (run inputs (time + 1)).csrs.cmderr =
          (reportedError (run inputs time) (inputs time)).getD cmdErrNone

/-- An error is reported while another one is pending that the host does not clear. -/
def Overwrites (s : Regs cfg) (i : Inputs cfg) : Prop :=
  s.csrs.dmcontrol.dmactive = true ∧ remainingError s i ≠ cmdErrNone ∧
    ∃ error, reportedError s i = some error ∧ error ≠ remainingError s i

/-- A pending error that nothing overwrites loses the cleared bits only. -/
theorem cmderr_next_of_not_overwrites {s : Regs cfg} {i : Inputs cfg}
    (hactive : s.csrs.dmcontrol.dmactive = true) (hremaining : remainingError s i ≠ cmdErrNone)
    (hnot : ¬ Overwrites s i) : (next s i).csrs.cmderr = remainingError s i := by
  have hpending : s.csrs.cmderr ≠ cmdErrNone := by
    intro hnone
    apply hremaining
    unfold remainingError
    rw [hnone]
    split_ifs
    · exact BitVec.and_zero
    · rfl
  have hbusy : raisesBusyError s i = false := by
    rw [raisesBusyError, beq_false_of_ne hpending, Bool.and_false]
  rw [cmderr_next i hactive, hbusy, if_neg Bool.false_ne_true]
  cases hreported : reportedError s i with
  | none => rfl
  | some error =>
    by_contra hdiffers
    exact hnot ⟨hactive, hremaining, error, hreported, hdiffers⟩

/-- The first error of a run is kept exactly when no error of the run is reported while a different
one is pending. -/
theorem firstErrorKept_iff (inputs : ℕ → Inputs cfg) :
    FirstErrorKept inputs ↔ ∀ time, ¬ Overwrites (run inputs time) (inputs time) := by
  constructor
  · rintro hkept time ⟨hactive, hremaining, error, hreported, hdiffers⟩
    have hnext : (run inputs (time + 1)).csrs.cmderr = error := by
      rw [run_succ, cmderr_next _ hactive, hreported]
      rfl
    apply hdiffers
    cases hclears : clearsError (run inputs time) (inputs time) with
    | true =>
      rw [← hnext]
      exact hkept.cleared time hactive hclears hremaining
    | false =>
      have hold : remainingError (run inputs time) (inputs time) =
          (run inputs time).csrs.cmderr := by
        rw [remainingError, hclears, if_neg Bool.false_ne_true]
      rw [hold] at hremaining ⊢
      rw [← hnext]
      refine hkept.kept time (time + 1) (Nat.le_succ time) hremaining fun other hle hlt ↦ ?_
      obtain rfl : other = time := by omega
      exact ⟨hactive, hclears⟩
  · intro hnone
    refine ⟨?_, ?_, ?_⟩
    · intro start stop hle hpending hquiet
      refine eq_start_of_step (q := fun time ↦ (run inputs time).csrs.cmderr) hle ?_
      intro time hstart hstop hsame
      obtain ⟨hactive, hclears⟩ := hquiet time hstart hstop
      have hold : remainingError (run inputs time) (inputs time) =
          (run inputs time).csrs.cmderr := by
        rw [remainingError, hclears, if_neg Bool.false_ne_true]
      have hremaining : remainingError (run inputs time) (inputs time) ≠ cmdErrNone := by
        rw [hold, hsame]
        exact hpending
      rw [← hsame, ← hold]
      exact cmderr_next_of_not_overwrites hactive hremaining (hnone time)
    · intro time hactive _ hremaining
      exact cmderr_next_of_not_overwrites hactive hremaining (hnone time)
    · intro time hactive hclears hremaining
      have hbusy : raisesBusyError (run inputs time) (inputs time) = false := by
        rw [raisesBusyError, (by simpa using (Bool.and_eq_true_iff.mp hclears).2 :
          (ctrl (run inputs time) (inputs time)).cmdbusy = false), Bool.and_false, Bool.false_and]
      rw [run_succ, cmderr_next _ hactive, hbusy, if_neg Bool.false_ne_true, hremaining]

/-- The host activates the module, hart 0 halts, the host issues a command and reads a data
register too early; the hart then reports an exception. -/
def exceptionAfterBusyRun : ℕ → Inputs oneHart :=
  script
    [(Inputs.quiet oneHart).withRequest ⟨0x10, dtmWrite, 0x00000001⟩,
      (Inputs.quiet oneHart).withHartWrite DmMem.haltedAddr 0,
      (Inputs.quiet oneHart).withRequest ⟨0x17, dtmWrite, 0x00221008⟩,
      Inputs.quiet oneHart,
      (Inputs.quiet oneHart).withRequest ⟨0x04, dtmRead, 0⟩,
      (Inputs.quiet oneHart).withHartWrite DmMem.goingAddr 0,
      (Inputs.quiet oneHart).withHartWrite DmMem.exceptionAddr 0]

/-- The exception replaces the busy error, which came first. -/
theorem exceptionAfterBusyRun_overwrites : ¬ FirstErrorKept exceptionAfterBusyRun := by
  intro hkept
  have hfirst : (run exceptionAfterBusyRun 5).csrs.cmderr = cmdErrBusy := by decide +kernel
  have hlast : (run exceptionAfterBusyRun 7).csrs.cmderr = cmdErrorException := by decide +kernel
  have hquiet : ∀ time ≤ 6, 5 ≤ time →
      (run exceptionAfterBusyRun time).csrs.dmcontrol.dmactive = true ∧
        clearsError (run exceptionAfterBusyRun time) (exceptionAfterBusyRun time) = false := by
    decide +kernel
  have hsame := hkept.kept 5 7 (by omega) (by rw [hfirst]; decide)
    fun time hle hlt ↦ hquiet time (by omega) hle
  rw [hfirst, hlast] at hsame
  exact absurd hsame (by decide)

end RiscvDebug.DmTop
