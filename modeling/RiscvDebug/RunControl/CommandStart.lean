import RiscvDebug.RunControl.CommandErrors

/-!
# When an abstract command starts

An accepted trigger raises the command pulse for the next cycle, and in Idle the pulse starts the
command. `go_iff` is the exact condition of the transition from Idle to Go, and
`trigger_of_entersGo` finds the one trigger each transition answers.

Two things the module does not check make the results conditional. The pulse is not gated by the
command error, so `startsWithoutError_iff` needs that no trigger meets a pending error. The pulse
lasts for one cycle and `busy` rises two cycles after a trigger is accepted, so a trigger that
follows another one at once, or that meets a pending resume request, starts nothing, and no error
tells so unless the next cycle leaves one for another reason: `noneLost_iff` is the exact condition.
-/

set_option autoImplicit false
set_option relaxedAutoImplicit false

namespace RiscvDebug.DmTop

open Foundations

variable {cfg : Config}

/-! ### The transition from Idle to Go -/

/-- The hart control moves from Idle to Go in a cycle. -/
def EntersGo (inputs : ℕ → Inputs cfg) (time : ℕ) : Prop :=
  (run inputs time).mem.state = .idle ∧ (run inputs (time + 1)).mem.state = .go

instance (inputs : ℕ → Inputs cfg) (time : ℕ) : Decidable (EntersGo inputs time) :=
  inferInstanceAs (Decidable (_ ∧ _))

/-- The hart control would start a command whose pulse it sees: it is Idle, the harts are not
reset, no resume request goes first, the selected hart is halted and the command is supported. -/
def canStart (s : Regs cfg) : Bool :=
  s.mem.state == .idle && !s.csrs.dmcontrol.ndmreset && !resumeTaken s &&
    s.mem.halted.getLsbD s.selected && !cfg.unsupportedCommand s.csrs.command

/-- The hart control enters Go from Idle exactly when it sees the command pulse and can start. -/
theorem go_iff (s : Regs cfg) (i : Inputs cfg) :
    s.mem.state = .idle ∧ (next s i).mem.state = .go ↔ s.csrs.cmdValid ∧ canStart s := by
  constructor
  · rintro ⟨hidle, hgo⟩
    rw [state_next_of_idle i hidle] at hgo
    split_ifs at hgo with hndmreset hresume hcommand
    simp only [commandTaken, Bool.and_eq_true] at hcommand
    obtain ⟨⟨hpulse, hhalted⟩, hsupported⟩ := hcommand
    refine ⟨hpulse, ?_⟩
    simp [canStart, hidle, hndmreset, hresume, hhalted, hsupported]
  · rintro ⟨hpulse, hstart⟩
    simp only [canStart, Bool.and_eq_true, beq_iff_eq] at hstart
    obtain ⟨⟨⟨⟨hidle, hndmreset⟩, hresume⟩, hhalted⟩, hsupported⟩ := hstart
    refine ⟨hidle, ?_⟩
    rw [state_next_of_idle i hidle, if_neg (by simpa using hndmreset),
      if_neg (by simpa using hresume), if_pos]
    simp only [commandTaken, hpulse, hhalted, hsupported, Bool.and_self]

/-- A trigger that the module takes while it is active. -/
def takesTrigger (s : Regs cfg) (i : Inputs cfg) : Bool := s.csrs.dmcontrol.dmactive && triggers s i

/-- A trigger is taken when the accepted access asks for the command and is answered with
success. -/
theorem triggers_iff (s : Regs cfg) (i : Inputs cfg) :
    triggers s i ↔ DmCsrs.isTrigger s.csrs (csrInputs s i) ∧
      (csrSignals s i).resp.resp = dtmSuccess := by
  unfold triggers DmCsrs.triggers csrSignals
  cases htrigger : DmCsrs.isTrigger s.csrs (csrInputs s i) with
  | false => simp
  | true =>
    rw [DmCsrs.resp_of_isTrigger htrigger]
    cases (csrInputs s i).cmdbusy <;> simp [dtmSuccess, dtmBusy]

/-- The command pulse is up in the cycle after a trigger is taken, and only there. -/
theorem trigger_of_pulse {inputs : ℕ → Inputs cfg} {time : ℕ}
    (hpulse : (run inputs time).csrs.cmdValid = true) :
    ∃ before, time = before + 1 ∧ takesTrigger (run inputs before) (inputs before) := by
  cases time with
  | zero => exact absurd hpulse (by simp [run, machine, Regs.reset, DmCsrs.Regs.reset])
  | succ before =>
    refine ⟨before, rfl, ?_⟩
    rw [run_succ, cmdValid_next] at hpulse
    exact hpulse

/-- Each entry of Go answers the trigger taken in the cycle before, and so no two triggers share
an entry. -/
theorem trigger_of_entersGo {inputs : ℕ → Inputs cfg} {time : ℕ} (hgo : EntersGo inputs time) :
    ∃ before, time = before + 1 ∧ takesTrigger (run inputs before) (inputs before) :=
  trigger_of_pulse ((go_iff (run inputs time) (inputs time)).mp hgo).1

/-! ### Commands and pending errors -/

/-- Every command that starts answers a trigger that found no pending command error. -/
def StartsWithoutError (inputs : ℕ → Inputs cfg) : Prop :=
  ∀ time, EntersGo inputs time →
    ∃ before, time = before + 1 ∧ takesTrigger (run inputs before) (inputs before) ∧
      (run inputs before).csrs.cmderr = cmdErrNone

/-- A trigger is taken while a command error is pending, and the hart control can start it. -/
def TriggersUnderError (inputs : ℕ → Inputs cfg) (time : ℕ) : Prop :=
  takesTrigger (run inputs time) (inputs time) ∧ (run inputs time).csrs.cmderr ≠ cmdErrNone ∧
    canStart (run inputs (time + 1))

/-- The commands of a run start without a pending error exactly when no trigger of the run meets
one in a state in which the hart control can start it: the module itself does not gate them. -/
theorem startsWithoutError_iff (inputs : ℕ → Inputs cfg) :
    StartsWithoutError inputs ↔ ∀ time, ¬ TriggersUnderError inputs time := by
  constructor
  · rintro hstarts time ⟨htrigger, herror, hstart⟩
    have hpulse : (run inputs (time + 1)).csrs.cmdValid = true := by
      rw [run_succ, cmdValid_next]
      exact htrigger
    have hgo : EntersGo inputs (time + 1) :=
      (go_iff (run inputs (time + 1)) (inputs (time + 1))).mpr ⟨hpulse, hstart⟩
    obtain ⟨before, htime, -, hnone⟩ := hstarts (time + 1) hgo
    obtain rfl : time = before := by omega
    exact herror hnone
  · intro hclear time hgo
    obtain ⟨before, rfl, htrigger⟩ := trigger_of_entersGo hgo
    refine ⟨before, rfl, htrigger, ?_⟩
    by_contra herror
    obtain ⟨-, hstart⟩ := (go_iff (run inputs (before + 1)) (inputs (before + 1))).mp hgo
    exact hclear before ⟨htrigger, herror, hstart⟩

/-- The host activates the module, hart 0 halts, and the host issues an unsupported command; in the
cycle after the error has been recorded it issues a supported one. -/
def pendingErrorRun : ℕ → Inputs oneHart :=
  script
    [(Inputs.quiet oneHart).withRequest ⟨0x10, dtmWrite, 0x00000001⟩,
      (Inputs.quiet oneHart).withHartWrite DmMem.haltedAddr 0,
      (Inputs.quiet oneHart).withRequest ⟨0x17, dtmWrite, 0xff000000⟩,
      Inputs.quiet oneHart,
      (Inputs.quiet oneHart).withRequest ⟨0x17, dtmWrite, 0x00221008⟩]

/-- A command starts although the error of an earlier command is pending. -/
theorem pendingErrorRun_starts : ¬ StartsWithoutError pendingErrorRun := by
  intro hstarts
  have hgo : EntersGo pendingErrorRun 5 := by decide +kernel
  obtain ⟨before, htime, -, hnone⟩ := hstarts 5 hgo
  obtain rfl : before = 4 := by omega
  have herror : (run pendingErrorRun 4).csrs.cmderr = cmdErrNotSupported := by decide +kernel
  rw [herror] at hnone
  exact absurd hnone (by decide)

/-! ### Triggers that are dropped -/

/-- A trigger that is answered with success while the module is active and the harts are not
reset. -/
def TriggerAt (inputs : ℕ → Inputs cfg) (time : ℕ) : Prop :=
  DmCsrs.isTrigger (run inputs time).csrs (csrInputs (run inputs time) (inputs time)) = true ∧
    (csrSignals (run inputs time) (inputs time)).resp.resp = dtmSuccess ∧
    (run inputs time).csrs.dmcontrol.dmactive = true ∧
    (run inputs time).csrs.dmcontrol.ndmreset = false

instance (inputs : ℕ → Inputs cfg) (time : ℕ) : Decidable (TriggerAt inputs time) :=
  inferInstanceAs (Decidable (_ ∧ _))

/-- The trigger of a cycle starts its own command: the hart control enters Go for it at once, with
the command word that is in force after the trigger. -/
def StartsOwn (inputs : ℕ → Inputs cfg) (time : ℕ) : Prop :=
  EntersGo inputs (time + 1) ∧
    (run inputs (time + 2)).csrs.command = (run inputs (time + 1)).csrs.command

/-- No trigger is lost: each one starts its own command, or leaves a command error. As the entry of
Go is that of the cycle after the trigger, no two triggers share one. -/
def NoneLost (inputs : ℕ → Inputs cfg) : Prop :=
  ∀ time, TriggerAt inputs time →
    StartsOwn inputs time ∨ (run inputs (time + 2)).csrs.cmderr ≠ cmdErrNone

/-- A write of `command` in this cycle repeats the command word. -/
def KeepsCommand (s : Regs cfg) (i : Inputs cfg) : Prop :=
  writes s i .command = true → Command.ofBits i.dmiReq.data = s.csrs.command

instance (s : Regs cfg) (i : Inputs cfg) : Decidable (KeepsCommand s i) :=
  inferInstanceAs (Decidable (_ → _))

/-- A trigger is spaced from what else starts: the hart control does not leave Idle in its cycle,
for another command or for a resume, and in the cycle after it no resume request goes first and the
host does not replace the command. -/
def Spaced (inputs : ℕ → Inputs cfg) (time : ℕ) : Prop :=
  commandTaken (run inputs time) = false ∧ resumeTaken (run inputs time) = false ∧
    resumeTaken (run inputs (time + 1)) = false ∧
    KeepsCommand (run inputs (time + 1)) (inputs (time + 1))

instance (inputs : ℕ → Inputs cfg) (time : ℕ) : Decidable (Spaced inputs time) :=
  inferInstanceAs (Decidable (_ ∧ _))

/-- A cycle leaves a command error: `dm_mem` reports one, an access is refused that needs an idle
command unit, or the host does not clear all of the error that is pending. -/
def LeavesError (s : Regs cfg) (i : Inputs cfg) : Prop :=
  (reportedError s i).isSome = true ∨ raisesBusyError s i = true ∨ remainingError s i ≠ cmdErrNone

instance (s : Regs cfg) (i : Inputs cfg) : Decidable (LeavesError s i) :=
  inferInstanceAs (Decidable (_ ∨ _))

/-- A trigger that is answered with success is taken. -/
theorem TriggerAt.takes {inputs : ℕ → Inputs cfg} {time : ℕ} (htrigger : TriggerAt inputs time) :
    triggers (run inputs time) (inputs time) = true ∧
      takesTrigger (run inputs time) (inputs time) = true := by
  obtain ⟨hkind, hanswer, hactive, -⟩ := htrigger
  have htriggers := (triggers_iff _ _).mpr ⟨hkind, hanswer⟩
  exact ⟨htriggers, Bool.and_eq_true_iff.mpr ⟨hactive, htriggers⟩⟩

/-- A trigger finds the hart control Idle. -/
theorem idle_of_triggers {s : Regs cfg} {i : Inputs cfg} (htrigger : triggers s i = true) :
    s.mem.state = .idle := by
  have hbusy : (csrInputs s i).cmdbusy = false := by
    simpa using (Bool.and_eq_true_iff.mp htrigger).2
  have hctrl : (ctrl s i).cmdbusy = false := hbusy
  rw [cmdbusy_eq] at hctrl
  simpa using hctrl

/-- A trigger is no write of `dmcontrol`. -/
theorem not_writes_of_triggers {s : Regs cfg} {i : Inputs cfg} (htrigger : triggers s i = true) :
    writes s i .dmControl = false := by
  have hkind := (Bool.and_eq_true_iff.mp htrigger).1
  unfold DmCsrs.isTrigger at hkind
  unfold writes DmCsrs.writes
  cases haddressed : DmCsrs.addressed (csrInputs s i) <;> simp [haddressed] at hkind ⊢

theorem writtenDmcontrol_of_triggers {s : Regs cfg} {i : Inputs cfg}
    (htrigger : triggers s i = true) : writtenDmcontrol s i = s.csrs.dmcontrol :=
  writtenDmcontrol_of_not_writes (not_writes_of_triggers htrigger)

/-- The cycle after a trigger: the pulse is up, the module is still active, and the harts are
still not reset. -/
theorem next_of_takesTrigger {inputs : ℕ → Inputs cfg} {time : ℕ}
    (htakes : takesTrigger (run inputs time) (inputs time) = true)
    (hndmreset : (run inputs time).csrs.dmcontrol.ndmreset = false) :
    (run inputs (time + 1)).csrs.cmdValid = true ∧
      (run inputs (time + 1)).csrs.dmcontrol.dmactive = true ∧
      (run inputs (time + 1)).csrs.dmcontrol.ndmreset = false := by
  obtain ⟨hactive, htriggers⟩ := Bool.and_eq_true_iff.mp htakes
  have hwritten := writtenDmcontrol_of_triggers htriggers
  refine ⟨?_, ?_, ?_⟩
  · rw [run_succ, cmdValid_next]
    exact htakes
  · rw [run_succ, dmactive_next, hwritten]
    exact hactive
  · rw [run_succ, ndmreset_next, hwritten, hndmreset, Bool.and_false]

/-- After a trigger the hart control is Idle exactly when it starts nothing else in its cycle. -/
theorem TriggerAt.idle_next_iff {inputs : ℕ → Inputs cfg} {time : ℕ}
    (htrigger : TriggerAt inputs time) :
    (run inputs (time + 1)).mem.state = .idle ↔
      commandTaken (run inputs time) = false ∧ resumeTaken (run inputs time) = false := by
  have hidle := idle_of_triggers htrigger.takes.1
  rw [run_succ, state_next_of_idle (inputs time) hidle, htrigger.2.2.2]
  cases commandTaken (run inputs time) <;> cases resumeTaken (run inputs time) <;> simp

/-- The next command error of an active module. -/
theorem cmderr_next_ne_none_iff {s : Regs cfg} (i : Inputs cfg)
    (hactive : s.csrs.dmcontrol.dmactive = true) :
    (next s i).csrs.cmderr ≠ cmdErrNone ↔ LeavesError s i := by
  have hreport : ∀ error ∈ reportedError s i, error ≠ cmdErrNone := by
    intro error herror
    unfold reportedError at herror
    split_ifs at herror <;>
      simp only [Option.mem_def, Option.some.injEq, reduceCtorEq] at herror <;>
      subst herror <;> decide
  rw [cmderr_next i hactive]
  unfold LeavesError
  cases hreported : reportedError s i with
  | some error => simpa using hreport error hreported
  | none =>
    cases raisesBusyError s i with
    | true => simp [cmdErrBusy, cmdErrNone]
    | false => simp

/-- A pulse that does not start a command in Idle is reported as an error. -/
theorem leavesError_of_not_startable {s : Regs cfg} {i : Inputs cfg}
    (hpulse : s.csrs.cmdValid = true) (hidle : s.mem.state = .idle)
    (hcommand : commandTaken s = false) : LeavesError s i := by
  left
  unfold reportedError
  rw [hpulse, hidle]
  cases hhalted : s.mem.halted.getLsbD s.selected with
  | false => split_ifs <;> simp_all
  | true =>
    have hunsupported : cfg.unsupportedCommand s.csrs.command = true := by
      simpa [commandTaken, hpulse, hhalted] using hcommand
    split_ifs <;> simp_all

/-- An idle command unit keeps its command in a cycle exactly when the host does not replace it. -/
theorem command_next_eq_iff {s : Regs cfg} (i : Inputs cfg)
    (hactive : s.csrs.dmcontrol.dmactive = true) (hidle : s.mem.state = .idle) :
    (next s i).csrs.command = s.csrs.command ↔ KeepsCommand s i := by
  rw [command_next, if_pos hactive, hidle, beq_self_eq_true, Bool.and_true]
  unfold KeepsCommand
  cases writes s i .command <;> simp

/-- Where no error tells of it, a trigger starts its own command exactly when it is spaced. -/
theorem TriggerAt.startsOwn_iff {inputs : ℕ → Inputs cfg} {time : ℕ}
    (htrigger : TriggerAt inputs time)
    (hnone : ¬ LeavesError (run inputs (time + 1)) (inputs (time + 1))) :
    StartsOwn inputs time ↔ Spaced inputs time := by
  obtain ⟨hpulse, hactive, hndmreset⟩ :=
    next_of_takesTrigger htrigger.takes.2 htrigger.2.2.2
  constructor
  · rintro ⟨hgo, hcommand⟩
    obtain ⟨hcommandBefore, hresumeBefore⟩ := htrigger.idle_next_iff.mp hgo.1
    have hstart := ((go_iff (run inputs (time + 1)) (inputs (time + 1))).mp hgo).2
    have hresume : resumeTaken (run inputs (time + 1)) = false := by
      simp only [canStart, Bool.and_eq_true, Bool.not_eq_true'] at hstart
      exact hstart.1.1.2
    exact ⟨hcommandBefore, hresumeBefore, hresume,
      (command_next_eq_iff _ hactive hgo.1).mp hcommand⟩
  · rintro ⟨hcommandBefore, hresumeBefore, hresume, hkept⟩
    have hidle := htrigger.idle_next_iff.mpr ⟨hcommandBefore, hresumeBefore⟩
    have hcommand : commandTaken (run inputs (time + 1)) = true := by
      by_contra hnot
      exact hnone (leavesError_of_not_startable hpulse hidle (by simpa using hnot))
    refine ⟨⟨hidle, ?_⟩, (command_next_eq_iff _ hactive hidle).mpr hkept⟩
    rw [run_succ, state_next_of_idle _ hidle, hndmreset, hresume, hcommand]
    rfl

/-- No trigger of a run is lost exactly when each one is spaced, or is followed by a cycle that
leaves an error. -/
theorem noneLost_iff (inputs : ℕ → Inputs cfg) :
    NoneLost inputs ↔ ∀ time, TriggerAt inputs time →
      Spaced inputs time ∨ LeavesError (run inputs (time + 1)) (inputs (time + 1)) := by
  refine forall_congr' fun time ↦ forall_congr' fun htrigger ↦ ?_
  have hactive := (next_of_takesTrigger htrigger.takes.2 htrigger.2.2.2).2.1
  have herror := cmderr_next_ne_none_iff (inputs (time + 1)) hactive
  rw [run_succ inputs (time + 1), herror]
  by_cases hleaves : LeavesError (run inputs (time + 1)) (inputs (time + 1))
  · exact iff_of_true (Or.inr hleaves) (Or.inr hleaves)
  · rw [or_iff_left hleaves, or_iff_left hleaves]
    exact htrigger.startsOwn_iff hleaves

/-- The host activates the module, hart 0 halts, and the host issues one command. -/
def loneTriggerRun : ℕ → Inputs oneHart :=
  script
    [(Inputs.quiet oneHart).withRequest ⟨0x10, dtmWrite, 0x00000001⟩,
      (Inputs.quiet oneHart).withHartWrite DmMem.haltedAddr 0,
      (Inputs.quiet oneHart).withRequest ⟨0x17, dtmWrite, 0x00221008⟩]

/-- The trigger of the run is spaced and is not lost. -/
theorem loneTriggerRun_noneLost : TriggerAt loneTriggerRun 2 ∧ NoneLost loneTriggerRun := by
  refine ⟨by decide +kernel, (noneLost_iff loneTriggerRun).mpr fun time htrigger ↦ Or.inl ?_⟩
  have hearly : time < 3 := by
    by_contra hlate
    have hquiet : loneTriggerRun time = Inputs.quiet oneHart :=
      List.getD_eq_default _ _ (not_lt.mp hlate)
    have hvalid := (Bool.and_eq_true_iff.mp (DmCsrs.accepts_of_isTrigger htrigger.1)).1
    rw [hquiet] at hvalid
    exact Bool.false_ne_true hvalid
  have hspaced : ∀ early < 3, TriggerAt loneTriggerRun early → Spaced loneTriggerRun early := by
    decide +kernel
  exact hspaced time hearly htrigger

/-- The host activates the module, hart 0 halts, and the host issues two commands in consecutive
cycles. -/
def mergedTriggersRun : ℕ → Inputs oneHart :=
  script
    [(Inputs.quiet oneHart).withRequest ⟨0x10, dtmWrite, 0x00000001⟩,
      (Inputs.quiet oneHart).withHartWrite DmMem.haltedAddr 0,
      (Inputs.quiet oneHart).withRequest ⟨0x17, dtmWrite, 0x00221008⟩,
      (Inputs.quiet oneHart).withRequest ⟨0x17, dtmWrite, 0x00221009⟩]

/-- Both triggers of the run are answered with success. The entry of Go that is due to the first one
finds the command word of the second one, for which there is no entry, and there is no error. -/
theorem mergedTriggersRun_loses :
    TriggerAt mergedTriggersRun 2 ∧ TriggerAt mergedTriggersRun 3 ∧
      ¬ NoneLost mergedTriggersRun := by
  refine ⟨by decide +kernel, by decide +kernel, fun hnone ↦ ?_⟩
  rcases hnone 3 (by decide +kernel) with ⟨hgo, -⟩ | herror
  · exact absurd hgo (by decide +kernel)
  · exact absurd herror (by decide +kernel)

end RiscvDebug.DmTop
