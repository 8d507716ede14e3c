import RiscvDebug.DebugModule.Inactive
import RiscvDebug.SystemBus.BusCycles

/-!
# Clearing `dmactive`

A cleared `dmactive` holds the registers of `dm_csrs` at their reset values, but it reaches neither
the hart control of `dm_mem` nor the bus master. What these have in flight therefore outlasts the
reset: `resetsWhole_iff` finds that a run resets the whole module exactly when in each inactive
cycle both are done (`commandSettles`, `busSettles`).
-/

set_option autoImplicit false
set_option relaxedAutoImplicit false

namespace RiscvDebug.DmTop

open Foundations

variable {cfg : Config}

/-! ### What the reset is to leave -/

/-- What the host can read of the module, the hart status apart: the registers of `dm_csrs` and the
two busy flags. -/
def hostView (s : Regs cfg) : DmCsrs.Regs cfg × Bool × Bool :=
  (s.csrs, s.mem.state != .idle, s.sba != .idle)

/-- A hart acknowledges an operation. -/
def acknowledges (i : Inputs cfg) : Bool :=
  i.slave.writes DmMem.goingAddr || i.slave.writes DmMem.haltedAddr ||
    i.slave.writes DmMem.resumingAddr

/-- The cycle without the access of a hart. -/
def Inputs.withoutHart (i : Inputs cfg) : Inputs cfg :=
  { i with slave := { i.slave with req := false } }

/-- The cycle without the response of the bus. -/
def Inputs.withoutResponse (i : Inputs cfg) : Inputs cfg :=
  { i with master := { i.master with rValid := false } }

/-- After an inactive cycle nothing is busy and nothing is offered to the harts. A response that
the bus still owes changes nothing that the host can read, and neither does an acknowledgement that
comes before the hart control takes another operation. -/
structure CleanAfter (inputs : ℕ → Inputs cfg) (time : ℕ) : Prop where
  busy : (DmCsrs.abstractcs (run inputs (time + 1)).csrs
    (csrInputs (run inputs (time + 1)) (inputs (time + 1)))).busy = false
  sbbusy : (run inputs (time + 1)).csrs.sbcs.sbbusy = false
  commandIdle : (run inputs (time + 1)).mem.state = .idle
  busIdle : (run inputs (time + 1)).sba = .idle
  offers : (ctrl (run inputs (time + 1)) (inputs (time + 1))).go = false ∧
    (ctrl (run inputs (time + 1)) (inputs (time + 1))).resume = false
  lateResponse : ∀ later, time < later →
    (∀ between, time < between → between ≤ later → outstanding inputs between = true) →
      hostView (run inputs (later + 1)) =
        hostView (next (run inputs later) (inputs later).withoutResponse)
  lateAcknowledgement : ∀ later, time < later →
    (∀ between, time < between → between ≤ later →
      (run inputs between).mem.state = .idle) → acknowledges (inputs later) = true →
      hostView (run inputs (later + 1)) =
        hostView (next (run inputs later) (inputs later).withoutHart)

/-- Every inactive cycle of the run leaves the whole module reset. -/
def ResetsWhole (inputs : ℕ → Inputs cfg) : Prop :=
  ∀ time, (run inputs time).csrs.dmcontrol.dmactive = false → CleanAfter inputs time

/-! ### What is in flight -/

/-- The hart control is done in this cycle: the harts are reset, or nothing is taken in Idle, or
the awaited acknowledgement is there. -/
def commandSettles (s : Regs cfg) (i : Inputs cfg) : Bool :=
  s.csrs.dmcontrol.ndmreset ||
    match s.mem.state with
    | .idle => !resumeTaken s && !commandTaken s
    | .go => false
    | .resume => s.mem.resuming.getLsbD s.selected
    | .cmdExecuting => i.hartWrites DmMem.haltedAddr s.selected

/-- The bus master is done in this cycle: no request starts it, or it drops the access, or the
awaited response is there. -/
def busSettles (s : Regs cfg) (i : Inputs cfg) : Bool :=
  match s.sba with
  | .idle => !startsBus s i
  | .read => refused s i
  | .write => refused s i
  | .waitRead => refused s i || i.master.rValid
  | .waitWrite => refused s i || i.master.rValid

theorem state_next_eq_idle_iff (s : Regs cfg) (i : Inputs cfg) :
    (next s i).mem.state = .idle ↔ commandSettles s i = true := by
  unfold commandSettles
  cases hstate : s.mem.state with
  | idle =>
    rw [state_next_of_idle i hstate]
    cases s.csrs.dmcontrol.ndmreset <;> cases resumeTaken s <;> cases commandTaken s <;> simp
  | go =>
    rw [state_next_of_go i hstate]
    cases s.csrs.dmcontrol.ndmreset <;> cases i.slave.writes DmMem.goingAddr <;> simp
  | resume =>
    rw [state_next_of_resume i hstate]
    cases s.csrs.dmcontrol.ndmreset <;> cases s.mem.resuming.getLsbD s.selected <;> simp
  | cmdExecuting =>
    rw [state_next_of_cmdExecuting i hstate]
    unfold Inputs.hartWrites
    cases s.csrs.dmcontrol.ndmreset <;>
      cases i.slave.writes DmMem.haltedAddr && i.slave.wdataHartsel == s.selected <;> simp

theorem sba_next_eq_idle_iff_busSettles (s : Regs cfg) (i : Inputs cfg) :
    (next s i).sba = .idle ↔ busSettles s i = true := by
  by_cases hidle : s.sba = .idle
  · rw [sba_next_eq_idle_iff i hidle]
    unfold busSettles
    rw [hidle]
    simp
  · rw [sba_next_of_busy i hidle]
    unfold busSettles
    cases hsba : s.sba with
    | idle => exact absurd hsba hidle
    | read => cases refused s i <;> cases i.master.gnt <;> simp
    | write => cases refused s i <;> cases i.master.gnt <;> simp
    | waitRead => cases refused s i <;> cases i.master.rValid <;> simp
    | waitWrite => cases refused s i <;> cases i.master.rValid <;> simp

/-! ### Late acknowledgements -/

/-- An acknowledgement is neither an exception nor a store of data. -/
theorem quiet_of_acknowledges {i : Inputs cfg} (hacknowledges : acknowledges i = true) :
    i.slave.writes DmMem.exceptionAddr = false ∧
      ¬ DmMem.dataBaseAddr ≤ i.slave.offset := by
  simp only [acknowledges, DmMem.SlaveAccess.writes, Bool.or_eq_true, Bool.and_eq_true,
    beq_iff_eq] at hacknowledges
  rcases hacknowledges with (⟨-, hoffset⟩ | ⟨-, hoffset⟩) | ⟨-, hoffset⟩ <;>
    simp [DmMem.SlaveAccess.writes, hoffset, DmMem.goingAddr, DmMem.haltedAddr,
      DmMem.resumingAddr, DmMem.exceptionAddr, DmMem.dataBaseAddr, dataAddr]

/-- In Idle the hart control does not look at the acknowledgements. -/
theorem ctrl_withoutHart {s : Regs cfg} {i : Inputs cfg} (hidle : s.mem.state = .idle)
    (hacknowledges : acknowledges i = true) : ctrl s i = ctrl s i.withoutHart := by
  have hexception : (memInputs s i false).slave.writes DmMem.exceptionAddr = false :=
    (quiet_of_acknowledges hacknowledges).1
  have hnone : (memInputs s i.withoutHart false).slave.writes DmMem.exceptionAddr = false := rfl
  unfold ctrl DmMem.hartCtrlQueue DmMem.stateBranch
  rw [hidle, hexception, hnone]
  rfl

theorem csrInputs_withoutHart {s : Regs cfg} {i : Inputs cfg} (hidle : s.mem.state = .idle)
    (hacknowledges : acknowledges i = true) : csrInputs s i = csrInputs s i.withoutHart := by
  have hctrl := ctrl_withoutHart hidle hacknowledges
  have hstores : DmMem.dataValid (memInputs s i false) = false := by
    show (_ && decide (DmMem.dataBaseAddr ≤ i.slave.offset) && _) = false
    rw [decide_eq_false (quiet_of_acknowledges hacknowledges).2]
    simp
  have hnone : DmMem.dataValid (memInputs s i.withoutHart false) = false := rfl
  have hdata : DmMem.dataOut (memInputs s i false) = DmMem.dataOut (memInputs s i.withoutHart false)
      := by
    unfold DmMem.dataOut
    rw [hstores, hnone]
    rfl
  unfold csrInputs
  rw [hctrl, hdata, hstores, hnone]
  rfl

/-- An acknowledgement that finds the hart control in Idle changes the hart status only. -/
theorem hostView_next_withoutHart {s : Regs cfg} {i : Inputs cfg} (hidle : s.mem.state = .idle)
    (hacknowledges : acknowledges i = true) :
    hostView (next s i) = hostView (next s i.withoutHart) := by
  have hinputs := csrInputs_withoutHart hidle hacknowledges
  have hstate : (next s i).mem.state = (next s i.withoutHart).mem.state :=
    congrArg DmMem.CtrlSignals.state (ctrl_withoutHart hidle hacknowledges)
  have hcsrs : (next s i).csrs = (next s i.withoutHart).csrs :=
    congrArg (DmCsrs.next s.csrs) hinputs
  have hsba : (next s i).sba = (next s i.withoutHart).sba := by
    have hstrobes : strobes s i = strobes s i.withoutHart := by
      unfold strobes csrSignals
      rw [hinputs]
    show DmSba.nextState s.sba (sbaInputs s i) (strobes s i) = _
    rw [hstrobes]
    rfl
  rw [hostView, hostView, hstate, hcsrs, hsba]

/-! ### Resets of a run -/

/-- An inactive cycle in which everything is done leaves the module clean. -/
theorem cleanAfter_of_settles {inputs : ℕ → Inputs cfg} {time : ℕ}
    (hinactive : (run inputs time).csrs.dmcontrol.dmactive = false)
    (hcommand : commandSettles (run inputs time) (inputs time) = true)
    (hbus : busSettles (run inputs time) (inputs time) = true) : CleanAfter inputs time := by
  have hidle : (run inputs (time + 1)).mem.state = .idle :=
    (state_next_eq_idle_iff _ _).mpr hcommand
  have hsba : (run inputs (time + 1)).sba = .idle :=
    (sba_next_eq_idle_iff_busSettles _ _).mpr hbus
  refine ⟨?_, ?_, hidle, hsba, ?_, ?_, ?_⟩
  · show (ctrl _ _).cmdbusy = false
    rw [cmdbusy_eq, hidle]
    rfl
  · rw [run_succ, (busRegisters_next_of_inactive _ hinactive).2.2]
    rfl
  · rw [(offers_eq _ _).1, (offers_eq _ _).2, hidle]
    exact ⟨rfl, rfl⟩
  · -- The bus owes nothing when the bus master is idle.
    intro later hlater howed
    have hfirst := howed (time + 1) (Nat.lt_succ_self time) hlater
    rw [outstanding_eq, waiting, hsba] at hfirst
    exact absurd hfirst Bool.false_ne_true
  · intro later hlater hidles hacknowledges
    exact hostView_next_withoutHart (hidles later hlater le_rfl) hacknowledges

/-- A run resets the whole module exactly when in each inactive cycle the hart control and the bus
master are done. -/
theorem resetsWhole_iff (inputs : ℕ → Inputs cfg) :
    ResetsWhole inputs ↔ ∀ time, (run inputs time).csrs.dmcontrol.dmactive = false →
      commandSettles (run inputs time) (inputs time) = true ∧
        busSettles (run inputs time) (inputs time) = true := by
  constructor
  · intro hresets time hinactive
    have hclean := hresets time hinactive
    exact ⟨(state_next_eq_idle_iff _ _).mp hclean.commandIdle,
      (sba_next_eq_idle_iff_busSettles _ _).mp hclean.busIdle⟩
  · intro hsettles time hinactive
    obtain ⟨hcommand, hbus⟩ := hsettles time hinactive
    exact cleanAfter_of_settles hinactive hcommand hbus

/-- The host activates the module, hart 0 halts, the host issues a command that the hart never
answers, and clears `dmactive`. -/
def unansweredCommandRun : ℕ → Inputs oneHart :=
  script
    [(Inputs.quiet oneHart).withRequest ⟨0x10, dtmWrite, 0x00000001⟩,
      (Inputs.quiet oneHart).withHartWrite DmMem.haltedAddr 0,
      (Inputs.quiet oneHart).withRequest ⟨0x17, dtmWrite, 0x00221008⟩,
      Inputs.quiet oneHart,
      (Inputs.quiet oneHart).withRequest ⟨0x10, dtmWrite, 0x00000000⟩]

/-- The command is still offered to the hart after the reset. -/
theorem unansweredCommandRun_stays : ¬ ResetsWhole unansweredCommandRun := by
  intro hresets
  have hidle := (hresets 5 (by decide +kernel)).commandIdle
  exact absurd hidle (by decide +kernel)

end RiscvDebug.DmTop
