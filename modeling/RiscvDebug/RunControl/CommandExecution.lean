import RiscvDebug.Foundations.Temporal
import RiscvDebug.Hart.Instructions
import RiscvDebug.Hart.ParkLoop
import RiscvDebug.RunControl.CommandStart
import RiscvDebug.RunControl.ResumeRequests

/-!
# Exactly-once execution of abstract commands

The debug module together with harts that run the park loop and a host that keeps one transaction
outstanding. The invariant `HartsFit` ties the state of the hart control to the position of every
hart: all harts but the selected one are parked, and the selected one stands where the state
expects it. From it `executesOnce` follows: an accepted trigger of a supported command takes the
hart control through Go and CmdExecuting back to Idle, with a single write of Going, by the
selected hart.
-/

set_option autoImplicit false
set_option relaxedAutoImplicit false

namespace RiscvDebug.DmTop

open Foundations Hart

variable {cfg : Config}

/-! ### The host -/

/-- The rules the host keeps. -/
structure HostConforms (inputs : ℕ → Inputs cfg) : Prop where
  /-- A request is presented only in a cycle after the response to the one before was taken. -/
  one_outstanding : ∀ asked later, asked < later →
    accepts (run inputs asked) (inputs asked) = true → (inputs later).dmiReqValid = true →
    ∃ taken, asked < taken ∧ taken < later ∧ (inputs taken).dmiRespReady = true ∧
      (run inputs taken).csrs.dmiRespValid = true
  /-- The module stays active and the harts are not reset. -/
  stays_active : ∀ time, writes (run inputs time) (inputs time) .dmControl = true →
    (Dmcontrol.ofBits (inputs time).dmiReq.data).dmactive = true ∧
      (Dmcontrol.ofBits (inputs time).dmiReq.data).ndmreset = false
  /-- `dmcontrol` is not written while `abstractcs` shows busy, nor while a resume request is
  pending. -/
  dmcontrol_idle : ∀ time, writes (run inputs time) (inputs time) .dmControl = true →
    (ctrl (run inputs time) (inputs time)).cmdbusy = false ∧
      (run inputs time).csrs.dmcontrol.resumereq = false
  /-- No trigger is given while a resume request is pending. -/
  no_pending : ∀ time, takesTrigger (run inputs time) (inputs time) = true →
    (run inputs time).csrs.dmcontrol.resumereq = false

theorem request_of_writes {s : Regs cfg} {i : Inputs cfg} {csr : DmCsr}
    (hwrites : writes s i csr = true) : i.dmiReqValid = true :=
  (Bool.and_eq_true_iff.mp (Bool.and_eq_true_iff.mp (Bool.and_eq_true_iff.mp hwrites).1).1).1

theorem request_of_takesTrigger {s : Regs cfg} {i : Inputs cfg}
    (htrigger : takesTrigger s i = true) : i.dmiReqValid = true :=
  (Bool.and_eq_true_iff.mp (DmCsrs.accepts_of_isTrigger
    (Bool.and_eq_true_iff.mp (Bool.and_eq_true_iff.mp htrigger).2).1)).1

namespace HostConforms

variable {inputs : ℕ → Inputs cfg} (hhost : HostConforms inputs)
include hhost

/-- The cycle after an accepted request presents none. -/
theorem no_request_after {time : ℕ} (haccepts : accepts (run inputs time) (inputs time) = true) :
    (inputs (time + 1)).dmiReqValid = false := by
  cases hrequest : (inputs (time + 1)).dmiReqValid with
  | false => rfl
  | true =>
    obtain ⟨taken, hafter, hbefore, -⟩ :=
      hhost.one_outstanding time (time + 1) (Nat.lt_succ_self time) haccepts hrequest
    omega

/-- While the command pulse is up no request is presented. -/
theorem no_request_of_pulse {time : ℕ} (hpulse : (run inputs time).csrs.cmdValid = true) :
    (inputs time).dmiReqValid = false := by
  obtain ⟨before, rfl, htrigger⟩ := trigger_of_pulse hpulse
  obtain ⟨hkind, -⟩ := Bool.and_eq_true_iff.mp (Bool.and_eq_true_iff.mp htrigger).2
  exact hhost.no_request_after (DmCsrs.accepts_of_isTrigger hkind)

/-- The harts are never reset. -/
theorem ndmreset_eq (time : ℕ) : (run inputs time).csrs.dmcontrol.ndmreset = false := by
  induction time with
  | zero => rfl
  | succ time ih =>
    rw [run_succ, ndmreset_next]
    cases hwrites : writes (run inputs time) (inputs time) .dmControl with
    | true => rw [writtenDmcontrol_of_writes hwrites, (hhost.stays_active time hwrites).2,
        Bool.and_false]
    | false => rw [writtenDmcontrol_of_not_writes hwrites, ih, Bool.and_false]

/-- An active module stays active. -/
theorem active_succ {time : ℕ} (hactive : (run inputs time).csrs.dmcontrol.dmactive = true) :
    (run inputs (time + 1)).csrs.dmcontrol.dmactive = true := by
  rw [run_succ, dmactive_next]
  cases hwrites : writes (run inputs time) (inputs time) .dmControl with
  | true => rw [writtenDmcontrol_of_writes hwrites, (hhost.stays_active time hwrites).1]
  | false => rw [writtenDmcontrol_of_not_writes hwrites, hactive]

/-- Until the host activates the module it selects hart 0 and has nothing to do. -/
theorem inactive {time : ℕ} (hinactive : (run inputs time).csrs.dmcontrol.dmactive = false) :
    (run inputs time).selected = 0 ∧ (run inputs time).csrs.cmdValid = false := by
  cases time with
  | zero => exact ⟨by simp [run, machine, Regs.reset, Regs.selected, DmCsrs.Regs.selectedHart,
      DmCsrs.Regs.reset, Dmcontrol.reset, Config.hartIndex, Dmcontrol.hartsel, Dmcontrol.ofBits],
      rfl⟩
  | succ time =>
    rw [run_succ, dmactive_next] at hinactive
    have hwrites : writes (run inputs time) (inputs time) .dmControl = false := by
      by_contra hwrites
      rw [Bool.not_eq_false] at hwrites
      rw [writtenDmcontrol_of_writes hwrites, (hhost.stays_active time hwrites).1] at hinactive
      exact absurd hinactive (by decide)
    rw [writtenDmcontrol_of_not_writes hwrites] at hinactive
    rw [run_succ, selected_next, cmdValid_next, hinactive]
    exact ⟨rfl, rfl⟩

/-- The selection changes only in a cycle that starts and ends in Idle. -/
theorem selected_succ (time : ℕ) :
    (run inputs (time + 1)).selected = (run inputs time).selected ∨
      ((run inputs time).mem.state = .idle ∧ (run inputs (time + 1)).mem.state = .idle) := by
  cases hwrites : writes (run inputs time) (inputs time) .dmControl with
  | true =>
    right
    obtain ⟨hbusy, hpending⟩ := hhost.dmcontrol_idle time hwrites
    rw [cmdbusy_eq, bne_eq_false_iff_eq] at hbusy
    have hrequest := request_of_writes hwrites
    have hpulse : (run inputs time).csrs.cmdValid = false := by
      by_contra hpulse
      rw [hhost.no_request_of_pulse (by simpa using hpulse)] at hrequest
      exact Bool.false_ne_true hrequest
    refine ⟨hbusy, ?_⟩
    rw [run_succ, state_next_of_idle _ hbusy, hhost.ndmreset_eq time, resumeTaken, commandTaken,
      hpending, hpulse]
    rfl
  | false =>
    left
    cases hactive : (run inputs time).csrs.dmcontrol.dmactive with
    | true =>
      rw [run_succ, selected_next_eq,
        selectedAfter_of_not_writes (runControlValid_run inputs time) hactive hwrites]
    | false =>
      rw [run_succ, selected_next, hactive, (hhost.inactive hactive).1]
      rfl

end HostConforms

/-! ### The harts -/

/-- The flag byte of a hart shows the offers of the hart control when the hart is selected, and
nothing otherwise. -/
theorem flagServes (hcount : cfg.nrHarts ≤ 1024) {s : Regs cfg} {i : Inputs cfg}
    (hndmreset : s.csrs.dmcontrol.ndmreset = false) {hart : ℕ} (hhart : hart < cfg.nrHarts)
    (driver : Option ℕ) :
    FlagServes hart ((next s i).mem.readByte (DmMem.flagAddress hart))
      (accessOf driver i.slave hart) (hart == s.selected && s.mem.state == .go)
      (hart == s.selected && s.mem.state == .resume) := by
  intro a haccess hreads
  unfold accessOf at haccess
  split_ifs at haccess
  obtain rfl : i.slave = a := Option.some_inj.mp haccess
  obtain ⟨hgo, hresume⟩ := offers_eq s i
  rw [hndmreset, Bool.not_false, Bool.and_true] at hgo hresume
  have hselected : s.selected < 4096 := (DmMem.hartIndex_lt hcount _).trans (by decide)
  rw [flagByte_next (hhart.trans_le hcount) hreads, Nat.mod_eq_of_lt hselected, hgo, hresume]
  by_cases hselected : hart = s.selected
  · rw [if_pos hselected, beq_iff_eq.mpr hselected]
    cases (s.mem.state == .go) <;> cases (s.mem.state == .resume) <;> exact ⟨rfl, rfl⟩
  · rw [if_neg hselected, beq_false_of_ne hselected]
    exact ⟨rfl, rfl⟩

/-- Where the selected hart may stand in each state of the hart control. -/
def selectedFits (s : Regs cfg) (position : Position) : Prop :=
  match s.mem.state with
  | .idle => position.isParked = true
  | .go => position.awaitsGo = true
  | .cmdExecuting => position.takesCommand = true
  | .resume =>
    if s.mem.resuming.getLsbD s.selected then position = .running
    else position.awaitsResume = true

section SelectedFits

variable {s : Regs cfg} {position : Position}

theorem selectedFits_idle (hstate : s.mem.state = .idle) :
    selectedFits s position ↔ position.isParked = true := by
  rw [selectedFits, hstate]

theorem selectedFits_go (hstate : s.mem.state = .go) :
    selectedFits s position ↔ position.awaitsGo = true := by
  rw [selectedFits, hstate]

theorem selectedFits_cmdExecuting (hstate : s.mem.state = .cmdExecuting) :
    selectedFits s position ↔ position.takesCommand = true := by
  rw [selectedFits, hstate]

theorem selectedFits_resume (hstate : s.mem.state = .resume) :
    selectedFits s position ↔
      if s.mem.resuming.getLsbD s.selected then position = .running
      else position.awaitsResume = true := by
  rw [selectedFits, hstate]

/-- Only the state Go lets the selected hart stand before the store to Going. -/
theorem go_of_selectedFits (hfits : selectedFits s .going) : s.mem.state = .go := by
  cases hstate : s.mem.state with
  | go => rfl
  | idle => exact absurd ((selectedFits_idle hstate).mp hfits) (by decide)
  | cmdExecuting => exact absurd ((selectedFits_cmdExecuting hstate).mp hfits) (by decide)
  | resume =>
    have hresume := (selectedFits_resume hstate).mp hfits
    split_ifs at hresume
    exact absurd hresume (by decide)

end SelectedFits

/-- Every hart stands where the hart control expects it. -/
structure HartsFit {inputs : ℕ → Inputs cfg} (harts : ParkedHarts inputs) (time : ℕ) : Prop where
  others : ∀ hart < cfg.nrHarts, hart ≠ (run inputs time).selected →
    (harts.position time hart).isParked = true
  selected : (run inputs time).selected < cfg.nrHarts →
    selectedFits (run inputs time) (harts.position time (run inputs time).selected)
  halted : ∀ hart, (run inputs time).mem.halted.getLsbD hart = true →
    harts.position time hart ≠ .running
  serves : (run inputs time).mem.state ≠ .idle → (run inputs time).selected < cfg.nrHarts

section Invariant

variable {inputs : ℕ → Inputs cfg} {harts : ParkedHarts inputs} {time : ℕ}

theorem hartsFit_zero (harts : ParkedHarts inputs) : HartsFit harts 0 where
  others := fun hart _ _ ↦ by rw [harts.running_initially]; rfl
  selected := fun _ ↦ by rw [harts.running_initially]; rfl
  halted := fun hart hhalted ↦ absurd hhalted (by simp [run, machine, Regs.reset, DmMem.Regs.reset])
  serves := fun hbusy ↦ absurd rfl hbusy

/-- The step of a hart in a cycle, with the offers that its flag byte shows. -/
theorem step_serves (time : ℕ) (hcount : cfg.nrHarts ≤ 1024) (hhost : HostConforms inputs)
    (harts : ParkedHarts inputs) {hart : ℕ} (hhart : hart < cfg.nrHarts) :
    FlagServes hart ((run inputs (time + 1)).mem.readByte (DmMem.flagAddress hart))
      (accessOf (harts.driver time) (inputs time).slave hart)
      (hart == (run inputs time).selected && (run inputs time).mem.state == .go)
      (hart == (run inputs time).selected && (run inputs time).mem.state == .resume) :=
  flagServes hcount (hhost.ndmreset_eq time) hhart (harts.driver time)

theorem selected_serves (hcount : cfg.nrHarts ≤ 1024) (hhost : HostConforms inputs)
    (harts : ParkedHarts inputs) (hhart : (run inputs time).selected < cfg.nrHarts)
    {state : DmMem.State} (hstate : (run inputs time).mem.state = state) :
    FlagServes (run inputs time).selected
      ((run inputs (time + 1)).mem.readByte (DmMem.flagAddress (run inputs time).selected))
      (accessOf (harts.driver time) (inputs time).slave (run inputs time).selected)
      (state == .go) (state == .resume) := by
  have hserves := step_serves time hcount hhost harts hhart
  rwa [hstate, beq_self_eq_true, Bool.true_and, Bool.true_and] at hserves

/-- A hart that is not selected stays parked. -/
theorem parked_succ_of_ne (hcount : cfg.nrHarts ≤ 1024) (hhost : HostConforms inputs)
    (hfit : HartsFit harts time) {hart : ℕ} (hhart : hart < cfg.nrHarts)
    (hother : hart ≠ (run inputs time).selected) :
    (harts.position (time + 1) hart).isParked = true := by
  have hserves := step_serves time hcount hhost harts hhart
  rw [beq_false_of_ne hother, Bool.false_and, Bool.false_and] at hserves
  exact (harts.step time hart hhart).parked hserves (hfit.others hart hhart hother)

/-- In Idle the selected hart stays parked as well. -/
theorem parked_succ_of_idle (hcount : cfg.nrHarts ≤ 1024) (hhost : HostConforms inputs)
    (hfit : HartsFit harts time) (hidle : (run inputs time).mem.state = .idle) {hart : ℕ}
    (hhart : hart < cfg.nrHarts) : (harts.position (time + 1) hart).isParked = true := by
  by_cases hselected : hart = (run inputs time).selected
  · subst hselected
    exact (harts.step time _ hhart).parked (selected_serves hcount hhost harts hhart hidle)
      ((selectedFits_idle hidle).mp (hfit.selected hhart))
  · exact parked_succ_of_ne hcount hhost hfit hhart hselected

/-- Only the selected hart can write Going, in the state Go. -/
theorem going_by_selected (hfit : HartsFit harts time)
    (hwrites : (inputs time).slave.writes DmMem.goingAddr = true) :
    harts.driver time = some (run inputs time).selected ∧
      harts.position time (run inputs time).selected = .going ∧
      harts.position (time + 1) (run inputs time).selected = .whereTo ∧
      (run inputs time).mem.state = .go := by
  obtain ⟨hart, hhart, hdriver, hbefore, hafter⟩ := harts.going_of_writes hwrites
  have hselected : hart = (run inputs time).selected := by
    by_contra hother
    have hparked := hfit.others hart hhart hother
    rw [hbefore] at hparked
    exact absurd hparked (by decide)
  subst hselected
  refine ⟨hdriver, hbefore, hafter, ?_⟩
  have hfits := hfit.selected hhart
  rw [hbefore] at hfits
  exact go_of_selectedFits hfits

/-- A halted hart is in debug mode. -/
theorem halted_succ (hfit : HartsFit harts time) {hart : ℕ}
    (hhalted : (run inputs (time + 1)).mem.halted.getLsbD hart = true) :
    harts.position (time + 1) hart ≠ .running := by
  have hhart := lt_nrHarts_of_getLsbD hhalted
  rw [run_succ, halted_next _ _ hhart] at hhalted
  simp only [Bool.and_eq_true, Bool.or_eq_true, Bool.not_eq_true'] at hhalted
  rcases hhalted.2 with hwrites | ⟨hbefore, hstays⟩
  · obtain ⟨-, -, hafter⟩ := harts.entry_of_writes hwrites
    rw [hafter]
    decide
  · intro hrunning
    obtain ⟨-, a, haccess, hwrites, hindex⟩ :=
      (harts.step time hart hhart).resuming_of_leaves (hfit.halted hart hbefore) hrunning
    obtain ⟨-, rfl⟩ := harts.eq_of_accessOf haccess
    rw [Inputs.hartWrites, hwrites, beq_iff_eq.mpr hindex] at hstays
    exact absurd hstays (by decide)

/-- The selected hart of an offered command. -/
theorem selectedFits_succ_of_go (hcount : cfg.nrHarts ≤ 1024) (hhost : HostConforms inputs)
    (hfit : HartsFit harts time) (hgo : (run inputs time).mem.state = .go) :
    selectedFits (run inputs (time + 1))
      (harts.position (time + 1) (run inputs time).selected) := by
  have hhart := hfit.serves (by rw [hgo]; decide)
  have hstate := state_next_of_go (inputs time) hgo
  rw [← run_succ, hhost.ndmreset_eq time] at hstate
  cases hwrites : (inputs time).slave.writes DmMem.goingAddr with
  | true =>
    rw [hwrites] at hstate
    obtain ⟨-, -, hafter, -⟩ := going_by_selected hfit hwrites
    rw [selectedFits_cmdExecuting hstate, hafter]
    rfl
  | false =>
    rw [hwrites] at hstate
    rw [selectedFits_go hstate]
    rcases (harts.step time _ hhart).awaitsGo (selected_serves hcount hhost harts hhart hgo)
        ((selectedFits_go hgo).mp (hfit.selected hhart)) with hawaits | ⟨-, -, a, haccess, hgoing⟩
    · exact hawaits
    · obtain ⟨-, rfl⟩ := harts.eq_of_accessOf haccess
      rw [hwrites] at hgoing
      exact absurd hgoing Bool.false_ne_true

/-- The selected hart of an executing command. -/
theorem selectedFits_succ_of_cmdExecuting (hhost : HostConforms inputs)
    (hfit : HartsFit harts time) (hexecuting : (run inputs time).mem.state = .cmdExecuting) :
    selectedFits (run inputs (time + 1))
      (harts.position (time + 1) (run inputs time).selected) := by
  have hhart := hfit.serves (by rw [hexecuting]; decide)
  have hstate := state_next_of_cmdExecuting (inputs time) hexecuting
  rw [← run_succ, hhost.ndmreset_eq time] at hstate
  change _ = if _ then _ else if (inputs time).hartWrites DmMem.haltedAddr _ then _ else _ at hstate
  cases hwrites : (inputs time).hartWrites DmMem.haltedAddr (run inputs time).selected with
  | true =>
    rw [hwrites] at hstate
    obtain ⟨-, -, hafter⟩ := harts.entry_of_writes hwrites
    rw [selectedFits_idle hstate, hafter]
    rfl
  | false =>
    rw [hwrites] at hstate
    rw [selectedFits_cmdExecuting hstate]
    rcases (harts.step time _ hhart).takesCommand
        ((selectedFits_cmdExecuting hexecuting).mp (hfit.selected hhart)) with
      htakes | ⟨-, -, a, haccess, hhalts, hindex⟩
    · exact htakes
    · obtain ⟨-, rfl⟩ := harts.eq_of_accessOf haccess
      rw [Inputs.hartWrites, hhalts, beq_iff_eq.mpr hindex] at hwrites
      exact absurd hwrites (by decide)

/-- The selected hart of an offer to resume. -/
theorem selectedFits_succ_of_resume (hcount : cfg.nrHarts ≤ 1024)
    (hselectable : cfg.selectableHarts = BitVec.allOnes cfg.nrHarts)
    (hhost : HostConforms inputs) (hfit : HartsFit harts time)
    (hresume : (run inputs time).mem.state = .resume)
    (hselected : (run inputs (time + 1)).selected = (run inputs time).selected) :
    selectedFits (run inputs (time + 1))
      (harts.position (time + 1) (run inputs time).selected) := by
  have hhart := hfit.serves (by rw [hresume]; decide)
  have hstate := state_next_of_resume (inputs time) hresume
  have hfits := (selectedFits_resume hresume).mp (hfit.selected hhart)
  have hstep := harts.step time _ hhart
  rw [← run_succ, hhost.ndmreset_eq time] at hstate
  cases hacked : (run inputs time).mem.resuming.getLsbD (run inputs time).selected with
  | true =>
    rw [hacked] at hstate
    rw [hacked, if_pos rfl] at hfits
    rw [hfits] at hstep
    exact (selectedFits_idle hstate).mpr hstep.of_running
  | false =>
    rw [hacked] at hstate
    rw [hacked, if_neg Bool.false_ne_true] at hfits
    have hack := resuming_next (run inputs time) (inputs time) hhart
    rw [← run_succ, hselectable, hhost.ndmreset_eq time, hacked] at hack
    rw [selectedFits_resume hstate, hselected, hack]
    cases hwrites : (inputs time).hartWrites DmMem.resumingAddr (run inputs time).selected with
    | true => simpa [hhart] using (harts.resuming_of_writes hwrites).2
    | false =>
      rcases hstep.awaitsResume (selected_serves hcount hhost harts hhart hresume) hfits with
        hawaits | ⟨-, -, a, haccess, hresumes, hindex⟩
      · simpa using hawaits
      · obtain ⟨-, rfl⟩ := harts.eq_of_accessOf haccess
        rw [Inputs.hartWrites, hresumes, beq_iff_eq.mpr hindex] at hwrites
        exact absurd hwrites (by decide)

/-- In Idle a halted hart stays in the park loop. -/
theorem awaits_succ_of_idle (hcount : cfg.nrHarts ≤ 1024) (hhost : HostConforms inputs)
    (hfit : HartsFit harts time) (hidle : (run inputs time).mem.state = .idle)
    (hhalted : (run inputs time).mem.halted.getLsbD (run inputs time).selected = true) :
    (harts.position (time + 1) (run inputs time).selected).awaitsGo = true ∧
      (harts.position (time + 1) (run inputs time).selected).awaitsResume = true := by
  have hhart := lt_nrHarts_of_getLsbD hhalted
  refine Position.awaits_of_isParked (parked_succ_of_idle hcount hhost hfit hidle hhart) ?_
  intro hrunning
  obtain ⟨hbefore, -⟩ :=
    (harts.step time _ hhart).resuming_of_leaves (hfit.halted _ hhalted) hrunning
  have hparked := (selectedFits_idle hidle).mp (hfit.selected hhart)
  rw [hbefore] at hparked
  exact absurd hparked (by decide)

/-- In Idle the selected hart does not write Resuming. -/
theorem not_resumes_of_idle (hfit : HartsFit harts time)
    (hidle : (run inputs time).mem.state = .idle)
    (hhart : (run inputs time).selected < cfg.nrHarts) :
    (inputs time).hartWrites DmMem.resumingAddr (run inputs time).selected = false := by
  by_contra hwrites
  have hparked := (selectedFits_idle hidle).mp (hfit.selected hhart)
  rw [(harts.resuming_of_writes (by simpa using hwrites)).1] at hparked
  exact absurd hparked (by decide)

/-- What a cycle that leaves Idle has found. -/
theorem halted_of_leaves_idle (hhost : HostConforms inputs)
    (hidle : (run inputs time).mem.state = .idle)
    (hleaves : (run inputs (time + 1)).mem.state ≠ .idle) :
    (run inputs (time + 1)).selected = (run inputs time).selected ∧
      (run inputs time).mem.halted.getLsbD (run inputs time).selected = true ∧
      ((run inputs (time + 1)).mem.state = .go ∨
        (run inputs (time + 1)).mem.state = .resume ∧
          (run inputs time).mem.resuming.getLsbD (run inputs time).selected = false) := by
  have hselected := (hhost.selected_succ time).resolve_right fun hboth ↦ hleaves hboth.2
  refine ⟨hselected, ?_⟩
  rw [run_succ, state_next_of_idle (inputs time) hidle] at hleaves ⊢
  split_ifs at hleaves ⊢ with hndmreset hresume hcommand
  · exact absurd rfl hleaves
  · simp only [resumeTaken, Bool.and_eq_true, Bool.not_eq_true'] at hresume
    exact ⟨hresume.2, Or.inr ⟨rfl, hresume.1.1.2⟩⟩
  · simp only [commandTaken, Bool.and_eq_true] at hcommand
    exact ⟨hcommand.1.2, Or.inl rfl⟩
  · exact absurd rfl hleaves

/-- The selected hart in a cycle that starts in Idle. -/
theorem selectedFits_succ_of_idle (hcount : cfg.nrHarts ≤ 1024) (hhost : HostConforms inputs)
    (hfit : HartsFit harts time) (hidle : (run inputs time).mem.state = .idle)
    (hhart : (run inputs (time + 1)).selected < cfg.nrHarts) :
    selectedFits (run inputs (time + 1))
      (harts.position (time + 1) (run inputs (time + 1)).selected) := by
  by_cases hleaves : (run inputs (time + 1)).mem.state = .idle
  · exact (selectedFits_idle hleaves).mpr (parked_succ_of_idle hcount hhost hfit hidle hhart)
  · obtain ⟨hselected, hhalted, hstate⟩ := halted_of_leaves_idle hhost hidle hleaves
    obtain ⟨hgo, hresume⟩ := awaits_succ_of_idle hcount hhost hfit hidle hhalted
    rw [hselected] at hhart ⊢
    rcases hstate with hstate | ⟨hstate, hacked⟩
    · exact (selectedFits_go hstate).mpr hgo
    · have hsilent := not_resumes_of_idle hfit hidle hhart
      have hack := resuming_next (run inputs time) (inputs time) hhart
      rw [← run_succ, hacked, hsilent, Bool.false_and, Bool.or_false, Bool.and_false] at hack
      rw [selectedFits_resume hstate, hselected, hack, if_neg Bool.false_ne_true]
      exact hresume

/-- One cycle keeps the harts where the hart control expects them. -/
theorem hartsFit_succ (hcount : cfg.nrHarts ≤ 1024)
    (hselectable : cfg.selectableHarts = BitVec.allOnes cfg.nrHarts)
    (hhost : HostConforms inputs) (hfit : HartsFit harts time) : HartsFit harts (time + 1) := by
  cases hstate : (run inputs time).mem.state with
  | idle =>
    exact
      { others := fun hart hhart _ ↦ parked_succ_of_idle hcount hhost hfit hstate hhart
        selected := selectedFits_succ_of_idle hcount hhost hfit hstate
        halted := fun hart ↦ halted_succ hfit
        serves := fun hleaves ↦ by
          obtain ⟨hselected, hhalted, -⟩ := halted_of_leaves_idle hhost hstate hleaves
          exact hselected ▸ lt_nrHarts_of_getLsbD hhalted }
  | go | resume | cmdExecuting =>
    have hselected : (run inputs (time + 1)).selected = (run inputs time).selected :=
      (hhost.selected_succ time).resolve_right fun hboth ↦ by
        rw [hstate] at hboth
        exact absurd hboth.1 (by decide)
    have hserves : (run inputs time).selected < cfg.nrHarts :=
      hfit.serves (by rw [hstate]; decide)
    refine ⟨fun hart hhart hother ↦ ?_, fun _ ↦ ?_, fun hart ↦ halted_succ hfit,
      fun _ ↦ hselected ▸ hserves⟩
    · exact parked_succ_of_ne hcount hhost hfit hhart (hselected ▸ hother)
    · rw [hselected]
      first
        | exact selectedFits_succ_of_go hcount hhost hfit hstate
        | exact selectedFits_succ_of_resume hcount hselectable hhost hfit hstate hselected
        | exact selectedFits_succ_of_cmdExecuting hhost hfit hstate

/-- Along every run the harts stand where the hart control expects them. -/
theorem hartsFit_run (hcount : cfg.nrHarts ≤ 1024)
    (hselectable : cfg.selectableHarts = BitVec.allOnes cfg.nrHarts)
    (hhost : HostConforms inputs) (harts : ParkedHarts inputs) (time : ℕ) :
    HartsFit harts time := by
  induction time with
  | zero => exact hartsFit_zero harts
  | succ time ih => exact hartsFit_succ hcount hselectable hhost ih

end Invariant

/-! ### Executions -/

/-- The code of a command: the program buffer for a command without a transfer that has postexec,
and the generated command otherwise. -/
def commandEntry (command : Command) : BitVec 12 :=
  let ar := AcArCmd.ofBits command.control
  if !ar.transfer && ar.postexec then DmMem.progBufBaseAddr else DmMem.abstractCmdBaseAddr

/-- Only Access Register commands are supported. -/
theorem cmdtype_of_supported {command : Command}
    (hsupported : cfg.unsupportedCommand command = false) : command.cmdtype = accessRegister := by
  by_contra hother
  rw [Config.unsupportedCommand, Config.abstractCmd, if_neg hother] at hsupported
  exact absurd hsupported (by simp [AbstractCmd.leave])

/-- While the command unit is busy with a supported command, WhereTo holds a jump to its code. -/
theorem jumpTarget_whereTo {s : Regs cfg} {i : Inputs cfg} (hbusy : s.mem.state ≠ .idle)
    (hsupported : cfg.unsupportedCommand s.csrs.command = false)
    (hreads : i.slave.reads = true) (haddress : i.slave.offset = DmMem.whereToAddr) :
    jumpTarget DmMem.whereToAddr ((next s i).mem.rdataOut.setWidth 32) =
      some (commandEntry s.csrs.command) := by
  have hcmdbusy : (DmMem.hartCtrlQueue s.mem
      (memInputs s i (csrSignals s i).clearResumeack)).cmdbusy = true :=
    (hartCtrlQueue_cmdbusy _ _).trans (bne_iff_ne.mpr hbusy)
  have hword : (next s i).mem.rdataOut.setWidth 32 = _ :=
    DmMem.whereToWord_next (i := memInputs s i (csrSignals s i).clearResumeack) hreads haddress
  have hcmd : (memInputs s i (csrSignals s i).clearResumeack).cmd = s.csrs.command := rfl
  rw [hword, DmMem.whereToRdata, hcmdbusy, hcmd]
  simp only [if_true, cmdtype_of_supported hsupported, true_and, commandEntry, Bool.and_eq_true]
  split_ifs with hprogbuf
  · decide
  · decide

/-- A cycle of the execution of a command by a hart. The hart is selected and the command is in
force; no other hart reads a flag byte with the go bit; and WhereTo jumps to the code of the
command. -/
structure CommandCycle (inputs : ℕ → Inputs cfg) (hart : ℕ) (command : Command)
    (state : DmMem.State) (time : ℕ) : Prop where
  state_eq : (run inputs time).mem.state = state
  selected_eq : (run inputs time).selected = hart
  command_eq : (run inputs time).csrs.command = command
  active : (run inputs time).csrs.dmcontrol.dmactive = true
  no_go : ∀ other < cfg.nrHarts, other ≠ hart →
    (inputs time).slave.readsByte (DmMem.flagAddress other) = true →
    ((run inputs (time + 1)).mem.readByte (DmMem.flagAddress other)).getLsbD 0 = false
  jumps : (inputs time).slave.reads = true → (inputs time).slave.offset = DmMem.whereToAddr →
    jumpTarget DmMem.whereToAddr ((run inputs (time + 1)).mem.rdataOut.setWidth 32) =
      some (commandEntry command)

/-- Go is offered to the hart, and nobody writes Going. -/
def Offered (inputs : ℕ → Inputs cfg) (hart : ℕ) (command : Command) (time : ℕ) : Prop :=
  CommandCycle inputs hart command .go time ∧
    (inputs time).slave.writes DmMem.goingAddr = false

/-- The hart executes the command; nobody writes Going, and the hart does not write Halted. -/
def Executing (inputs : ℕ → Inputs cfg) (hart : ℕ) (command : Command) (time : ℕ) : Prop :=
  CommandCycle inputs hart command .cmdExecuting time ∧
    (inputs time).slave.writes DmMem.goingAddr = false ∧
    (inputs time).hartWrites DmMem.haltedAddr hart = false

section Phases

variable {inputs : ℕ → Inputs cfg} (harts : ParkedHarts inputs) (hart : ℕ) (command : Command)

/-- The hart writes Going. -/
def Taken (time : ℕ) : Prop :=
  CommandCycle inputs hart command .go time ∧
    (inputs time).slave.writes DmMem.goingAddr = true ∧ harts.driver time = some hart

/-- The hart writes Halted, and the hart control goes back to Idle. -/
def Finished (time : ℕ) : Prop :=
  CommandCycle inputs hart command .cmdExecuting time ∧
    (inputs time).slave.writes DmMem.goingAddr = false ∧
    (inputs time).hartWrites DmMem.haltedAddr hart = true ∧ harts.driver time = some hart ∧
    (run inputs (time + 1)).mem.state = .idle

/-- The execution of a command: Go is offered until the hart writes Going, and from then on the
command executes until the hart writes Halted. With `Until` the execution ends, and with `Unless`
each of its two phases may last for ever. -/
def Execution (phase : (ℕ → Prop) → (ℕ → Prop) → ℕ → Prop) (start : ℕ) : Prop :=
  phase (Offered inputs hart command)
    (fun going ↦ Taken harts hart command going ∧
      phase (Executing inputs hart command) (Finished harts hart command) (going + 1)) start

/-- While the command unit is busy the hart does not stand still for ever: it gets the bus, and the
code of the command comes to its end. -/
def Progresses : Prop :=
  ∀ time, (run inputs time).mem.state ≠ .idle →
    ∃ later, time ≤ later ∧ harts.position (later + 1) hart ≠ harts.position later hart

end Phases

section Execution

variable {inputs : ℕ → Inputs cfg} {harts : ParkedHarts inputs} {hart : ℕ} {command : Command}
  {time : ℕ}

/-- What the cycles of an execution show to the harts. -/
theorem commandCycle_of (hcount : cfg.nrHarts ≤ 1024) (hhost : HostConforms inputs)
    (hsupported : cfg.unsupportedCommand command = false) {state : DmMem.State}
    (hbusy : state ≠ .idle) (hstate : (run inputs time).mem.state = state)
    (hselected : (run inputs time).selected = hart)
    (hcommand : (run inputs time).csrs.command = command)
    (hactive : (run inputs time).csrs.dmcontrol.dmactive = true) :
    CommandCycle inputs hart command state time where
  state_eq := hstate
  selected_eq := hselected
  command_eq := hcommand
  active := hactive
  no_go := by
    intro other hother hne hreads
    have hserves := flagServes hcount (hhost.ndmreset_eq time) (i := inputs time) hother
      (some other) (inputs time).slave (if_pos rfl) hreads
    rw [hselected, beq_false_of_ne hne] at hserves
    exact hserves.1
  jumps := by
    intro hreads haddress
    rw [← hcommand] at hsupported ⊢
    exact jumpTarget_whereTo (hstate ▸ hbusy) hsupported hreads haddress

/-- Outside Idle an active module keeps the selection and the command. -/
theorem kept_succ (hhost : HostConforms inputs) (hbusy : (run inputs time).mem.state ≠ .idle)
    (hactive : (run inputs time).csrs.dmcontrol.dmactive = true) :
    (run inputs (time + 1)).selected = (run inputs time).selected ∧
      (run inputs (time + 1)).csrs.command = (run inputs time).csrs.command ∧
      (run inputs (time + 1)).csrs.dmcontrol.dmactive = true := by
  refine ⟨(hhost.selected_succ time).resolve_right fun hboth ↦ hbusy hboth.1, ?_,
    hhost.active_succ hactive⟩
  rw [run_succ, command_next, if_pos hactive, beq_false_of_ne hbusy, Bool.and_false,
    if_neg Bool.false_ne_true]

/-- A cycle of an execution hands on what the next one needs. -/
theorem CommandCycle.next {before after : DmMem.State}
    (hcycle : CommandCycle inputs hart command before time) (hcount : cfg.nrHarts ≤ 1024)
    (hhost : HostConforms inputs) (hsupported : cfg.unsupportedCommand command = false)
    (hbefore : before ≠ .idle) (hafter : after ≠ .idle)
    (hstate : (run inputs (time + 1)).mem.state = after) :
    CommandCycle inputs hart command after (time + 1) := by
  obtain ⟨hselected, hcommand, hactive⟩ := kept_succ hhost (hcycle.state_eq ▸ hbefore)
    hcycle.active
  exact commandCycle_of hcount hhost hsupported hafter hstate (hselected.trans hcycle.selected_eq)
    (hcommand.trans hcycle.command_eq) hactive

/-- The first phase: the offer goes on, or the selected hart takes it. -/
theorem offered_or_taken (hcount : cfg.nrHarts ≤ 1024) (hhost : HostConforms inputs)
    (hsupported : cfg.unsupportedCommand command = false) (hfit : HartsFit harts time)
    (hcycle : CommandCycle inputs hart command .go time) :
    Offered inputs hart command time ∧ CommandCycle inputs hart command .go (time + 1) ∨
      Taken harts hart command time ∧
        CommandCycle inputs hart command .cmdExecuting (time + 1) := by
  have hstate := state_next_of_go (inputs time) hcycle.state_eq
  rw [← run_succ, hhost.ndmreset_eq time] at hstate
  cases hwrites : (inputs time).slave.writes DmMem.goingAddr with
  | true =>
    right
    rw [hwrites] at hstate
    have hdriver := (going_by_selected hfit hwrites).1
    rw [hcycle.selected_eq] at hdriver
    exact ⟨⟨hcycle, hwrites, hdriver⟩,
      hcycle.next hcount hhost hsupported (by decide) (by decide) hstate⟩
  | false =>
    left
    rw [hwrites] at hstate
    exact ⟨⟨hcycle, hwrites⟩, hcycle.next hcount hhost hsupported (by decide) (by decide) hstate⟩

/-- The second phase: the command executes on, or the hart is done. -/
theorem executing_or_finished (hcount : cfg.nrHarts ≤ 1024) (hhost : HostConforms inputs)
    (hsupported : cfg.unsupportedCommand command = false) (hfit : HartsFit harts time)
    (hcycle : CommandCycle inputs hart command .cmdExecuting time) :
    Executing inputs hart command time ∧
        CommandCycle inputs hart command .cmdExecuting (time + 1) ∨
      Finished harts hart command time := by
  have hstate := state_next_of_cmdExecuting (inputs time) hcycle.state_eq
  rw [← run_succ, hhost.ndmreset_eq time, hcycle.selected_eq] at hstate
  change _ = if _ then _ else if (inputs time).hartWrites DmMem.haltedAddr hart then _ else _
    at hstate
  have hgoing : (inputs time).slave.writes DmMem.goingAddr = false := by
    by_contra hwrites
    have hgo := (going_by_selected hfit (by simpa using hwrites)).2.2.2
    rw [hcycle.state_eq] at hgo
    exact absurd hgo (by decide)
  cases hwrites : (inputs time).hartWrites DmMem.haltedAddr hart with
  | true =>
    rw [hwrites] at hstate
    exact Or.inr ⟨hcycle, hgoing, hwrites, (harts.entry_of_writes hwrites).1, hstate⟩
  | false =>
    rw [hwrites] at hstate
    exact Or.inl ⟨⟨hcycle, hgoing, hwrites⟩,
      hcycle.next hcount hhost hsupported (by decide) (by decide) hstate⟩

/-- Each move of a hart that Go is offered to brings it nearer to taking it. -/
theorem goRank_succ (hcount : cfg.nrHarts ≤ 1024) (hhost : HostConforms inputs)
    (hfit : HartsFit harts time) (hcycle : CommandCycle inputs hart command .go time)
    (hmoves : harts.position (time + 1) hart ≠ harts.position time hart) :
    (harts.position (time + 1) hart).goRank < (harts.position time hart).goRank := by
  obtain ⟨hstate, rfl, -, -, -, -⟩ := hcycle
  have hhart := hfit.serves (by rw [hstate]; decide)
  exact (harts.step time _ hhart).goRank_lt (selected_serves hcount hhost harts hhart hstate)
    ((selectedFits_go hstate).mp (hfit.selected hhart)) hmoves

/-- Each move of a hart that executes a command brings it nearer to its end. -/
theorem commandRank_succ (hfit : HartsFit harts time)
    (hcycle : CommandCycle inputs hart command .cmdExecuting time)
    (hmoves : harts.position (time + 1) hart ≠ harts.position time hart) :
    (harts.position (time + 1) hart).commandRank < (harts.position time hart).commandRank := by
  obtain ⟨hstate, rfl, -, -, -, -⟩ := hcycle
  have hhart := hfit.serves (by rw [hstate]; decide)
  exact (harts.step time _ hhart).commandRank_lt
    ((selectedFits_cmdExecuting hstate).mp (hfit.selected hhart)) hmoves

/-- A rank that each move lowers does not grow. -/
theorem rank_le_of_moves {rank : Position → ℕ} {before after : Position}
    (hmoves : after ≠ before → rank after < rank before) : rank after ≤ rank before := by
  by_cases hsame : after = before
  · rw [hsame]
  · exact (hmoves hsame).le

/-- From the first cycle of Go on the command is executed, if it is not left half-way. -/
theorem execution_unless (hcount : cfg.nrHarts ≤ 1024) (hhost : HostConforms inputs)
    (hsupported : cfg.unsupportedCommand command = false) (hfit : ∀ time, HartsFit harts time)
    {start : ℕ} (hcycle : CommandCycle inputs hart command .go start) :
    Execution harts hart command Unless start := by
  have htaken : Unless (Offered inputs hart command)
      (fun time ↦ Taken harts hart command time ∧
        CommandCycle inputs hart command .cmdExecuting (time + 1)) start :=
    unless_of_step hcycle fun time _ hhere ↦
      offered_or_taken hcount hhost hsupported (hfit time) hhere
  refine htaken.mono (fun _ _ hoffered ↦ hoffered) fun going _ ⟨htaken, hexecuting⟩ ↦ ⟨htaken, ?_⟩
  exact unless_of_step hexecuting fun time _ hhere ↦
    executing_or_finished hcount hhost hsupported (hfit time) hhere

/-- When the hart makes progress the execution comes to its end. -/
theorem execution_until (hcount : cfg.nrHarts ≤ 1024) (hhost : HostConforms inputs)
    (hsupported : cfg.unsupportedCommand command = false) (hfit : ∀ time, HartsFit harts time)
    {start : ℕ} (hcycle : CommandCycle inputs hart command .go start)
    (hprogress : Progresses harts hart) : Execution harts hart command Until start := by
  have htaken : Until (Offered inputs hart command)
      (fun time ↦ Taken harts hart command time ∧
        CommandCycle inputs hart command .cmdExecuting (time + 1)) start := by
    refine until_of_rank (fun time ↦ (harts.position time hart).goRank) hcycle ?_ ?_
    · intro time _ hhere
      rcases offered_or_taken hcount hhost hsupported (hfit time) hhere with
        ⟨hoffered, hnext⟩ | hends
      · exact Or.inl ⟨hoffered, hnext,
          rank_le_of_moves (goRank_succ hcount hhost (hfit time) hhere)⟩
      · exact Or.inr hends
    · intro time _ hhere
      obtain ⟨later, hlater, hmoves⟩ := hprogress time (by rw [hhere.state_eq]; decide)
      exact ⟨later, hlater, fun hthere ↦
        Or.inl (goRank_succ hcount hhost (hfit later) hthere hmoves).ne⟩
  refine htaken.mono (fun _ _ hoffered ↦ hoffered) fun going _ ⟨htaken, hexecuting⟩ ↦ ⟨htaken, ?_⟩
  refine until_of_rank (fun time ↦ (harts.position time hart).commandRank) hexecuting ?_ ?_
  · intro time _ hhere
    rcases executing_or_finished hcount hhost hsupported (hfit time) hhere with
      ⟨hexecutes, hnext⟩ | hends
    · exact Or.inl ⟨hexecutes, hnext, rank_le_of_moves (commandRank_succ (hfit time) hhere)⟩
    · exact Or.inr hends
  · intro time _ hhere
    obtain ⟨later, hlater, hmoves⟩ := hprogress time (by rw [hhere.state_eq]; decide)
    exact ⟨later, hlater, fun hthere ↦ Or.inl (commandRank_succ (hfit later) hthere hmoves).ne⟩

/-- A trigger finds the hart control Idle, with no pulse of an earlier trigger and no resume
request, and leaves it Idle with its own pulse. -/
theorem idle_succ_of_trigger (hhost : HostConforms inputs)
    (htrigger : takesTrigger (run inputs time) (inputs time) = true) :
    (run inputs time).mem.state = .idle ∧ (run inputs (time + 1)).mem.state = .idle ∧
      (run inputs (time + 1)).csrs.dmcontrol.resumereq = false := by
  have htriggers := (Bool.and_eq_true_iff.mp htrigger).2
  have hidle := idle_of_triggers htriggers
  have hpending := hhost.no_pending time htrigger
  have hrequest := request_of_takesTrigger htrigger
  have hpulse : (run inputs time).csrs.cmdValid = false := by
    by_contra hpulse
    rw [hhost.no_request_of_pulse (by simpa using hpulse)] at hrequest
    exact Bool.false_ne_true hrequest
  refine ⟨hidle, ?_, ?_⟩
  · rw [run_succ, state_next_of_idle _ hidle, hhost.ndmreset_eq time, resumeTaken, commandTaken,
      hpending, hpulse]
    rfl
  · rw [run_succ, resumereq_next, writtenDmcontrol_of_triggers htriggers, hpending, Bool.and_false]

/-- A halted hart is still selected and halted after a trigger. -/
theorem halted_succ_of_trigger (hselectable : cfg.selectableHarts = BitVec.allOnes cfg.nrHarts)
    (hhost : HostConforms inputs) (hfit : HartsFit harts time)
    (htrigger : takesTrigger (run inputs time) (inputs time) = true)
    (hhalted : (run inputs time).mem.halted.getLsbD (run inputs time).selected = true) :
    (run inputs (time + 1)).selected = (run inputs time).selected ∧
      (run inputs (time + 1)).mem.halted.getLsbD (run inputs time).selected = true := by
  have hhart := lt_nrHarts_of_getLsbD hhalted
  obtain ⟨hactive, htriggers⟩ := Bool.and_eq_true_iff.mp htrigger
  constructor
  · rw [run_succ, selected_next_eq, selectedAfter_of_not_writes (runControlValid_run inputs time)
      hactive (not_writes_of_triggers htriggers)]
  · rw [run_succ, halted_next _ _ hhart, hhalted, hhost.ndmreset_eq time, hselectable,
      not_resumes_of_idle hfit (idle_of_triggers htriggers) hhart]
    simp [hhart]

/-- A trigger that meets a halted hart and a supported command enters Go two cycles later. -/
theorem commandCycle_of_trigger (hcount : cfg.nrHarts ≤ 1024)
    (hselectable : cfg.selectableHarts = BitVec.allOnes cfg.nrHarts)
    (hhost : HostConforms inputs) (hfit : HartsFit harts time)
    (htrigger : takesTrigger (run inputs time) (inputs time) = true)
    (hhalted : (run inputs time).mem.halted.getLsbD (run inputs time).selected = true)
    (hsupported : cfg.unsupportedCommand (run inputs (time + 1)).csrs.command = false) :
    CommandCycle inputs (run inputs time).selected (run inputs (time + 1)).csrs.command .go
      (time + 2) := by
  obtain ⟨hpulse, hactive, hndmreset⟩ :=
    next_of_takesTrigger htrigger (hhost.ndmreset_eq time)
  obtain ⟨-, hidle, hpending⟩ := idle_succ_of_trigger hhost htrigger
  obtain ⟨hselected, hhalted'⟩ :=
    halted_succ_of_trigger hselectable hhost hfit htrigger hhalted
  have hstart : canStart (run inputs (time + 1)) = true := by
    simp [canStart, hidle, hndmreset, resumeTaken, hpending, hselected, hhalted', hsupported]
  have hgo := ((go_iff _ (inputs (time + 1))).mpr ⟨hpulse, hstart⟩).2
  -- The host waits for the response, so that the cycle of the pulse changes neither the selection
  -- nor the command.
  have hquiet (csr : DmCsr) : writes (run inputs (time + 1)) (inputs (time + 1)) csr = false := by
    simp [writes, DmCsrs.writes, DmCsrs.acceptsWrite, DmCsrs.accepts, csrInputs,
      hhost.no_request_of_pulse hpulse]
  refine commandCycle_of hcount hhost hsupported (by decide) hgo ?_ ?_ (hhost.active_succ hactive)
  · rw [run_succ, selected_next_eq, selectedAfter_of_not_writes (runControlValid_run inputs _)
      hactive (hquiet .dmControl), hselected]
  · rw [run_succ, command_next, if_pos hactive, hquiet .command, Bool.false_and,
      if_neg Bool.false_ne_true]

/-- A trigger with the selected hart halted and a supported command is executed exactly once: the
hart control is Idle for two cycles, and then the command goes through Go and CmdExecuting back to
Idle, with one write of Going, by the selected hart. It comes to its end when the hart makes
progress. -/
theorem executesOnce (hcount : cfg.nrHarts ≤ 1024)
    (hselectable : cfg.selectableHarts = BitVec.allOnes cfg.nrHarts)
    (hhost : HostConforms inputs) (harts : ParkedHarts inputs)
    (htrigger : takesTrigger (run inputs time) (inputs time) = true)
    (hhalted : (run inputs time).mem.halted.getLsbD (run inputs time).selected = true)
    (hsupported : cfg.unsupportedCommand (run inputs (time + 1)).csrs.command = false) :
    (run inputs time).mem.state = .idle ∧ (run inputs (time + 1)).mem.state = .idle ∧
      Execution harts (run inputs time).selected (run inputs (time + 1)).csrs.command Unless
        (time + 2) ∧
      (Progresses harts (run inputs time).selected →
        Execution harts (run inputs time).selected (run inputs (time + 1)).csrs.command Until
          (time + 2)) := by
  have hfit := hartsFit_run hcount hselectable hhost harts
  obtain ⟨hidle, hidle', -⟩ := idle_succ_of_trigger hhost htrigger
  have hcycle := commandCycle_of_trigger hcount hselectable hhost (hfit time) htrigger hhalted
    hsupported
  exact ⟨hidle, hidle', execution_unless hcount hhost hsupported hfit hcycle,
    execution_until hcount hhost hsupported hfit hcycle⟩

end Execution

/-- Hart 0 halts, the host issues a command for it, and the hart executes it. -/
def executedRun : ℕ → Inputs twoHarts :=
  script
    [(Inputs.quiet twoHarts).withRequest ⟨0x10, dtmWrite, 0x00000001⟩,
      Inputs.quiet twoHarts,
      (Inputs.quiet twoHarts).withHartWrite DmMem.haltedAddr 0,
      (Inputs.quiet twoHarts).withRequest ⟨0x17, dtmWrite, 0x00221008⟩,
      Inputs.quiet twoHarts,
      (Inputs.quiet twoHarts).withHartRead 0x400,
      (Inputs.quiet twoHarts).withHartWrite DmMem.goingAddr 0,
      (Inputs.quiet twoHarts).withHartRead DmMem.whereToAddr,
      Inputs.quiet twoHarts,
      (Inputs.quiet twoHarts).withHartWrite DmMem.haltedAddr 0]

theorem executedRun_of_le {time : ℕ} (hlate : 10 ≤ time) :
    executedRun time = Inputs.quiet twoHarts := by
  unfold executedRun script
  rw [List.getD_eq_default _ _ (by simpa using hlate)]

theorem executedRun_requests {time : ℕ} (hrequest : (executedRun time).dmiReqValid = true) :
    time = 0 ∨ time = 3 := by
  by_cases hlate : 10 ≤ time
  · rw [executedRun_of_le hlate] at hrequest
    exact absurd hrequest (by decide)
  · have hearly : ∀ early < 10, (executedRun early).dmiReqValid = true → early = 0 ∨ early = 3 := by
      decide +kernel
    exact hearly time (not_le.mp hlate) hrequest

/-- The positions of hart 0 in the run; hart 1 stays in its program. -/
def executedPosition (time hart : ℕ) : Position :=
  if hart = 0 then
    [.running, .running, .entry, .pollGo, .pollGo, .pollGo, .going, .whereTo, .executing,
      .entry].getD time .pollGo
  else .running

/-- The harts of the run. -/
def executedHarts : ParkedHarts executedRun where
  position := executedPosition
  driver := fun time ↦ if time ∈ [2, 5, 6, 7, 9] then some 0 else none
  running_initially := by
    intro hart
    unfold executedPosition
    split_ifs <;> rfl
  driver_lt := by
    intro time hart hdriver
    split_ifs at hdriver
    rw [← Option.some_inj.mp hdriver]
    decide
  silent := by
    intro time hdriver
    by_cases hlate : 10 ≤ time
    · rw [executedRun_of_le hlate]
      rfl
    · have hearly : ∀ early < 10, (if early ∈ [2, 5, 6, 7, 9] then some 0 else none) = none →
          (executedRun early).slave.req = false := by decide +kernel
      exact hearly time (not_le.mp hlate) hdriver
  step := by
    intro time hart hhart
    by_cases hfirst : hart = 0
    · subst hfirst
      by_cases hlate : 10 ≤ time
      · have hdriver : ¬ time ∈ [2, 5, 6, 7, 9] := by simp; omega
        have hparked (later : ℕ) (hle : 10 ≤ later) : executedPosition later 0 = .pollGo := by
          rw [executedPosition, if_pos rfl, List.getD_eq_default _ _ (by simpa using hle)]
        rw [if_neg hdriver, hparked time hlate, hparked (time + 1) (by omega)]
        exact Step.pause _
      · interval_cases time
        · exact Step.pause _
        · exact Step.halt
        · exact Step.signalHalted (by decide +kernel) (by decide +kernel)
        · exact Step.pause _
        · exact Step.pause _
        · exact Step.seeGo (by decide +kernel) (by decide +kernel)
        · exact Step.signalGoing (by decide +kernel)
        · exact Step.fetchWhereTo (by decide +kernel) (by decide +kernel)
        · exact Step.ebreak
        · exact Step.signalHalted (by decide +kernel) (by decide +kernel)
    · have hother : (if time ∈ [2, 5, 6, 7, 9] then some 0 else none) ≠ some hart := by
        split_ifs
        · exact fun hsame ↦ hfirst (Option.some_inj.mp hsame).symm
        · exact Option.some_ne_none hart |>.symm
      rw [accessOf, if_neg hother, executedPosition, executedPosition, if_neg hfirst,
        if_neg hfirst]
      exact Step.pause _

theorem executedRun_hostConforms : HostConforms executedRun where
  one_outstanding := by
    intro asked later hlater haccepts hrequest
    obtain rfl : asked = 0 := by
      have hasked := executedRun_requests (Bool.and_eq_true_iff.mp haccepts).1
      have hlater := executedRun_requests hrequest
      omega
    obtain rfl : later = 3 := (executedRun_requests hrequest).resolve_left hlater.ne'
    exact ⟨1, by omega, by omega, by decide +kernel, by decide +kernel⟩
  stays_active := by
    intro time hwrites
    rcases executedRun_requests (request_of_writes hwrites) with rfl | rfl
    · decide +kernel
    · exact absurd hwrites (by decide +kernel)
  dmcontrol_idle := by
    intro time hwrites
    rcases executedRun_requests (request_of_writes hwrites) with rfl | rfl
    · decide +kernel
    · exact absurd hwrites (by decide +kernel)
  no_pending := by
    intro time htrigger
    rcases executedRun_requests (request_of_takesTrigger htrigger) with rfl | rfl <;>
      decide +kernel

theorem executedRun_progresses : Progresses executedHarts 0 := by
  intro time hbusy
  have hlast : time ≤ 9 := by
    by_contra hlate
    have hsettled : run executedRun 13 = run executedRun 12 := by decide +kernel
    have hidle : (run executedRun time).mem.state = .idle := by
      by_cases hsettles : 12 ≤ time
      · rw [executedRun, run_script_of_le (by decide) hsettled hsettles]
        decide +kernel
      · have hends : ∀ early < 12, 9 < early → (run executedRun early).mem.state = .idle := by
          decide +kernel
        exact hends time (not_le.mp hsettles) (not_le.mp hlate)
    exact hbusy hidle
  exact ⟨9, hlast, by decide⟩

/-- The command of the run is executed by hart 0, from its first cycle of Go on. -/
theorem executedRun_executes :
    Execution executedHarts 0 (Command.ofBits 0x00221008) Until 5 := by
  have htrigger : takesTrigger (run executedRun 3) (executedRun 3) = true := by decide +kernel
  have hexecutes := executesOnce (by decide) (by decide) executedRun_hostConforms executedHarts
    htrigger (by decide +kernel) (by decide +kernel)
  have hselected : (run executedRun 3).selected = 0 := by decide +kernel
  have hcommand : (run executedRun 4).csrs.command = Command.ofBits 0x00221008 := by
    decide +kernel
  rw [hselected, hcommand] at hexecutes
  exact hexecutes.2.2.2 executedRun_progresses

end RiscvDebug.DmTop
