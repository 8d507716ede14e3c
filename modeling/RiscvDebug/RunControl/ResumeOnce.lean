import RiscvDebug.RunControl.CommandExecution

/-!
# One resume for one request

A resume request is a credit for one resume. The hart control takes it when it enters Resume, and
the selected hart uses it when it leaves the park loop; `resumePending` is the credit that is left,
and `resumesAtMostOnce_of_settled` the resulting bound.

The hart control does not remember which hart it has entered Resume for. The rules for the host
(`ResumeHost`) keep the selection while a command unit is busy, but a request that was made during a
command is taken in the first cycle after it, and a selection that changes in this cycle hands the
resume to another hart (`movedResumeRun_resumes`). The bound therefore needs that no such cycle
changes the selection.
-/

set_option autoImplicit false
set_option relaxedAutoImplicit false

namespace RiscvDebug.DmTop

open Foundations Hart

variable {cfg : Config}

/-! ### The host -/

/-- An accepted write of `dmcontrol` asks for the resume of a hart. -/
def requestsResume (s : Regs cfg) (i : Inputs cfg) (hart : ℕ) : Bool :=
  writes s i .dmControl && (Dmcontrol.ofBits i.dmiReq.data).resumereq &&
    hartOf cfg (Dmcontrol.ofBits i.dmiReq.data) == hart

/-- An accepted write of `dmcontrol` selects another hart. -/
def movesSelection (s : Regs cfg) (i : Inputs cfg) : Bool :=
  writes s i .dmControl && hartOf cfg (Dmcontrol.ofBits i.dmiReq.data) != s.selected

/-- The rules the host keeps. -/
structure ResumeHost (inputs : ℕ → Inputs cfg) : Prop where
  /-- A request is presented only in a cycle after the response to the one before was taken. -/
  one_outstanding : ∀ asked later, asked < later →
    accepts (run inputs asked) (inputs asked) = true → (inputs later).dmiReqValid = true →
    ∃ taken, asked < taken ∧ taken < later ∧ (inputs taken).dmiRespReady = true ∧
      (run inputs taken).csrs.dmiRespValid = true
  /-- Once active, the module stays active. -/
  stays_active : ∀ time, (run inputs time).csrs.dmcontrol.dmactive = true →
    (run inputs (time + 1)).csrs.dmcontrol.dmactive = true
  not_reset : ∀ time, (run inputs time).csrs.dmcontrol.ndmreset = false
  /-- Only halted harts are asked to resume. -/
  asks_halted : ∀ time hart, (run inputs time).csrs.dmcontrol.dmactive = true →
    requestsResume (run inputs time) (inputs time) hart = true →
      (run inputs time).mem.halted.getLsbD hart = true
  /-- The selection is kept while `abstractcs` shows busy. -/
  keeps_selection : ∀ time, (run inputs time).csrs.dmcontrol.dmactive = true →
    (ctrl (run inputs time) (inputs time)).cmdbusy = true →
      movesSelection (run inputs time) (inputs time) = false

/-- The selection is also kept in the cycles in which the hart control takes a resume request. -/
def SettledResumes (inputs : ℕ → Inputs cfg) : Prop :=
  ∀ time, (run inputs time).csrs.dmcontrol.dmactive = true →
    (run inputs time).mem.state = .idle → resumeTaken (run inputs time) = true →
      movesSelection (run inputs time) (inputs time) = false

/-! ### Resumes and their credit -/

/-- A hart reads its flag byte with the resume bit set and leaves the park loop. -/
def TakesResume {inputs : ℕ → Inputs cfg} (harts : ParkedHarts inputs) (hart time : ℕ) : Prop :=
  harts.position time hart = .pollResume ∧ harts.position (time + 1) hart = .resuming

/-- A hart is asked to resume. -/
def AsksResume (inputs : ℕ → Inputs cfg) (hart time : ℕ) : Prop :=
  requestsResume (run inputs time) (inputs time) hart = true

instance {inputs : ℕ → Inputs cfg} (harts : ParkedHarts inputs) (hart : ℕ) :
    DecidablePred (TakesResume harts hart) :=
  fun _ ↦ inferInstanceAs (Decidable (_ ∧ _))

instance (inputs : ℕ → Inputs cfg) (hart : ℕ) : DecidablePred (AsksResume inputs hart) :=
  fun _ ↦ inferInstanceAs (Decidable (_ = _))

/-- At any time no hart has resumed more often than it was asked to. -/
def ResumesAtMostOnce {inputs : ℕ → Inputs cfg} (harts : ParkedHarts inputs) : Prop :=
  ∀ hart < cfg.nrHarts, ∀ time,
    Nat.count (TakesResume harts hart) time ≤ Nat.count (AsksResume inputs hart) time

/-- A resume that the hart may still take: it is offered in the state Resume until it is taken, and
pending in `dmcontrol` before that. -/
def resumePending (s : Regs cfg) (position : Position) (hart : ℕ) : Bool :=
  s.selected == hart &&
    match s.mem.state with
    | .resume => !s.mem.resuming.getLsbD hart && position != .resuming
    | _ => s.csrs.dmcontrol.resumereq

/-- Where the selected hart may stand in each state of the hart control. -/
def resumeFits (s : Regs cfg) (position : Position) : Prop :=
  match s.mem.state with
  | .idle => position.isParked = true
  | .go => position = .running ∨ position.awaitsGo = true
  | .cmdExecuting => position.takesCommand = true
  | .resume =>
    if s.mem.resuming.getLsbD s.selected then
      position = .running ∧ s.mem.halted.getLsbD s.selected = false
    else position = .running ∨ position.awaitsResume = true

/-- Every hart but the selected one is parked, and the selected one stands where the state of the
hart control allows it. -/
structure ResumeFits {inputs : ℕ → Inputs cfg} (harts : ParkedHarts inputs) (time : ℕ) : Prop where
  others : ∀ hart < cfg.nrHarts, hart ≠ (run inputs time).selected →
    (harts.position time hart).isParked = true
  selected : (run inputs time).selected < cfg.nrHarts →
    resumeFits (run inputs time) (harts.position time (run inputs time).selected)
  selectable : (run inputs time).mem.state = .resume →
    cfg.selectableHarts.getLsbD (run inputs time).selected = true

section Invariant

variable {inputs : ℕ → Inputs cfg} {harts : ParkedHarts inputs} {time : ℕ}

/-- Until the host activates the module nothing is under way. -/
theorem ResumeHost.inactive (hhost : ResumeHost inputs)
    (hinactive : (run inputs time).csrs.dmcontrol.dmactive = false) :
    (run inputs time).mem.state = .idle ∧ (run inputs time).csrs.dmcontrol.resumereq = false ∧
      (run inputs time).csrs.cmdValid = false := by
  induction time with
  | zero => exact ⟨rfl, by simp [run, machine, Regs.reset, DmCsrs.Regs.reset, Dmcontrol.reset,
      Dmcontrol.ofBits], rfl⟩
  | succ time ih =>
    have hbefore : (run inputs time).csrs.dmcontrol.dmactive = false := by
      by_contra hactive
      rw [hhost.stays_active time (by simpa using hactive)] at hinactive
      exact Bool.false_ne_true hinactive.symm
    obtain ⟨hidle, hresumereq, hpulse⟩ := ih hbefore
    refine ⟨?_, ?_, ?_⟩
    · rw [run_succ, state_next_of_idle _ hidle, resumeTaken, commandTaken, hresumereq, hpulse]
      simp
    · rw [run_succ, resumereq_next, hbefore, Bool.false_and, Bool.false_and]
    · rw [run_succ, cmdValid_next, hbefore, Bool.false_and]

/-- The selection changes only in Idle, and not while a resume request is taken. -/
theorem selected_succ_of_resume (hhost : ResumeHost inputs) (hsettled : SettledResumes inputs)
    (hkeeps : (run inputs time).mem.state ≠ .idle ∨ resumeTaken (run inputs time) = true) :
    (run inputs (time + 1)).selected = (run inputs time).selected := by
  have hactive : (run inputs time).csrs.dmcontrol.dmactive = true := by
    by_contra hinactive
    obtain ⟨hidle, hresumereq, -⟩ := hhost.inactive (by simpa using hinactive)
    rcases hkeeps with hbusy | htaken
    · exact hbusy hidle
    · rw [resumeTaken, hresumereq] at htaken
      exact absurd htaken Bool.false_ne_true
  have hmoves : movesSelection (run inputs time) (inputs time) = false := by
    by_cases hidle : (run inputs time).mem.state = .idle
    · exact hsettled time hactive hidle (hkeeps.resolve_left (not_not_intro hidle))
    · refine hhost.keeps_selection time hactive ?_
      rw [cmdbusy_eq, bne, beq_false_of_ne hidle]
      rfl
  rw [run_succ, selected_next_eq]
  cases hwrites : writes (run inputs time) (inputs time) .dmControl with
  | false => exact selectedAfter_of_not_writes (runControlValid_run inputs time) hactive hwrites
  | true =>
    rw [movesSelection, hwrites, Bool.true_and, bne_eq_false_iff_eq] at hmoves
    rw [selectedAfter, if_pos hactive, writtenDmcontrol_of_writes hwrites, hmoves]

/-- The flag bytes of a cycle. -/
theorem serves_of_resume (time : ℕ) (hcount : cfg.nrHarts ≤ 1024) (hhost : ResumeHost inputs)
    (harts : ParkedHarts inputs) {hart : ℕ} (hhart : hart < cfg.nrHarts) :
    FlagServes hart ((run inputs (time + 1)).mem.readByte (DmMem.flagAddress hart))
      (accessOf (harts.driver time) (inputs time).slave hart)
      (hart == (run inputs time).selected && (run inputs time).mem.state == .go)
      (hart == (run inputs time).selected && (run inputs time).mem.state == .resume) :=
  flagServes hcount (hhost.not_reset time) hhart (harts.driver time)

/-- A hart that is parked and sees no offer stays parked. -/
theorem parked_succ_of_resume (hcount : cfg.nrHarts ≤ 1024) (hhost : ResumeHost inputs)
    (hfit : ResumeFits harts time) {hart : ℕ} (hhart : hart < cfg.nrHarts)
    (hother : hart ≠ (run inputs time).selected ∨ (run inputs time).mem.state = .idle) :
    (harts.position (time + 1) hart).isParked = true := by
  have hserves := serves_of_resume time hcount hhost harts hhart
  by_cases hselected : hart = (run inputs time).selected
  · have hidle := hother.resolve_left (not_not_intro hselected)
    subst hselected
    rw [hidle, beq_self_eq_true] at hserves
    refine (harts.step time _ hhart).parked hserves ?_
    have hfits := hfit.selected hhart
    rw [resumeFits, hidle] at hfits
    exact hfits
  · rw [beq_false_of_ne hselected, Bool.false_and, Bool.false_and] at hserves
    exact (harts.step time hart hhart).parked hserves (hfit.others hart hhart hselected)

/-- A parked hart does not write Resuming. -/
theorem not_writes_of_parked {hart : ℕ} (hparked : (harts.position time hart).isParked = true) :
    (inputs time).hartWrites DmMem.resumingAddr hart = false := by
  by_contra hwrites
  rw [(harts.resuming_of_writes (by simpa using hwrites)).1] at hparked
  exact absurd hparked (by decide)

theorem awaits_of_parked {position : Position} (hparked : position.isParked = true) :
    (position = .running ∨ position.awaitsGo = true) ∧
      (position = .running ∨ position.awaitsResume = true) := by
  by_cases hrunning : position = .running
  · exact ⟨Or.inl hrunning, Or.inl hrunning⟩
  · obtain ⟨hgo, hresume⟩ := Position.awaits_of_isParked hparked hrunning
    exact ⟨Or.inr hgo, Or.inr hresume⟩

/-- A parked hart fits every state but CmdExecuting, as long as it has not acknowledged a resume. -/
theorem resumeFits_of_parked {s : Regs cfg} {position : Position}
    (hparked : position.isParked = true) (hstate : s.mem.state ≠ .cmdExecuting)
    (hresuming : s.mem.state = .resume → s.mem.resuming.getLsbD s.selected = false) :
    resumeFits s position := by
  obtain ⟨hgo, hresume⟩ := awaits_of_parked hparked
  unfold resumeFits
  cases hcase : s.mem.state with
  | idle => exact hparked
  | go => exact hgo
  | cmdExecuting => exact absurd hcase hstate
  | resume =>
    dsimp only
    rw [hresuming hcase, if_neg Bool.false_ne_true]
    exact hresume

/-- The states that follow Idle, and what the hart control has seen in it. -/
theorem state_succ_of_idle (hidle : (run inputs time).mem.state = .idle) :
    (run inputs (time + 1)).mem.state ≠ .cmdExecuting ∧
      ((run inputs (time + 1)).mem.state = .resume → resumeTaken (run inputs time) = true) := by
  rw [run_succ, state_next_of_idle _ hidle]
  split_ifs with hndmreset htaken hcommand <;> simp_all

/-- The state Resume is entered from Idle, when the hart control takes a request. -/
theorem entersResume (hresume : (run inputs (time + 1)).mem.state = .resume) :
    (run inputs time).mem.state = .resume ∨
      (run inputs time).mem.state = .idle ∧ resumeTaken (run inputs time) = true := by
  cases hstate : (run inputs time).mem.state with
  | idle => exact Or.inr ⟨rfl, (state_succ_of_idle hstate).2 hresume⟩
  | go =>
    rw [run_succ, state_next_of_go _ hstate] at hresume
    split_ifs at hresume
  | cmdExecuting =>
    rw [run_succ, state_next_of_cmdExecuting _ hstate] at hresume
    split_ifs at hresume
  | resume => exact Or.inl rfl

/-- A resume that is taken finds the acknowledgement of its hart clear, and leaves it so. -/
theorem resuming_succ_of_taken (hhost : ResumeHost inputs)
    (hsettled : SettledResumes inputs) (hfit : ResumeFits harts time)
    (hidle : (run inputs time).mem.state = .idle)
    (htaken : resumeTaken (run inputs time) = true) :
    (run inputs (time + 1)).selected = (run inputs time).selected ∧
      (run inputs (time + 1)).mem.resuming.getLsbD (run inputs (time + 1)).selected = false ∧
      cfg.selectableHarts.getLsbD (run inputs (time + 1)).selected = true := by
  have hselected := selected_succ_of_resume hhost hsettled (Or.inr htaken)
  simp only [resumeTaken, Bool.and_eq_true, Bool.not_eq_true'] at htaken
  obtain ⟨⟨⟨-, hclear⟩, -⟩, hhalted⟩ := htaken
  have hhart := lt_nrHarts_of_getLsbD hhalted
  have hparked : (harts.position time (run inputs time).selected).isParked = true := by
    have hfits := hfit.selected hhart
    rw [resumeFits, hidle] at hfits
    exact hfits
  refine ⟨hselected, ?_, ?_⟩
  · rw [hselected, run_succ, resuming_next _ _ hhart, not_writes_of_parked hparked, hclear]
    simp
  · rw [hselected]
    exact (runControlValid_run inputs time).halted_selectable _ hhalted

theorem resumeFits_succ_of_idle (hcount : cfg.nrHarts ≤ 1024) (hhost : ResumeHost inputs)
    (hsettled : SettledResumes inputs) (hfit : ResumeFits harts time)
    (hidle : (run inputs time).mem.state = .idle)
    (hhart : (run inputs (time + 1)).selected < cfg.nrHarts) :
    resumeFits (run inputs (time + 1))
      (harts.position (time + 1) (run inputs (time + 1)).selected) := by
  obtain ⟨hnext, hresume⟩ := state_succ_of_idle hidle
  refine resumeFits_of_parked (parked_succ_of_resume hcount hhost hfit hhart (Or.inr hidle)) hnext
    fun hstate ↦ ?_
  exact (resuming_succ_of_taken hhost hsettled hfit hidle (hresume hstate)).2.1

theorem resumeFits_succ_of_go (hcount : cfg.nrHarts ≤ 1024) (hhost : ResumeHost inputs)
    (hfit : ResumeFits harts time) (hgo : (run inputs time).mem.state = .go)
    (hhart : (run inputs time).selected < cfg.nrHarts) :
    resumeFits (run inputs (time + 1)) (harts.position (time + 1) (run inputs time).selected) := by
  have hserves := serves_of_resume time hcount hhost harts hhart
  rw [hgo, beq_self_eq_true] at hserves
  have hstep := harts.step time _ hhart
  have hfits := hfit.selected hhart
  rw [resumeFits, hgo] at hfits
  have hstate := state_next_of_go (inputs time) hgo
  rw [hhost.not_reset time, if_neg Bool.false_ne_true, ← run_succ] at hstate
  cases hwrites : (inputs time).slave.writes DmMem.goingAddr with
  | true =>
    -- The writer of Going is not parked, so that it is the selected hart.
    obtain ⟨writer, hwriter, -, hbefore, hafter⟩ := harts.going_of_writes hwrites
    obtain rfl : writer = (run inputs time).selected := by
      by_contra hother
      have hparked := hfit.others writer hwriter hother
      rw [hbefore] at hparked
      exact absurd hparked (by decide)
    rw [hwrites, if_pos rfl] at hstate
    rw [resumeFits, hstate, hafter]
    rfl
  | false =>
    rw [hwrites, if_neg Bool.false_ne_true] at hstate
    rw [resumeFits, hstate]
    dsimp only
    rcases hfits with hrunning | hawaits
    · rw [hrunning] at hstep
      exact (awaits_of_parked hstep.of_running).1
    · rcases hstep.awaitsGo hserves hawaits with hstays | ⟨-, -, a, haccess, hsignals⟩
      · exact Or.inr hstays
      · obtain ⟨-, rfl⟩ := harts.eq_of_accessOf haccess
        rw [hwrites] at hsignals
        exact absurd hsignals Bool.false_ne_true

theorem resumeFits_succ_of_cmdExecuting (hhost : ResumeHost inputs)
    (hfit : ResumeFits harts time) (hexecuting : (run inputs time).mem.state = .cmdExecuting)
    (hhart : (run inputs time).selected < cfg.nrHarts) :
    resumeFits (run inputs (time + 1)) (harts.position (time + 1) (run inputs time).selected) := by
  have hfits := hfit.selected hhart
  rw [resumeFits, hexecuting] at hfits
  have hstate := state_next_of_cmdExecuting (inputs time) hexecuting
  rw [hhost.not_reset time, if_neg Bool.false_ne_true, ← run_succ] at hstate
  cases hwrites : (inputs time).hartWrites DmMem.haltedAddr (run inputs time).selected with
  | true =>
    obtain ⟨-, -, hafter⟩ := harts.entry_of_writes hwrites
    rw [Inputs.hartWrites] at hwrites
    rw [hwrites, if_pos rfl] at hstate
    rw [resumeFits, hstate, hafter]
    rfl
  | false =>
    rw [Inputs.hartWrites] at hwrites
    rw [hwrites, if_neg Bool.false_ne_true] at hstate
    rw [resumeFits, hstate]
    rcases (harts.step time _ hhart).takesCommand hfits with hstays | ⟨-, -, a, haccess, hsignals⟩
    · exact hstays
    · obtain ⟨-, rfl⟩ := harts.eq_of_accessOf haccess
      rw [hsignals.1, beq_iff_eq.mpr hsignals.2] at hwrites
      exact absurd hwrites (by decide)

/-- In the state Resume the selected hart has acknowledged after the cycle exactly when it writes
Resuming in it, and is then no longer halted. -/
theorem resuming_succ_of_resume (hhost : ResumeHost inputs) (hfit : ResumeFits harts time)
    (hresume : (run inputs time).mem.state = .resume)
    (hclear : (run inputs time).mem.resuming.getLsbD (run inputs time).selected = false) :
    (run inputs (time + 1)).mem.resuming.getLsbD (run inputs time).selected =
        (inputs time).hartWrites DmMem.resumingAddr (run inputs time).selected ∧
      ((inputs time).hartWrites DmMem.resumingAddr (run inputs time).selected = true →
        harts.position (time + 1) (run inputs time).selected = .running ∧
          (run inputs (time + 1)).mem.halted.getLsbD (run inputs time).selected = false) := by
  have hselectable := hfit.selectable hresume
  have hhart := lt_nrHarts_of_getLsbD hselectable
  refine ⟨?_, fun hwrites ↦ ⟨(harts.resuming_of_writes hwrites).2, ?_⟩⟩
  · rw [run_succ, resuming_next _ _ hhart, hselectable, hhost.not_reset time, hclear]
    simp
  · have hother : (inputs time).hartWrites DmMem.haltedAddr (run inputs time).selected = false := by
      by_contra hhalts
      have hbefore := (harts.entry_of_writes (by simpa using hhalts)).2.1
      rw [(harts.resuming_of_writes hwrites).1] at hbefore
      exact absurd hbefore (by decide)
    rw [run_succ, halted_next _ _ hhart, hother, hwrites]
    simp

theorem resumeFits_succ_of_resume (hcount : cfg.nrHarts ≤ 1024) (hhost : ResumeHost inputs)
    (hsettled : SettledResumes inputs) (hfit : ResumeFits harts time)
    (hresume : (run inputs time).mem.state = .resume)
    (hhart : (run inputs time).selected < cfg.nrHarts) :
    resumeFits (run inputs (time + 1)) (harts.position (time + 1) (run inputs time).selected) := by
  have hselected := selected_succ_of_resume hhost hsettled
    (Or.inl (by rw [hresume]; decide : (run inputs time).mem.state ≠ .idle))
  have hserves := serves_of_resume time hcount hhost harts hhart
  rw [hresume, beq_self_eq_true] at hserves
  have hstep := harts.step time _ hhart
  have hfits := hfit.selected hhart
  rw [resumeFits, hresume] at hfits
  have hstate := state_next_of_resume (inputs time) hresume
  rw [hhost.not_reset time, if_neg Bool.false_ne_true, ← run_succ] at hstate
  cases hacked : (run inputs time).mem.resuming.getLsbD (run inputs time).selected with
  | true =>
    simp only [hacked, if_true] at hfits hstate
    rw [hfits.1] at hstep
    refine resumeFits_of_parked hstep.of_running (by rw [hstate]; decide) fun hother ↦ ?_
    rw [hstate] at hother
    exact absurd hother (by decide)
  | false =>
    simp only [hacked, Bool.false_eq_true, if_false] at hfits hstate
    obtain ⟨hnext, hleaves⟩ := resuming_succ_of_resume hhost hfit hresume hacked
    rw [resumeFits, hstate]
    dsimp only
    rw [hselected, hnext]
    cases hwrites : (inputs time).hartWrites DmMem.resumingAddr (run inputs time).selected with
    | true =>
      rw [if_pos rfl]
      exact hleaves hwrites
    | false =>
      rw [if_neg Bool.false_ne_true]
      rcases hfits with hrunning | hawaits
      · rw [hrunning] at hstep
        exact (awaits_of_parked hstep.of_running).2
      · rcases hstep.awaitsResume hserves hawaits with hstays | ⟨-, -, a, haccess, hsignals⟩
        · exact Or.inr hstays
        · obtain ⟨-, rfl⟩ := harts.eq_of_accessOf haccess
          rw [Inputs.hartWrites, hsignals.1, beq_iff_eq.mpr hsignals.2] at hwrites
          exact absurd hwrites (by decide)

theorem resumeFits_zero (harts : ParkedHarts inputs) : ResumeFits harts 0 where
  others := fun hart _ _ ↦ by rw [harts.running_initially]; rfl
  selected := fun _ ↦ by rw [harts.running_initially]; rfl
  selectable := fun hresume ↦ absurd hresume (by simp [run, machine, Regs.reset, DmMem.Regs.reset])

theorem resumeFits_succ (hcount : cfg.nrHarts ≤ 1024) (hhost : ResumeHost inputs)
    (hsettled : SettledResumes inputs) (hfit : ResumeFits harts time) :
    ResumeFits harts (time + 1) := by
  by_cases hidle : (run inputs time).mem.state = .idle
  · refine ⟨fun hart hhart _ ↦ parked_succ_of_resume hcount hhost hfit hhart (Or.inr hidle),
      resumeFits_succ_of_idle hcount hhost hsettled hfit hidle, fun hresume ↦ ?_⟩
    exact (resuming_succ_of_taken hhost hsettled hfit hidle
      ((state_succ_of_idle hidle).2 hresume)).2.2
  · have hselected := selected_succ_of_resume hhost hsettled (Or.inl hidle)
    refine ⟨fun hart hhart hother ↦ ?_, fun hhart ↦ ?_, fun hresume ↦ ?_⟩
    · rw [hselected] at hother
      exact parked_succ_of_resume hcount hhost hfit hhart (Or.inl hother)
    · rw [hselected] at hhart ⊢
      cases hstate : (run inputs time).mem.state with
      | idle => exact absurd hstate hidle
      | go => exact resumeFits_succ_of_go hcount hhost hfit hstate hhart
      | cmdExecuting => exact resumeFits_succ_of_cmdExecuting hhost hfit hstate hhart
      | resume => exact resumeFits_succ_of_resume hcount hhost hsettled hfit hstate hhart
    · rw [hselected]
      rcases entersResume hresume with hbefore | ⟨hbefore, -⟩
      · exact hfit.selectable hbefore
      · exact absurd hbefore hidle

theorem resumeFits_run (hcount : cfg.nrHarts ≤ 1024) (hhost : ResumeHost inputs)
    (hsettled : SettledResumes inputs) (harts : ParkedHarts inputs) (time : ℕ) :
    ResumeFits harts time := by
  induction time with
  | zero => exact resumeFits_zero harts
  | succ time ih => exact resumeFits_succ hcount hhost hsettled ih

/-! ### The balance of credits -/

/-- A hart that takes a resume is the selected one, in the state Resume, and has not acknowledged
it yet. -/
theorem resume_of_takesResume (hcount : cfg.nrHarts ≤ 1024) (hhost : ResumeHost inputs)
    (hfit : ResumeFits harts time) {hart : ℕ} (hhart : hart < cfg.nrHarts)
    (htakes : TakesResume harts hart time) :
    hart = (run inputs time).selected ∧ (run inputs time).mem.state = .resume ∧
      (run inputs time).mem.resuming.getLsbD hart = false := by
  obtain ⟨hbefore, hafter⟩ := htakes
  have hserves := serves_of_resume time hcount hhost harts hhart
  have hstep := harts.step time hart hhart
  rw [hbefore, hafter] at hstep
  have hoffer : (hart == (run inputs time).selected &&
      (run inputs time).mem.state == .resume) = true := hstep.resume_of_leaves hserves
  simp only [Bool.and_eq_true, beq_iff_eq] at hoffer
  obtain ⟨hselected, hresume⟩ := hoffer
  refine ⟨hselected, hresume, ?_⟩
  by_contra hacked
  subst hselected
  have hfits := hfit.selected hhart
  rw [resumeFits, hresume] at hfits
  dsimp only at hfits
  rw [if_pos (by simpa using hacked), hbefore] at hfits
  exact absurd hfits.1 (by decide)

/-- A resume request that is pending after a cycle was pending before it, or has been made in it. -/
theorem resumereq_succ
    (hpending : (run inputs (time + 1)).csrs.dmcontrol.resumereq = true) :
    AsksResume inputs (run inputs (time + 1)).selected time ∨
      (run inputs (time + 1)).selected = (run inputs time).selected ∧
        (run inputs time).csrs.dmcontrol.resumereq = true := by
  rw [run_succ, resumereq_next] at hpending
  simp only [Bool.and_eq_true] at hpending
  obtain ⟨⟨hactive, -⟩, hwritten⟩ := hpending
  cases hwrites : writes (run inputs time) (inputs time) .dmControl with
  | true =>
    left
    rw [writtenDmcontrol_of_writes hwrites] at hwritten
    rw [AsksResume, requestsResume, hwrites, hwritten, run_succ, selected_next_eq, selectedAfter,
      if_pos hactive, writtenDmcontrol_of_writes hwrites]
    simp
  | false =>
    right
    rw [writtenDmcontrol_of_not_writes hwrites] at hwritten
    refine ⟨?_, hwritten⟩
    rw [run_succ, selected_next_eq]
    exact selectedAfter_of_not_writes (runControlValid_run inputs time) hactive hwrites

/-- When the state Resume ends no request is left: a pending one has been cleared by the
acknowledgement, and the hart, which has left, may not be asked again in this cycle. -/
theorem resumereq_succ_of_acked (hhost : ResumeHost inputs) (hfit : ResumeFits harts time)
    (hsettled : SettledResumes inputs) (hresume : (run inputs time).mem.state = .resume)
    (hacked : (run inputs time).mem.resuming.getLsbD (run inputs time).selected = true) :
    (run inputs (time + 1)).csrs.dmcontrol.resumereq = false := by
  by_contra hpending
  rw [Bool.not_eq_false] at hpending
  have hselected := selected_succ_of_resume hhost hsettled
    (Or.inl (by rw [hresume]; decide : (run inputs time).mem.state ≠ .idle))
  have hactive : (run inputs time).csrs.dmcontrol.dmactive = true := by
    by_contra hinactive
    rw [(hhost.inactive (by simpa using hinactive)).1] at hresume
    exact absurd hresume (by decide)
  rcases resumereq_succ hpending with hasks | ⟨-, hbefore⟩
  · rw [hselected] at hasks
    have hhalted := hhost.asks_halted time _ hactive hasks
    have hfits := hfit.selected (lt_nrHarts_of_getLsbD hacked)
    rw [resumeFits, hresume] at hfits
    dsimp only at hfits
    rw [if_pos hacked, hhalted] at hfits
    exact absurd hfits.2 (by decide)
  · have hnonzero : ((run inputs time).mem.resuming != 0) = true := by
      by_contra hzero
      rw [Bool.not_eq_true, bne_eq_false_iff_eq] at hzero
      rw [hzero] at hacked
      simp at hacked
    rw [run_succ, resumereq_next, hbefore, hnonzero] at hpending
    simp at hpending

theorem resumePending_of_resume {s : Regs cfg} (position : Position)
    (hresume : s.mem.state = .resume) (hart : ℕ) :
    resumePending s position hart =
      (s.selected == hart && (!s.mem.resuming.getLsbD hart && position != .resuming)) := by
  rw [resumePending, hresume]

theorem resumePending_of_ne_resume {s : Regs cfg} (position : Position)
    (hstate : s.mem.state ≠ .resume) (hart : ℕ) :
    resumePending s position hart = (s.selected == hart && s.csrs.dmcontrol.resumereq) := by
  unfold resumePending
  cases hcase : s.mem.state with
  | resume => exact absurd hcase hstate
  | _ => rfl

/-- In the state Resume a resume that the hart may still take after the cycle was one before, and
the hart has not taken it in the cycle. -/
theorem pending_succ_of_resume (hhost : ResumeHost inputs)
    (hsettled : SettledResumes inputs) (hfit : ResumeFits harts time) {hart : ℕ}
    (hresume : (run inputs time).mem.state = .resume)
    (hpending : resumePending (run inputs (time + 1)) (harts.position (time + 1) hart) hart =
      true) :
    resumePending (run inputs time) (harts.position time hart) hart = true ∧
      ¬ TakesResume harts hart time := by
  have hselected := selected_succ_of_resume hhost hsettled
    (Or.inl (by rw [hresume]; decide : (run inputs time).mem.state ≠ .idle))
  have hhart := lt_nrHarts_of_getLsbD (hfit.selectable hresume)
  have hstate := state_next_of_resume (inputs time) hresume
  rw [hhost.not_reset time, if_neg Bool.false_ne_true, ← run_succ] at hstate
  cases hacked : (run inputs time).mem.resuming.getLsbD (run inputs time).selected with
  | true =>
    rw [hacked, if_pos rfl] at hstate
    rw [resumePending_of_ne_resume _ (by rw [hstate]; decide),
      resumereq_succ_of_acked hhost hfit hsettled hresume hacked, Bool.and_false] at hpending
    exact absurd hpending Bool.false_ne_true
  | false =>
    rw [hacked, if_neg Bool.false_ne_true] at hstate
    rw [resumePending_of_resume _ hstate, hselected] at hpending
    simp only [Bool.and_eq_true, beq_iff_eq, Bool.not_eq_true', bne_iff_ne] at hpending
    obtain ⟨rfl, hclear, hposition⟩ := hpending
    rw [(resuming_succ_of_resume hhost hfit hresume hacked).1] at hclear
    refine ⟨?_, fun htakes ↦ hposition htakes.2⟩
    have hbefore : harts.position time (run inputs time).selected ≠ .resuming := by
      intro hbefore
      have hstep := harts.step time _ hhart
      rw [hbefore] at hstep
      rcases hstep.of_resuming with hstays | ⟨a, haccess, hwrites, hindex⟩
      · exact hposition hstays
      · obtain ⟨-, rfl⟩ := harts.eq_of_accessOf haccess
        rw [Inputs.hartWrites, hwrites, beq_iff_eq.mpr hindex] at hclear
        exact absurd hclear (by decide)
    rw [resumePending_of_resume _ hresume, hacked]
    simpa using hbefore

/-- Outside the state Resume a resume that is pending after the cycle was pending before it, or has
been asked for in it. -/
theorem pending_succ_of_ne_resume (hhost : ResumeHost inputs) (hsettled : SettledResumes inputs)
    {hart : ℕ} (hstate : (run inputs time).mem.state ≠ .resume)
    (hpending : resumePending (run inputs (time + 1)) (harts.position (time + 1) hart) hart =
      true) :
    resumePending (run inputs time) (harts.position time hart) hart = true ∨
      AsksResume inputs hart time := by
  rw [resumePending_of_ne_resume _ hstate]
  by_cases hnext : (run inputs (time + 1)).mem.state = .resume
  · left
    obtain ⟨-, htaken⟩ := (entersResume hnext).resolve_left hstate
    rw [resumePending_of_resume _ hnext,
      selected_succ_of_resume hhost hsettled (Or.inr htaken)] at hpending
    simp only [resumeTaken, Bool.and_eq_true] at htaken
    rw [(Bool.and_eq_true_iff.mp hpending).1, htaken.1.1.1]
    rfl
  · rw [resumePending_of_ne_resume _ hnext] at hpending
    obtain ⟨hselected, hresumereq⟩ := Bool.and_eq_true_iff.mp hpending
    rcases resumereq_succ hresumereq with hasks | ⟨hsame, hbefore⟩
    · right
      rw [beq_iff_eq.mp hselected] at hasks
      exact hasks
    · left
      rw [← hsame, hselected, hbefore]
      rfl

/-- The credit of one cycle: a resume that is taken uses up a pending one, and a pending one that
is new answers a request. -/
theorem resume_balance (hcount : cfg.nrHarts ≤ 1024) (hhost : ResumeHost inputs)
    (hsettled : SettledResumes inputs) (hfit : ResumeFits harts time) {hart : ℕ}
    (hhart : hart < cfg.nrHarts) :
    (if TakesResume harts hart time then 1 else 0) +
        (resumePending (run inputs (time + 1)) (harts.position (time + 1) hart) hart).toNat ≤
      (resumePending (run inputs time) (harts.position time hart) hart).toNat +
        if AsksResume inputs hart time then 1 else 0 := by
  by_cases htakes : TakesResume harts hart time
  · obtain ⟨hselected, hresume, hclear⟩ := resume_of_takesResume hcount hhost hfit hhart htakes
    have hbefore : resumePending (run inputs time) (harts.position time hart) hart = true := by
      rw [resumePending_of_resume _ hresume, htakes.1, hclear, hselected]
      simp
    have hafter : resumePending (run inputs (time + 1)) (harts.position (time + 1) hart) hart =
        false := by
      by_contra hpending
      exact (pending_succ_of_resume hhost hsettled hfit hresume
        (by simpa using hpending)).2 htakes
    rw [hbefore, hafter, if_pos htakes]
    simp
  · rw [if_neg htakes, Nat.zero_add]
    cases hpending :
        resumePending (run inputs (time + 1)) (harts.position (time + 1) hart) hart with
    | false => exact Nat.zero_le _
    | true =>
      by_cases hresume : (run inputs time).mem.state = .resume
      · rw [(pending_succ_of_resume hhost hsettled hfit hresume hpending).1]
        exact Nat.le_add_right _ _
      · rcases pending_succ_of_ne_resume hhost hsettled hresume hpending with hbefore | hasks
        · rw [hbefore]
          exact Nat.le_add_right _ _
        · rw [if_pos hasks]
          exact Nat.le_add_left _ _

/-- Under a host that keeps its rules, and that does not change the selection in a cycle in which
the hart control takes a resume request, no hart resumes more often than it was asked to. -/
theorem resumesAtMostOnce_of_settled (hcount : cfg.nrHarts ≤ 1024) (hhost : ResumeHost inputs)
    (hsettled : SettledResumes inputs) (harts : ParkedHarts inputs) :
    ResumesAtMostOnce harts := by
  intro hart hhart time
  have hcredit := count_le_of_credit
    (fun time ↦ (resumePending (run inputs time) (harts.position time hart) hart).toNat) ?_
    (fun time ↦ resume_balance hcount hhost hsettled
      (resumeFits_run hcount hhost hsettled harts time) hhart) time
  · exact (Nat.le_add_right _ _).trans hcredit
  · have hidle : (run inputs 0).mem.state ≠ .resume := by
      simp [run, machine, Regs.reset, DmMem.Regs.reset]
    have hresumereq : (run inputs 0).csrs.dmcontrol.resumereq = false := by
      simp [run, machine, Regs.reset, DmCsrs.Regs.reset, Dmcontrol.reset, Dmcontrol.ofBits]
    rw [resumePending_of_ne_resume _ hidle, hresumereq, Bool.and_false]
    rfl

end Invariant

/-! ### Two runs -/

/-- Both harts halt, the host issues a command for hart 0 and, while hart 0 executes it, asks hart 0
to resume. In the first cycle after the command the host selects hart 1, without a request. -/
def movedResumeRun : ℕ → Inputs twoHarts :=
  script
    [(Inputs.quiet twoHarts).withRequest ⟨0x10, dtmWrite, 0x00000001⟩,
      (Inputs.quiet twoHarts).withHartWrite DmMem.haltedAddr 0,
      ((Inputs.quiet twoHarts).withRequest ⟨0x17, dtmWrite, 0x00221008⟩).withHartWrite
        DmMem.haltedAddr 1,
      Inputs.quiet twoHarts,
      ((Inputs.quiet twoHarts).withRequest ⟨0x10, dtmWrite, 0x40000001⟩).withHartRead 0x400,
      (Inputs.quiet twoHarts).withHartWrite DmMem.goingAddr 0,
      (Inputs.quiet twoHarts).withHartRead DmMem.whereToAddr,
      Inputs.quiet twoHarts,
      (Inputs.quiet twoHarts).withHartWrite DmMem.haltedAddr 0,
      ((Inputs.quiet twoHarts).withRequest ⟨0x10, dtmWrite, 0x00010001⟩).withHartRead 0x401,
      (Inputs.quiet twoHarts).withHartRead 0x401]

/-- The positions of the two harts in the run. -/
def movedResumePosition (time hart : ℕ) : Position :=
  if hart = 0 then
    [.running, .entry, .pollGo, .pollGo, .pollGo, .going, .whereTo, .executing, .entry].getD time
      .pollGo
  else
    [.running, .entry, .entry, .pollGo, .pollGo, .pollGo, .pollGo, .pollGo, .pollGo, .pollGo,
      .pollResume].getD time .resuming

/-- The hart that has the bus in each cycle. -/
def movedResumeDriver (time : ℕ) : Option ℕ :=
  [none, some 0, some 1, none, some 0, some 0, some 0, none, some 0, some 1, some 1].getD time none

theorem movedResumeRun_of_le {time : ℕ} (hlate : 11 ≤ time) :
    movedResumeRun time = Inputs.quiet twoHarts ∧ movedResumeDriver time = none := by
  unfold movedResumeRun script movedResumeDriver
  rw [List.getD_eq_default _ _ (by simpa using hlate),
    List.getD_eq_default _ _ (by simpa using hlate)]
  exact ⟨rfl, rfl⟩

theorem movedResumePosition_of_le {time : ℕ} (hlate : 11 ≤ time) (hart : ℕ) :
    movedResumePosition (time + 1) hart = movedResumePosition time hart := by
  unfold movedResumePosition
  split_ifs
  · rw [List.getD_eq_default _ _ (by simp; omega), List.getD_eq_default _ _ (by simp; omega)]
  · rw [List.getD_eq_default _ _ (by simp; omega), List.getD_eq_default _ _ (by simp; omega)]

/-- The harts of the run. -/
def movedResumeHarts : ParkedHarts movedResumeRun where
  position := movedResumePosition
  driver := movedResumeDriver
  running_initially := by
    intro hart
    unfold movedResumePosition
    split_ifs <;> rfl
  driver_lt := by
    intro time hart hdriver
    by_cases hlate : 11 ≤ time
    · rw [(movedResumeRun_of_le hlate).2] at hdriver
      exact absurd hdriver (Option.some_ne_none hart).symm
    · have hearly : ∀ early < 11, ∀ driver ∈ movedResumeDriver early, driver < 2 := by decide
      exact hearly time (not_le.mp hlate) hart hdriver
  silent := by
    intro time hdriver
    by_cases hlate : 11 ≤ time
    · rw [(movedResumeRun_of_le hlate).1]
      rfl
    · have hearly : ∀ early < 11, movedResumeDriver early = none →
          (movedResumeRun early).slave.req = false := by decide +kernel
      exact hearly time (not_le.mp hlate) hdriver
  step := by
    intro time hart hhart
    by_cases hlate : 11 ≤ time
    · rw [movedResumePosition_of_le hlate, (movedResumeRun_of_le hlate).2]
      exact Step.pause _
    · have htime : time < 11 := not_le.mp hlate
      have hcases : hart = 0 ∨ hart = 1 := by
        have htwo : hart < 2 := hhart
        omega
      rcases hcases with rfl | rfl
      · interval_cases time
        · exact Step.halt
        · exact Step.signalHalted (by decide +kernel) (by decide +kernel)
        · exact Step.pause _
        · exact Step.pause _
        · exact Step.seeGo (by decide +kernel) (by decide +kernel)
        · exact Step.signalGoing (by decide +kernel)
        · exact Step.fetchWhereTo (by decide +kernel) (by decide +kernel)
        · exact Step.ebreak
        · exact Step.signalHalted (by decide +kernel) (by decide +kernel)
        · exact Step.pause _
        · exact Step.pause _
      · interval_cases time
        · exact Step.halt
        · exact Step.pause _
        · exact Step.signalHalted (by decide +kernel) (by decide +kernel)
        · exact Step.pause _
        · exact Step.pause _
        · exact Step.pause _
        · exact Step.pause _
        · exact Step.pause _
        · exact Step.pause _
        · exact Step.seeNoGo (by decide +kernel) (by decide +kernel)
        · exact Step.seeResume (by decide +kernel) (by decide +kernel)

/-- The rules of the host in a single cycle. -/
def KeepsResumeRules (s : Regs cfg) (i : Inputs cfg) (s' : Regs cfg) : Prop :=
  (s.csrs.dmcontrol.dmactive = true → s'.csrs.dmcontrol.dmactive = true) ∧
    s.csrs.dmcontrol.ndmreset = false ∧
    (requestsResume s i (hartOf cfg (Dmcontrol.ofBits i.dmiReq.data)) = true →
      s.mem.halted.getLsbD (hartOf cfg (Dmcontrol.ofBits i.dmiReq.data)) = true) ∧
    ((ctrl s i).cmdbusy = true → movesSelection s i = false)

instance (s : Regs cfg) (i : Inputs cfg) (s' : Regs cfg) : Decidable (KeepsResumeRules s i s') :=
  inferInstanceAs (Decidable (_ ∧ _))

/-- A host whose requests are far enough apart and whose cycles keep the rules. -/
theorem resumeHost_of_cycles {inputs : ℕ → Inputs cfg} (requests : List ℕ)
    (hrequests : ∀ time, (inputs time).dmiReqValid = true → time ∈ requests)
    (hspaced : ∀ asked ∈ requests, ∀ later ∈ requests, asked < later → asked + 1 < later)
    (htaken : ∀ asked ∈ requests, (inputs (asked + 1)).dmiRespReady = true ∧
      (run inputs (asked + 1)).csrs.dmiRespValid = true)
    (hcycles : ∀ time, KeepsResumeRules (run inputs time) (inputs time) (run inputs (time + 1))) :
    ResumeHost inputs where
  one_outstanding := by
    intro asked later hlater haccepts hrequest
    have hasked := hrequests asked (Bool.and_eq_true_iff.mp haccepts).1
    have hspace : asked + 1 < later := hspaced asked hasked later (hrequests later hrequest) hlater
    exact ⟨asked + 1, Nat.lt_succ_self asked, hspace, (htaken asked hasked).1,
      (htaken asked hasked).2⟩
  stays_active := fun time ↦ (hcycles time).1
  not_reset := fun time ↦ (hcycles time).2.1
  asks_halted := by
    intro time hart _ hrequest
    have hhart : hartOf cfg (Dmcontrol.ofBits (inputs time).dmiReq.data) = hart :=
      beq_iff_eq.mp (Bool.and_eq_true_iff.mp hrequest).2
    subst hhart
    exact (hcycles time).2.2.1 hrequest
  keeps_selection := fun time _ ↦ (hcycles time).2.2.2

theorem movedResumeRun_host : ResumeHost movedResumeRun := by
  refine resumeHost_of_cycles [0, 2, 4, 9] (fun time hrequest ↦ ?_) (by decide)
    (by decide +kernel) ?_
  · by_cases hlate : 11 ≤ time
    · rw [(movedResumeRun_of_le hlate).1] at hrequest
      exact absurd hrequest (by decide)
    · have hearly : ∀ early < 11, (movedResumeRun early).dmiReqValid = true →
          early ∈ [0, 2, 4, 9] := by decide +kernel
      exact hearly time (not_le.mp hlate) hrequest
  · exact forall_of_early KeepsResumeRules (show _ ≤ 12 by decide)
      (by decide +kernel) (by decide +kernel)

/-- Hart 1 resumes without a request. -/
theorem movedResumeRun_resumes :
    ResumeHost movedResumeRun ∧ ¬ ResumesAtMostOnce movedResumeHarts := by
  refine ⟨movedResumeRun_host, fun hbound ↦ ?_⟩
  have htakes : TakesResume movedResumeHarts 1 10 := ⟨rfl, rfl⟩
  have hcount : 1 ≤ Nat.count (TakesResume movedResumeHarts 1) 11 := by
    rw [Nat.count_succ, if_pos htakes]
    exact Nat.le_add_left _ _
  have hnone : Nat.count (AsksResume movedResumeRun 1) 11 = 0 :=
    Nat.count_of_forall_not (by decide +kernel)
  have hle := hbound 1 (by decide) 11
  omega

/-- Hart 0 halts, is asked to resume, and resumes. -/
def resumedRun : ℕ → Inputs oneHart :=
  script
    [(Inputs.quiet oneHart).withRequest ⟨0x10, dtmWrite, 0x00000001⟩,
      (Inputs.quiet oneHart).withHartWrite DmMem.haltedAddr 0,
      (Inputs.quiet oneHart).withRequest ⟨0x10, dtmWrite, 0x40000001⟩,
      (Inputs.quiet oneHart).withHartRead 0x400,
      (Inputs.quiet oneHart).withHartRead 0x400,
      (Inputs.quiet oneHart).withHartWrite DmMem.resumingAddr 0]

theorem resumedRun_of_le {time : ℕ} (hlate : 6 ≤ time) :
    resumedRun time = Inputs.quiet oneHart := by
  unfold resumedRun script
  rw [List.getD_eq_default _ _ (by simpa using hlate)]

/-- The hart of the run. -/
def resumedHarts : ParkedHarts resumedRun where
  position := fun time _ ↦
    [.running, .entry, .pollGo, .pollGo, .pollResume, .resuming].getD time .running
  driver := fun time ↦ if time ∈ [1, 3, 4, 5] then some 0 else none
  running_initially := fun _ ↦ rfl
  driver_lt := by
    intro time hart hdriver
    split_ifs at hdriver
    rw [← Option.some_inj.mp hdriver]
    decide
  silent := by
    intro time hdriver
    by_cases hlate : 6 ≤ time
    · rw [resumedRun_of_le hlate]
      rfl
    · have hearly : ∀ early < 6, (if early ∈ [1, 3, 4, 5] then some 0 else none) = none →
          (resumedRun early).slave.req = false := by decide +kernel
      exact hearly time (not_le.mp hlate) hdriver
  step := by
    intro time hart hhart
    obtain rfl : hart = 0 := Nat.lt_one_iff.mp hhart
    by_cases hlate : 6 ≤ time
    · have hdriver : ¬ time ∈ [1, 3, 4, 5] := by simp; omega
      rw [if_neg hdriver, List.getD_eq_default _ _ (by simp; omega),
        List.getD_eq_default _ _ (by simp; omega)]
      exact Step.pause _
    · have htime : time < 6 := not_le.mp hlate
      interval_cases time
      · exact Step.halt
      · exact Step.signalHalted (by decide +kernel) (by decide +kernel)
      · exact Step.pause _
      · exact Step.seeNoGo (by decide +kernel) (by decide +kernel)
      · exact Step.seeResume (by decide +kernel) (by decide +kernel)
      · exact Step.signalResuming (by decide +kernel) (by decide +kernel)

theorem resumedRun_host : ResumeHost resumedRun := by
  refine resumeHost_of_cycles [0, 2] (fun time hrequest ↦ ?_) (by decide) (by decide +kernel) ?_
  · by_cases hlate : 6 ≤ time
    · rw [resumedRun_of_le hlate] at hrequest
      exact absurd hrequest (by decide)
    · have hearly : ∀ early < 6, (resumedRun early).dmiReqValid = true → early ∈ [0, 2] := by
        decide +kernel
      exact hearly time (not_le.mp hlate) hrequest
  · exact forall_of_early KeepsResumeRules (show _ ≤ 8 by decide) (by decide +kernel)
      (by decide +kernel)

/-- The hart of the run resumes, and no more often than it is asked to. -/
theorem resumedRun_resumesOnce :
    TakesResume resumedHarts 0 4 ∧ ResumesAtMostOnce resumedHarts := by
  refine ⟨⟨rfl, rfl⟩, resumesAtMostOnce_of_settled (by decide) resumedRun_host ?_ resumedHarts⟩
  have hcycles := forall_of_early
    (fun s i _ ↦ s.csrs.dmcontrol.dmactive = true → s.mem.state = .idle →
      resumeTaken s = true → movesSelection s i = false)
    (show _ ≤ 8 by decide) (show run resumedRun 9 = run resumedRun 8 by decide +kernel)
    (by decide +kernel)
  exact hcycles

end RiscvDebug.DmTop
