import RiscvDebug.RunControl.CommandExecution
import RiscvDebug.RunControl.StatusHistory

/-!
# Resume requests are carried out

A request to resume a halted hart, from the write of `dmcontrol` to its acknowledgement. Under the
rules of the host and with harts that follow the park loop, the hart control offers Resume to the
hart two cycles after the write, offers nothing to the other harts, and goes back to Idle once the
hart has written Resuming, which it does when it does not stand still for ever. The condition is
that the request is fresh (`freshAck`): one that finds an old acknowledgement of its hart is dropped
(`resumeOutcome`).
-/

set_option autoImplicit false
set_option relaxedAutoImplicit false

namespace RiscvDebug.Hart

open DmMem

variable {cfg : Config} {hart : ℕ} {flag : BitVec 8} {access : Option (SlaveAccess cfg)}
  {before after : Position}

/-- How far a hart that Resume is offered to is from writing Resuming. -/
def Position.resumeRank : Position → ℕ
  | .entry => 4
  | .pollGo => 3
  | .pollResume => 2
  | .resuming => 1
  | _ => 0

/-- Each move of a hart that Resume is offered to brings it nearer to writing Resuming. -/
theorem Step.resumeRank_lt (hstep : Step hart flag access before after)
    (hserves : FlagServes hart flag access false true) (hbefore : before.awaitsResume = true)
    (hmoves : after ≠ before) : after.resumeRank < before.resumeRank := by
  cases hstep with
  | pause | fetch => exact absurd rfl hmoves
  | seeGo hreads hflag =>
    rw [(hserves _ rfl hreads).1] at hflag
    exact absurd hflag Bool.false_ne_true
  | seeNoResume hreads hflag =>
    rw [(hserves _ rfl hreads).2] at hflag
    exact absurd hflag.symm Bool.false_ne_true
  | _ => first | exact absurd hbefore Bool.false_ne_true | decide

end RiscvDebug.Hart

namespace RiscvDebug.DmTop

open Foundations Hart

variable {cfg : Config}

/-! ### Phases -/

/-- A cycle in which the hart control offers Resume to the selected hart. -/
structure ResumeCycle (inputs : ℕ → Inputs cfg) (hart time : ℕ) : Prop where
  state_eq : (run inputs time).mem.state = .resume
  selected_eq : (run inputs time).selected = hart
  active : (run inputs time).csrs.dmcontrol.dmactive = true
  unanswered : (run inputs time).mem.resuming.getLsbD hart = false

/-- Resume is offered to the hart, and nothing to another one; nobody writes Resuming. -/
structure OffersResume (inputs : ℕ → Inputs cfg) (hart time : ℕ) : Prop where
  cycle : ResumeCycle inputs hart time
  others : ∀ other < cfg.nrHarts, other ≠ hart →
    (inputs time).slave.readsByte (DmMem.flagAddress other) = true →
      ((run inputs (time + 1)).mem.readByte (DmMem.flagAddress other)).getLsbD 0 = false ∧
        ((run inputs (time + 1)).mem.readByte (DmMem.flagAddress other)).getLsbD 1 = false
  silent : (inputs time).slave.writes DmMem.resumingAddr = false

/-- The hart writes Resuming and leaves debug mode, `dmstatus` shows the acknowledgement in the next
cycle, and the hart control goes back to Idle with no request pending. -/
structure Resumes {inputs : ℕ → Inputs cfg} (harts : ParkedHarts inputs) (hart time : ℕ) :
    Prop where
  cycle : ResumeCycle inputs hart time
  writes : (inputs time).hartWrites DmMem.resumingAddr hart = true
  leaves : harts.position time hart = .resuming ∧ harts.position (time + 1) hart = .running
  acknowledged : (statusOf inputs (time + 1)).allresumeack = true ∧
    (statusOf inputs (time + 1)).allhalted = false
  settled : (run inputs (time + 2)).mem.state = .idle ∧
    (run inputs (time + 2)).csrs.dmcontrol.resumereq = false

/-- The request is dropped: it is not pending any more, and the hart is still halted. -/
structure DropsResume (inputs : ℕ → Inputs cfg) (hart time : ℕ) : Prop where
  idle : (run inputs time).mem.state = .idle
  forgotten : (run inputs time).csrs.dmcontrol.resumereq = false
  halted : (run inputs time).mem.halted.getLsbD hart = true

section Resumption

variable {inputs : ℕ → Inputs cfg} {harts : ParkedHarts inputs} {hart time : ℕ}

/-! ### One cycle -/

/-- A hart that writes Resuming has been offered to. -/
theorem resuming_by_selected (hfit : HartsFit harts time)
    (hwrites : (inputs time).slave.writes DmMem.resumingAddr = true) :
    (run inputs time).mem.state = .resume ∧
      (inputs time).hartWrites DmMem.resumingAddr (run inputs time).selected = true := by
  obtain ⟨writer, hwriter, -, hstep⟩ := harts.driver_of_writes hwrites
  obtain ⟨hbefore, -, hindex⟩ := hstep.resuming_of_writes hwrites
  have hselected : writer = (run inputs time).selected := by
    by_contra hother
    have hparked := hfit.others writer hwriter hother
    rw [hbefore] at hparked
    exact absurd hparked (by decide)
  refine ⟨?_, by rw [Inputs.hartWrites, hwrites, hindex, hselected, beq_self_eq_true]; rfl⟩
  rw [hselected] at hbefore hwriter
  have hfits := hfit.selected hwriter
  rw [hbefore] at hfits
  cases hstate : (run inputs time).mem.state with
  | resume => rfl
  | idle => exact absurd ((selectedFits_idle hstate).mp hfits) (by decide)
  | go => exact absurd ((selectedFits_go hstate).mp hfits) (by decide)
  | cmdExecuting => exact absurd ((selectedFits_cmdExecuting hstate).mp hfits) (by decide)

variable (hcount : cfg.nrHarts ≤ 1024)
  (hselectable : cfg.selectableHarts = BitVec.allOnes cfg.nrHarts) (hhost : HostConforms inputs)
include hcount hselectable hhost

/-- The offer goes on, or the hart takes it. -/
theorem offers_or_resumes (hfit : HartsFit harts time) (hcycle : ResumeCycle inputs hart time) :
    OffersResume inputs hart time ∧ ResumeCycle inputs hart (time + 1) ∨
      Resumes harts hart time := by
  obtain ⟨hstate, hselected, hactive, hclear⟩ := hcycle
  have hbusy : (run inputs time).mem.state ≠ .idle := by
    rw [hstate]
    decide
  have hhart : hart < cfg.nrHarts := hselected ▸ hfit.serves hbusy
  obtain ⟨hselected', -, hactive'⟩ := kept_succ hhost hbusy hactive
  have hresumes := state_next_of_resume (inputs time) hstate
  rw [← run_succ, hhost.ndmreset_eq time, hselected, hclear] at hresumes
  have hresuming := resuming_next (run inputs time) (inputs time) hhart
  rw [← run_succ, hselectable, hhost.ndmreset_eq time, hclear] at hresuming
  have hnext : (run inputs (time + 1)).mem.resuming.getLsbD hart =
      (inputs time).hartWrites DmMem.resumingAddr hart := by
    simpa [hhart] using hresuming
  cases hwrites : (inputs time).slave.writes DmMem.resumingAddr with
  | false =>
    left
    have hnotHart : (inputs time).hartWrites DmMem.resumingAddr hart = false := by
      rw [Inputs.hartWrites, hwrites, Bool.false_and]
    refine ⟨⟨⟨hstate, hselected, hactive, hclear⟩, ?_, hwrites⟩,
      ⟨hresumes, hselected'.trans hselected, hactive', hnext.trans hnotHart⟩⟩
    intro other hother hne hreads
    have hserves := flagServes hcount (hhost.ndmreset_eq time) (i := inputs time) hother
      (some other) (inputs time).slave (if_pos rfl) hreads
    rwa [hselected, beq_false_of_ne hne] at hserves
  | true =>
    right
    obtain ⟨-, hwritesHart⟩ := resuming_by_selected hfit hwrites
    rw [hselected] at hwritesHart
    have hacked := hnext.trans hwritesHart
    have hselects : (run inputs (time + 1)).csrs.selectedHart = hart :=
      hselected'.trans hselected
    have hrunning : (run inputs (time + 1)).mem.halted.getLsbD hart = false := by
      have hnotHalted : (inputs time).hartWrites DmMem.haltedAddr hart = false := by
        by_contra hhalts
        rw [Bool.not_eq_false] at hhalts
        have hentry := (harts.entry_of_writes hhalts).2.1
        rw [(harts.resuming_of_writes hwritesHart).1] at hentry
        exact absurd hentry (by decide)
      rw [run_succ, halted_next _ _ hhart, hwritesHart, hnotHalted]
      simp
    have hnoWrite : writes (run inputs (time + 1)) (inputs (time + 1)) .dmControl = false := by
      by_contra hwrites'
      rw [Bool.not_eq_false] at hwrites'
      have hbusy' := (hhost.dmcontrol_idle (time + 1) hwrites').1
      rw [cmdbusy_eq, hresumes] at hbusy'
      exact absurd hbusy' (by decide)
    refine ⟨⟨hstate, hselected, hactive, hclear⟩, hwritesHart,
      harts.resuming_of_writes hwritesHart, ⟨?_, ?_⟩, ?_, ?_⟩
    · rw [statusOf, DmCsrs.dmstatus]
      simp [hselects, csrInputs, hacked]
    · rw [statusOf, DmCsrs.dmstatus]
      simp [hselects, csrInputs, hrunning]
    · have hidle := state_next_of_resume (inputs (time + 1)) hresumes
      rw [← run_succ, hhost.ndmreset_eq (time + 1), hselected', hselected, hacked] at hidle
      exact hidle
    · have hsome : ((run inputs (time + 1)).mem.resuming != 0) = true := by
        rw [bne_iff_ne]
        intro hzero
        rw [hzero] at hacked
        simp at hacked
      rw [run_succ, resumereq_next, writtenDmcontrol_of_not_writes hnoWrite, hsome, Bool.and_true]
      cases (run inputs (time + 1)).csrs.dmcontrol.resumereq <;> simp

omit hselectable in
/-- Each move of a hart that Resume is offered to brings it nearer to taking it. -/
theorem resumeRank_succ (hfit : HartsFit harts time) (hcycle : ResumeCycle inputs hart time)
    (hmoves : harts.position (time + 1) hart ≠ harts.position time hart) :
    (harts.position (time + 1) hart).resumeRank < (harts.position time hart).resumeRank := by
  obtain ⟨hstate, rfl, -, hclear⟩ := hcycle
  have hhart := hfit.serves (by rw [hstate]; decide)
  have hfits := (selectedFits_resume hstate).mp (hfit.selected hhart)
  rw [hclear, if_neg Bool.false_ne_true] at hfits
  exact (harts.step time _ hhart).resumeRank_lt
    (selected_serves hcount hhost harts hhart hstate) hfits hmoves

/-! ### From the request -/

omit hcount hselectable hhost in
/-- In Idle no hart writes Resuming. -/
theorem not_resumes_in_idle (hfit : HartsFit harts time)
    (hidle : (run inputs time).mem.state = .idle) (hart : ℕ) :
    (inputs time).hartWrites DmMem.resumingAddr hart = false := by
  by_contra hwrites
  rw [Bool.not_eq_false] at hwrites
  have hresume := (resuming_by_selected hfit (Bool.and_eq_true_iff.mp hwrites).1).1
  rw [hidle] at hresume
  exact absurd hresume (by decide)

/-- The cycle after a request to a halted hart: the hart control is Idle still, the request is
pending, and the acknowledgement is clear exactly when the request is fresh. -/
structure Pends (inputs : ℕ → Inputs cfg) (hart : ℕ) (fresh : Bool) (time : ℕ) : Prop where
  idle : (run inputs time).mem.state = .idle
  selected : (run inputs time).selected = hart
  active : (run inputs time).csrs.dmcontrol.dmactive = true
  pending : (run inputs time).csrs.dmcontrol.resumereq = true ∧
    (run inputs time).csrs.dmcontrol.haltreq = false
  halted : (run inputs time).mem.halted.getLsbD hart = true
  acknowledgement : (run inputs time).mem.resuming.getLsbD hart = !fresh
  quiet : (run inputs time).csrs.cmdValid = false ∧
    writes (run inputs time) (inputs time) .dmControl = false

omit hcount in
theorem pends_of_asks (hfit : HartsFit harts time)
    (hactive : (run inputs time).csrs.dmcontrol.dmactive = true)
    (hasks : asksHalted (run inputs time) (inputs time) hart = true) :
    (run inputs time).mem.state = .idle ∧
      Pends inputs hart (freshAck (run inputs time) (inputs time) hart) (time + 1) := by
  obtain ⟨hrequest, hhalted⟩ := Bool.and_eq_true_iff.mp hasks
  have hhart := lt_nrHarts_of_getLsbD hhalted
  have hfields := hrequest
  simp only [asksResume, Bool.and_eq_true, Bool.not_eq_true', beq_iff_eq] at hfields
  obtain ⟨⟨⟨hwrites, hresumereq⟩, hhaltreq⟩, hselects⟩ := hfields
  obtain ⟨hbusy, hpending⟩ := hhost.dmcontrol_idle time hwrites
  rw [cmdbusy_eq, bne_eq_false_iff_eq] at hbusy
  have hpulse : (run inputs time).csrs.cmdValid = false := by
    by_contra hpulse
    have hquiet := hhost.no_request_of_pulse (by simpa using hpulse)
    rw [request_of_writes hwrites] at hquiet
    exact absurd hquiet.symm Bool.false_ne_true
  have htriggers : triggers (run inputs time) (inputs time) = false := by
    by_contra htriggers
    rw [not_writes_of_triggers (by simpa using htriggers)] at hwrites
    exact Bool.false_ne_true hwrites
  have haccepts : accepts (run inputs time) (inputs time) = true :=
    (Bool.and_eq_true_iff.mp (Bool.and_eq_true_iff.mp hwrites).1).1
  refine ⟨hbusy, ⟨?_, ?_, hhost.active_succ hactive, ⟨?_, ?_⟩, ?_, ?_, ?_, ?_⟩⟩
  · rw [run_succ, state_next_of_idle _ hbusy, hhost.ndmreset_eq time, resumeTaken, commandTaken,
      hpending, hpulse]
    rfl
  · rw [run_succ, selected_next, if_pos hactive, writtenDmcontrol_of_writes hwrites, hselects]
  · rw [run_succ, resumereq_next, hactive, hpending, writtenDmcontrol_of_writes hwrites, hresumereq]
    rfl
  · rw [run_succ, haltreq_next, hactive, writtenDmcontrol_of_writes hwrites, hhaltreq]
    rfl
  · rw [run_succ, halted_next _ _ hhart, hhalted, hhost.ndmreset_eq time, hselectable,
      not_resumes_in_idle hfit hbusy hart]
    simp [hhart]
  · rw [run_succ]
    exact resuming_next_of_asksHalted (runControlValid_run inputs time) hasks
  · rw [run_succ, cmdValid_next, htriggers, Bool.and_false]
  · by_contra hwrites'
    have hquiet := hhost.no_request_after haccepts
    rw [request_of_writes (by simpa using hwrites')] at hquiet
    exact absurd hquiet.symm Bool.false_ne_true

omit hcount hselectable in
/-- A fresh request is offered to the hart in the next cycle. -/
theorem Pends.resumeCycle (hfit : HartsFit harts time) (hpends : Pends inputs hart true time) :
    ResumeCycle inputs hart (time + 1) := by
  have hhart := lt_nrHarts_of_getLsbD hpends.halted
  have hclear : (run inputs time).mem.resuming.getLsbD hart = false := hpends.acknowledgement
  have htaken : resumeTaken (run inputs time) = true := by
    rw [resumeTaken, hpends.pending.1, hpends.pending.2, hpends.selected, hpends.halted, hclear]
    rfl
  refine ⟨?_, ?_, hhost.active_succ hpends.active, ?_⟩
  · rw [run_succ, state_next_of_idle _ hpends.idle, hhost.ndmreset_eq time, htaken]
    rfl
  · rw [run_succ, selected_next_eq, selectedAfter_of_not_writes (runControlValid_run inputs _)
      hpends.active hpends.quiet.2, hpends.selected]
  · rw [run_succ, resuming_next _ _ hhart, hclear,
      not_resumes_in_idle hfit hpends.idle hart]
    simp

omit hcount in
/-- A request that is not fresh is dropped. -/
theorem Pends.drops (hfit : HartsFit harts time) (hpends : Pends inputs hart false time) :
    DropsResume inputs hart (time + 1) := by
  have hhart := lt_nrHarts_of_getLsbD hpends.halted
  have hacked : (run inputs time).mem.resuming.getLsbD hart = true := hpends.acknowledgement
  have htaken : resumeTaken (run inputs time) = false := by
    rw [resumeTaken, hpends.selected, hacked]
    simp
  refine ⟨?_, ?_, ?_⟩
  · rw [run_succ, state_next_of_idle _ hpends.idle, hhost.ndmreset_eq time, htaken, commandTaken,
      hpends.quiet.1]
    rfl
  · have hsome : ((run inputs time).mem.resuming != 0) = true := by
      rw [bne_iff_ne]
      intro hzero
      rw [hzero] at hacked
      simp at hacked
    rw [run_succ, resumereq_next, hpends.pending.1, hsome]
    simp
  · rw [run_succ, halted_next _ _ hhart, hpends.halted, hhost.ndmreset_eq time, hselectable,
      not_resumes_in_idle hfit hpends.idle hart]
    simp [hhart]

end Resumption

/-! ### The outcome of a request -/

/-- What becomes of a request to resume a halted hart: for two cycles the hart control is Idle. A
fresh request is then offered to the hart until it resumes, which it does if it makes progress, and
another one is dropped. -/
structure ResumeOutcome {inputs : ℕ → Inputs cfg} (harts : ParkedHarts inputs) (hart asked : ℕ) :
    Prop where
  idle : (run inputs asked).mem.state = .idle ∧ (run inputs (asked + 1)).mem.state = .idle
  offered : freshAck (run inputs asked) (inputs asked) hart = true →
    Unless (OffersResume inputs hart) (Resumes harts hart) (asked + 2)
  resumed : freshAck (run inputs asked) (inputs asked) hart = true → Progresses harts hart →
    Until (OffersResume inputs hart) (Resumes harts hart) (asked + 2)
  dropped : freshAck (run inputs asked) (inputs asked) hart = false →
    DropsResume inputs hart (asked + 2)

/-- A request to resume a halted hart is carried out when it is fresh, and dropped otherwise. -/
theorem resumeOutcome (hcount : cfg.nrHarts ≤ 1024)
    (hselectable : cfg.selectableHarts = BitVec.allOnes cfg.nrHarts) {inputs : ℕ → Inputs cfg}
    (hhost : HostConforms inputs) (harts : ParkedHarts inputs) {hart asked : ℕ}
    (hactive : (run inputs asked).csrs.dmcontrol.dmactive = true)
    (hasks : asksHalted (run inputs asked) (inputs asked) hart = true) :
    ResumeOutcome harts hart asked := by
  have hfit := hartsFit_run hcount hselectable hhost harts
  obtain ⟨hidle, hpends⟩ := pends_of_asks hselectable hhost (hfit asked) hactive hasks
  have hcycle (hfresh : freshAck (run inputs asked) (inputs asked) hart = true) :
      ResumeCycle inputs hart (asked + 2) := by
    rw [hfresh] at hpends
    exact hpends.resumeCycle hhost (hfit (asked + 1))
  refine ⟨⟨hidle, hpends.idle⟩, fun hfresh ↦ ?_, fun hfresh hprogress ↦ ?_, fun hstale ↦ ?_⟩
  · exact unless_of_step (hcycle hfresh) fun time _ hhere ↦
      offers_or_resumes hcount hselectable hhost (hfit time) hhere
  · refine until_of_rank (fun time ↦ (harts.position time hart).resumeRank) (hcycle hfresh) ?_ ?_
    · intro time _ hhere
      rcases offers_or_resumes hcount hselectable hhost (hfit time) hhere with
        ⟨hoffers, hnext⟩ | hends
      · exact Or.inl ⟨hoffers, hnext,
          rank_le_of_moves (resumeRank_succ hcount hhost (hfit time) hhere)⟩
      · exact Or.inr hends
    · intro time _ hhere
      obtain ⟨later, hlater, hmoves⟩ := hprogress time (by rw [hhere.state_eq]; decide)
      exact ⟨later, hlater, fun hthere ↦
        Or.inl (resumeRank_succ hcount hhost (hfit later) hthere hmoves).ne⟩
  · rw [hstale] at hpends
    exact hpends.drops hselectable hhost (hfit (asked + 1))

/-! ### A hart that resumes -/

/-- Hart 0 halts, the host asks it to resume, and the hart does so. -/
def freshResumeRun : ℕ → Inputs twoHarts :=
  script
    [(Inputs.quiet twoHarts).withRequest ⟨0x10, dtmWrite, 0x00000001⟩,
      Inputs.quiet twoHarts,
      (Inputs.quiet twoHarts).withHartWrite DmMem.haltedAddr 0,
      (Inputs.quiet twoHarts).withRequest ⟨0x10, dtmWrite, 0x40000001⟩,
      Inputs.quiet twoHarts,
      (Inputs.quiet twoHarts).withHartRead 0x400,
      (Inputs.quiet twoHarts).withHartRead 0x400,
      (Inputs.quiet twoHarts).withHartWrite DmMem.resumingAddr 0]

theorem freshResumeRun_of_le {time : ℕ} (hlate : 8 ≤ time) :
    freshResumeRun time = Inputs.quiet twoHarts := by
  unfold freshResumeRun script
  rw [List.getD_eq_default _ _ (by simpa using hlate)]

theorem freshResumeRun_requests {time : ℕ} (hrequest : (freshResumeRun time).dmiReqValid = true) :
    time = 0 ∨ time = 3 := by
  by_cases hlate : 8 ≤ time
  · rw [freshResumeRun_of_le hlate] at hrequest
    exact absurd hrequest (by decide)
  · have hearly : ∀ early < 8, (freshResumeRun early).dmiReqValid = true →
        early = 0 ∨ early = 3 := by
      decide +kernel
    exact hearly time (not_le.mp hlate) hrequest

/-- The positions of hart 0 in the run, which halts again in the end; hart 1 stays in its
program. -/
def freshResumePosition (time hart : ℕ) : Position :=
  if hart = 0 then
    [.running, .running, .entry, .pollGo, .pollGo, .pollGo, .pollResume, .resuming, .running,
      .running].getD time .entry
  else .running

/-- The hart that has the bus in each cycle. -/
def freshResumeDriver (time : ℕ) : Option ℕ := if time ∈ [2, 5, 6, 7] then some 0 else none

theorem freshResumePosition_zero (hart : ℕ) : freshResumePosition 0 hart = .running := by
  unfold freshResumePosition
  split_ifs <;> rfl

theorem freshResumeDriver_lt (time hart : ℕ) (hdriver : freshResumeDriver time = some hart) :
    hart < twoHarts.nrHarts := by
  unfold freshResumeDriver at hdriver
  split_ifs at hdriver
  rw [← Option.some_inj.mp hdriver]
  decide

theorem freshResumeRun_silent (time : ℕ) (hdriver : freshResumeDriver time = none) :
    (freshResumeRun time).slave.req = false := by
  by_cases hlate : 8 ≤ time
  · rw [freshResumeRun_of_le hlate]
    rfl
  · have hearly : ∀ early < 8, freshResumeDriver early = none →
        (freshResumeRun early).slave.req = false := by decide +kernel
    exact hearly time (not_le.mp hlate) hdriver

theorem freshResumeRun_step (time hart : ℕ) (_ : hart < twoHarts.nrHarts) :
    Step hart ((run freshResumeRun (time + 1)).mem.readByte (DmMem.flagAddress hart))
      (accessOf (freshResumeDriver time) (freshResumeRun time).slave hart)
      (freshResumePosition time hart) (freshResumePosition (time + 1) hart) := by
  unfold freshResumeDriver
  by_cases hfirst : hart = 0
  · subst hfirst
    by_cases hlate : 10 ≤ time
    · have hdriver : ¬ time ∈ [2, 5, 6, 7] := by simp; omega
      have hparked (later : ℕ) (hle : 10 ≤ later) : freshResumePosition later 0 = .entry := by
        rw [freshResumePosition, if_pos rfl, List.getD_eq_default _ _ (by simpa using hle)]
      rw [if_neg hdriver, hparked time hlate, hparked (time + 1) (by omega)]
      exact Step.pause _
    · interval_cases time
      · exact Step.pause _
      · exact Step.halt
      · exact Step.signalHalted (by decide +kernel) (by decide +kernel)
      · exact Step.pause _
      · exact Step.pause _
      · exact Step.seeNoGo (by decide +kernel) (by decide +kernel)
      · exact Step.seeResume (by decide +kernel) (by decide +kernel)
      · exact Step.signalResuming (by decide +kernel) (by decide +kernel)
      · exact Step.pause _
      · exact Step.halt
  · have hother : (if time ∈ [2, 5, 6, 7] then some 0 else none) ≠ some hart := by
      split_ifs
      · exact fun hsame ↦ hfirst (Option.some_inj.mp hsame).symm
      · exact Option.some_ne_none hart |>.symm
    rw [accessOf, if_neg hother, freshResumePosition, freshResumePosition, if_neg hfirst,
      if_neg hfirst]
    exact Step.pause _

/-- The harts of the run. -/
def freshResumeHarts : ParkedHarts freshResumeRun where
  position := freshResumePosition
  driver := freshResumeDriver
  running_initially := freshResumePosition_zero
  driver_lt := freshResumeDriver_lt
  silent := freshResumeRun_silent
  step := freshResumeRun_step

theorem freshResumeRun_hostConforms : HostConforms freshResumeRun where
  one_outstanding := by
    intro asked later hlater haccepts hrequest
    obtain rfl : asked = 0 := by
      have hasked := freshResumeRun_requests (Bool.and_eq_true_iff.mp haccepts).1
      have hlater := freshResumeRun_requests hrequest
      omega
    obtain rfl : later = 3 := (freshResumeRun_requests hrequest).resolve_left hlater.ne'
    exact ⟨1, by omega, by omega, by decide +kernel, by decide +kernel⟩
  stays_active := by
    intro time hwrites
    rcases freshResumeRun_requests (request_of_writes hwrites) with rfl | rfl <;> decide +kernel
  dmcontrol_idle := by
    intro time hwrites
    rcases freshResumeRun_requests (request_of_writes hwrites) with rfl | rfl <;> decide +kernel
  no_pending := by
    intro time htrigger
    rcases freshResumeRun_requests (request_of_takesTrigger htrigger) with rfl | rfl <;>
      decide +kernel

theorem freshResumeRun_progresses : Progresses freshResumeHarts 0 := by
  intro time hbusy
  have hlast : time ≤ 9 := by
    by_contra hlate
    have hsettled : run freshResumeRun 13 = run freshResumeRun 12 := by decide +kernel
    have hidle : (run freshResumeRun time).mem.state = .idle := by
      by_cases hsettles : 12 ≤ time
      · rw [freshResumeRun, run_script_of_le (by decide) hsettled hsettles]
        decide +kernel
      · have hends : ∀ early < 12, 9 < early → (run freshResumeRun early).mem.state = .idle := by
          decide +kernel
        exact hends time (not_le.mp hsettles) (not_le.mp hlate)
    exact hbusy hidle
  exact ⟨9, hlast, by decide⟩

/-- The hart resumes. -/
theorem freshResumeRun_resumes :
    Until (OffersResume freshResumeRun 0) (Resumes freshResumeHarts 0) 5 :=
  (resumeOutcome (by decide) (by decide) freshResumeRun_hostConforms freshResumeHarts
    (show (run freshResumeRun 3).csrs.dmcontrol.dmactive = true by decide +kernel)
    (show asksHalted (run freshResumeRun 3) (freshResumeRun 3) 0 = true by decide +kernel)).resumed
      (by decide +kernel) freshResumeRun_progresses

end RiscvDebug.DmTop
