import RiscvDebug.RunControl.FlagBytes

/-!
# Resume requests and their acknowledgements

A resume request is a level in `dmcontrol`, served when the selected hart is halted and cleared by
the acknowledgement of any hart. The acknowledgement of a hart is cleared by a pulse that
`dm_csrs` derives from a rising request, for the hart selected before the write.

Both designs leave gaps. The pulse misses a request that selects its hart in the same write, and a
request that follows an unserved one; `noFalseAck_of_fresh` holds for the requests it does not
miss, and `falseAck_of_stale` shows that each other one is acknowledged at once. The level serves a
hart that halts after the request, and a hart without a flag byte of its own reads the ROM in its
place; `onlyAsked_of_guarded` names the steps that must not occur for the offers to go only to harts
that were halted when they were asked.
-/

set_option autoImplicit false
set_option relaxedAutoImplicit false

namespace RiscvDebug.DmTop

open Foundations

variable {cfg : Config}

/-! ### Requests -/

/-- An accepted write of `dmcontrol` asks a hart to resume. -/
def asksResume (s : Regs cfg) (i : Inputs cfg) (hart : ℕ) : Bool :=
  writes s i .dmControl && (Dmcontrol.ofBits i.dmiReq.data).resumereq &&
    !(Dmcontrol.ofBits i.dmiReq.data).haltreq &&
    hartOf cfg (Dmcontrol.ofBits i.dmiReq.data) == hart

/-- A request to resume that finds the hart halted. -/
def asksHalted (s : Regs cfg) (i : Inputs cfg) (hart : ℕ) : Bool :=
  asksResume s i hart && s.mem.halted.getLsbD hart

/-- The hart that is selected after a cycle. -/
def selectedAfter (s : Regs cfg) (i : Inputs cfg) : ℕ :=
  if s.csrs.dmcontrol.dmactive then hartOf cfg (writtenDmcontrol s i) else 0

theorem selected_next_eq (s : Regs cfg) (i : Inputs cfg) :
    (next s i).selected = selectedAfter s i := selected_next s i

/-! ### The registers of the run control along a run -/

/-- What every reachable state satisfies: only selectable harts are halted, and the selection is
masked. -/
structure RunControlValid (s : Regs cfg) : Prop where
  halted_selectable : ∀ hart, s.mem.halted.getLsbD hart = true →
    cfg.selectableHarts.getLsbD hart = true
  hartsel_masked : s.csrs.dmcontrol.hartsel &&& cfg.hartselMask = s.csrs.dmcontrol.hartsel

theorem runControlValid_reset : RunControlValid (Regs.reset cfg) where
  halted_selectable := fun hart hhalted ↦ absurd hhalted (by simp [Regs.reset, DmMem.Regs.reset])
  hartsel_masked := by
    simp [Regs.reset, DmCsrs.Regs.reset, Dmcontrol.hartsel, Dmcontrol.reset, Dmcontrol.ofBits]

theorem runControlValid_next (s : Regs cfg) (i : Inputs cfg) : RunControlValid (next s i) where
  halted_selectable := by
    intro hart hhalted
    rw [halted_next s i (lt_nrHarts_of_getLsbD hhalted)] at hhalted
    simp only [Bool.and_eq_true] at hhalted
    exact hhalted.1.1
  hartsel_masked := by
    rw [hartsel_next]
    split_ifs
    · rw [BitVec.and_assoc, BitVec.and_self]
    · exact BitVec.zero_and

theorem runControlValid_run (inputs : ℕ → Inputs cfg) (time : ℕ) :
    RunControlValid (run inputs time) :=
  ClockedMachine.invariant_states runControlValid_reset
    (fun s i _ ↦ runControlValid_next s i) inputs time

/-- Without a write of `dmcontrol` an active module keeps its selection. -/
theorem selectedAfter_of_not_writes {s : Regs cfg} {i : Inputs cfg} (hvalid : RunControlValid s)
    (hactive : s.csrs.dmcontrol.dmactive = true) (hwrites : writes s i .dmControl = false) :
    selectedAfter s i = s.selected := by
  rw [selectedAfter, if_pos hactive, writtenDmcontrol_of_not_writes hwrites, hartOf,
    hvalid.hartsel_masked]
  rfl

/-! ### Acknowledgements -/

/-- The hart has written Resuming since every request that found it halted, and so since the last
one. -/
def AckedSince (inputs : ℕ → Inputs cfg) (hart time : ℕ) : Prop :=
  ∀ asked < time, asksHalted (run inputs asked) (inputs asked) hart = true →
    ∃ resumed, asked < resumed ∧ resumed < time ∧
      (inputs resumed).hartWrites DmMem.resumingAddr hart = true

/-- `dmstatus` shows the acknowledgement of the selected hart only when it has resumed since it was
asked. -/
def NoFalseAck (inputs : ℕ → Inputs cfg) : Prop :=
  ∀ time, (DmCsrs.dmstatus (run inputs time).csrs
      (csrInputs (run inputs time) (inputs time))).allresumeack = true →
    AckedSince inputs (run inputs time).selected time

/-- A request finds the acknowledgement of its hart clear or clears it: the harts are reset; or no
acknowledgement is set, or the hart is selected already and no request is pending, so that the
pulse is for it, and the hart does not write Resuming in the same cycle. -/
def freshAck (s : Regs cfg) (i : Inputs cfg) (hart : ℕ) : Bool :=
  s.csrs.dmcontrol.ndmreset ||
    ((!s.mem.resuming.getLsbD hart || (s.selected == hart && !s.csrs.dmcontrol.resumereq)) &&
      !i.hartWrites DmMem.resumingAddr hart)

/-- The pulse is raised by a request that finds none pending. -/
theorem clearResumeack_of_asksResume {s : Regs cfg} {i : Inputs cfg} {hart : ℕ}
    (hasks : asksResume s i hart = true) :
    (csrSignals s i).clearResumeack = !s.csrs.dmcontrol.resumereq := by
  simp only [asksResume, Bool.and_eq_true] at hasks
  obtain ⟨⟨⟨hwrites, hresumereq⟩, -⟩, -⟩ := hasks
  have hpulse : (csrSignals s i).clearResumeack =
      (!s.csrs.dmcontrol.resumereq && (writtenDmcontrol s i).resumereq) :=
    DmCsrs.clearResumeack_eq s.csrs (csrInputs s i)
  rw [hpulse, writtenDmcontrol_of_writes hwrites, hresumereq, Bool.and_true]

/-- After a request to a halted hart its acknowledgement is clear exactly when the request is
fresh. -/
theorem resuming_next_of_asksHalted {s : Regs cfg} {i : Inputs cfg} {hart : ℕ}
    (hvalid : RunControlValid s) (hasks : asksHalted s i hart = true) :
    (next s i).mem.resuming.getLsbD hart = !freshAck s i hart := by
  obtain ⟨hrequest, hhalted⟩ := Bool.and_eq_true_iff.mp hasks
  rw [resuming_next s i (lt_nrHarts_of_getLsbD hhalted), hvalid.halted_selectable hart hhalted,
    clearResumeack_of_asksResume hrequest]
  unfold freshAck
  cases s.csrs.dmcontrol.ndmreset <;> cases i.hartWrites DmMem.resumingAddr hart <;>
    cases s.mem.resuming.getLsbD hart <;> cases s.csrs.dmcontrol.resumereq <;>
    cases s.selected == hart <;> rfl

/-- Along a run whose requests are fresh, a hart whose acknowledgement is set has resumed since it
was asked. The induction is on the time. -/
theorem ackedSince_of_resuming {inputs : ℕ → Inputs cfg}
    (hfresh : ∀ time hart, asksHalted (run inputs time) (inputs time) hart = true →
      freshAck (run inputs time) (inputs time) hart = true) {hart time : ℕ}
    (hack : (run inputs time).mem.resuming.getLsbD hart = true) : AckedSince inputs hart time := by
  induction time with
  | zero => exact fun asked hasked ↦ absurd hasked (Nat.not_lt_zero asked)
  | succ time ih =>
    intro asked hasked hasks
    rcases Nat.lt_succ_iff_lt_or_eq.mp hasked with hbefore | rfl
    · rw [run_succ, resuming_next _ _ (lt_nrHarts_of_getLsbD hack)] at hack
      simp only [Bool.and_eq_true, Bool.or_eq_true] at hack
      rcases hack.2 with hwrites | ⟨hkept, -⟩
      · exact ⟨time, hbefore, Nat.lt_succ_self time, hwrites⟩
      · obtain ⟨resumed, hafter, hlt, hwrites⟩ := ih hkept asked hbefore hasks
        exact ⟨resumed, hafter, hlt.trans (Nat.lt_succ_self time), hwrites⟩
    · -- the request of the last cycle has cleared the acknowledgement
      rw [run_succ, resuming_next_of_asksHalted (runControlValid_run inputs asked) hasks,
        hfresh asked hart hasks] at hack
      exact absurd hack (by decide)

/-- In a run whose requests are fresh the acknowledgement is never false. -/
theorem noFalseAck_of_fresh (inputs : ℕ → Inputs cfg)
    (hfresh : ∀ time hart, asksHalted (run inputs time) (inputs time) hart = true →
      freshAck (run inputs time) (inputs time) hart = true) : NoFalseAck inputs :=
  fun _ hack ↦ ackedSince_of_resuming hfresh hack

/-- A request of an active module that is not fresh is acknowledged in the next cycle, before the
hart has resumed. -/
theorem falseAck_of_stale {inputs : ℕ → Inputs cfg} {time hart : ℕ}
    (hactive : (run inputs time).csrs.dmcontrol.dmactive = true)
    (hasks : asksHalted (run inputs time) (inputs time) hart = true)
    (hstale : freshAck (run inputs time) (inputs time) hart = false) : ¬ NoFalseAck inputs := by
  intro hnone
  have hselected : (run inputs (time + 1)).selected = hart := by
    obtain ⟨hrequest, -⟩ := Bool.and_eq_true_iff.mp hasks
    simp only [asksResume, Bool.and_eq_true, beq_iff_eq] at hrequest
    rw [run_succ, selected_next_eq, selectedAfter, if_pos hactive,
      writtenDmcontrol_of_writes hrequest.1.1.1, hrequest.2]
  have hack : (run inputs (time + 1)).mem.resuming.getLsbD hart = true := by
    rw [run_succ, resuming_next_of_asksHalted (runControlValid_run inputs time) hasks, hstale]
    rfl
  have hsince := hnone (time + 1) (by
    show (run inputs (time + 1)).mem.resuming.getLsbD (run inputs (time + 1)).selected = true
    rw [hselected]
    exact hack)
  rw [hselected] at hsince
  obtain ⟨resumed, hafter, hbefore, -⟩ := hsince time (Nat.lt_succ_self time) hasks
  omega

/-- Hart 1 halts and is resumed by a request; it acknowledges, halts again, and the host selects
hart 0. -/
def resumedOnce : List (Inputs twoHarts) :=
  [(Inputs.quiet twoHarts).withRequest ⟨0x10, dtmWrite, 0x00000001⟩,
    (Inputs.quiet twoHarts).withHartWrite DmMem.haltedAddr 1,
    (Inputs.quiet twoHarts).withRequest ⟨0x10, dtmWrite, 0x40010001⟩,
    Inputs.quiet twoHarts,
    (Inputs.quiet twoHarts).withHartWrite DmMem.resumingAddr 1,
    Inputs.quiet twoHarts,
    (Inputs.quiet twoHarts).withHartWrite DmMem.haltedAddr 1,
    (Inputs.quiet twoHarts).withRequest ⟨0x10, dtmWrite, 0x00000001⟩]

/-- After it the host selects hart 1 and asks it to resume in one write. -/
def staleAckRun : ℕ → Inputs twoHarts :=
  script (resumedOnce ++ [(Inputs.quiet twoHarts).withRequest ⟨0x10, dtmWrite, 0x40010001⟩])

/-- The acknowledgement of the first request answers the second one. -/
theorem staleAckRun_falseAck : ¬ NoFalseAck staleAckRun := by
  intro hnone
  have hack : (DmCsrs.dmstatus (run staleAckRun 9).csrs
      (csrInputs (run staleAckRun 9) (staleAckRun 9))).allresumeack = true := by decide +kernel
  have hselected : (run staleAckRun 9).selected = 1 := by decide +kernel
  have hasks : asksHalted (run staleAckRun 8) (staleAckRun 8) 1 = true := by decide +kernel
  have hsince := hnone 9 hack
  rw [hselected] at hsince
  obtain ⟨resumed, hafter, hbefore, -⟩ := hsince 8 (by decide) hasks
  omega

/-- Without the last write no acknowledgement of the run is false, and the first request is
acknowledged. -/
theorem resumedOnce_noFalseAck :
    (run (script resumedOnce) 5).mem.resuming.getLsbD 1 = true ∧
      NoFalseAck (script resumedOnce) := by
  refine ⟨by decide +kernel, noFalseAck_of_fresh (script resumedOnce) fun time hart hasks ↦ ?_⟩
  have hfresh : ∀ early ≤ 10, ∀ hart < 2,
      asksHalted (run (script resumedOnce) early) (script resumedOnce early) hart = true →
        freshAck (run (script resumedOnce) early) (script resumedOnce early) hart = true := by
    decide +kernel
  obtain ⟨early, hearly, hrun, -, hinputs⟩ := exists_early (show resumedOnce.length ≤ 10 by decide)
    (show run (script resumedOnce) 11 = run (script resumedOnce) 10 by decide +kernel) time
  rw [hrun, hinputs] at hasks ⊢
  have hhart : hart < twoHarts.nrHarts :=
    lt_nrHarts_of_getLsbD (Bool.and_eq_true_iff.mp hasks).2
  exact hfresh early hearly hart hhart hasks

/-! ### Offers to resume -/

/-- The hart was halted when it was asked to resume, and has not resumed since. -/
def Pending (inputs : ℕ → Inputs cfg) (hart time : ℕ) : Prop :=
  ∃ asked < time, asksHalted (run inputs asked) (inputs asked) hart = true ∧
    ∀ resumed, asked ≤ resumed → resumed < time →
      (inputs resumed).hartWrites DmMem.resumingAddr hart = false

/-- A hart reads the byte at the address of its flags. -/
def pollsFlags (i : Inputs cfg) (hart : ℕ) : Bool :=
  i.slave.loads (DmMem.flagBusAddress cfg hart)

/-- Whenever a hart is served its flag byte with the resume bit set, it was halted when it was
asked to resume, and has not resumed since. -/
def OnlyAsked (inputs : ℕ → Inputs cfg) : Prop :=
  ∀ time hart, hart < cfg.nrHarts → pollsFlags (inputs time) hart = true →
    ((run inputs (time + 1)).mem.loadedByte (DmMem.flagBusAddress cfg hart)).getLsbD 1 = true →
      Pending inputs hart time

/-- After the cycle `dmcontrol` holds a request to resume the hart and none to halt it. -/
def requestAfter (s : Regs cfg) (i : Inputs cfg) (hart : ℕ) : Bool :=
  s.csrs.dmcontrol.dmactive && (writtenDmcontrol s i).resumereq &&
    !(s.csrs.dmcontrol.resumereq && s.mem.resuming != 0) && !(writtenDmcontrol s i).haltreq &&
    selectedAfter s i == hart

/-- A hart that is not halted halts in a cycle that leaves a request for it in `dmcontrol`: the
request was written while the hart was running. -/
def haltsIntoRequest (s : Regs cfg) (i : Inputs cfg) (hart : ℕ) : Bool :=
  !s.mem.halted.getLsbD hart && i.hartWrites DmMem.haltedAddr hart && requestAfter s i hart

/-- The hart control offers a resume in the next cycle, and the selection moves to another hart in
this one, by other means than a request that finds that hart halted. -/
def redirectsResume (s : Regs cfg) (i : Inputs cfg) : Bool :=
  !s.csrs.dmcontrol.ndmreset &&
    ((s.mem.state == .idle && resumeTaken s) ||
      (s.mem.state == .resume && !s.mem.resuming.getLsbD s.selected)) &&
    selectedAfter s i != s.selected && !asksHalted s i (selectedAfter s i)

/-- A resume is offered and its flag byte is read after the selected hart has left its halt, or is
shared with a hart whose index is 4096 or more. -/
def readsStaleOffer (s : Regs cfg) (i : Inputs cfg) : Bool :=
  (ctrl s i).resume && pollsFlags i (s.selected % 4096) &&
    (!s.mem.halted.getLsbD s.selected || decide (4096 ≤ s.selected))

/-- A hart reads its flags for which the window of the flags has no byte. -/
def pollsBeyondFlags (i : Inputs cfg) : Prop :=
  ∃ hart < cfg.nrHarts, 1024 ≤ hart ∧ pollsFlags i hart = true

/-- None of the four steps occurs that offer a resume to a hart that was not asked for it. -/
structure GuardedStep (s : Regs cfg) (i : Inputs cfg) : Prop where
  halts : ∀ hart, haltsIntoRequest s i hart = false
  redirects : redirectsResume s i = false
  stale : readsStaleOffer s i = false
  polls : ¬ pollsBeyondFlags i

/-- A pending request stays pending until the hart resumes. -/
theorem pending_succ {inputs : ℕ → Inputs cfg} {hart time : ℕ} (hpending : Pending inputs hart time)
    (hwrites : (inputs time).hartWrites DmMem.resumingAddr hart = false) :
    Pending inputs hart (time + 1) := by
  obtain ⟨asked, hasked, hasks, hnot⟩ := hpending
  refine ⟨asked, hasked.trans (Nat.lt_succ_self time), hasks, fun resumed hafter hbefore ↦ ?_⟩
  rcases Nat.lt_succ_iff_lt_or_eq.mp hbefore with hearlier | rfl
  · exact hnot resumed hafter hearlier
  · exact hwrites

/-- A request to a halted hart is pending in the next cycle. -/
theorem pending_of_asksHalted {inputs : ℕ → Inputs cfg} {hart time : ℕ}
    (hasks : asksHalted (run inputs time) (inputs time) hart = true)
    (hwrites : (inputs time).hartWrites DmMem.resumingAddr hart = false) :
    Pending inputs hart (time + 1) := by
  refine ⟨time, Nat.lt_succ_self time, hasks, fun resumed hafter hbefore ↦ ?_⟩
  obtain rfl : resumed = time := by omega
  exact hwrites

/-- The hart that a pending request names is selectable. -/
theorem selectable_of_pending {inputs : ℕ → Inputs cfg} {hart time : ℕ}
    (hpending : Pending inputs hart time) : cfg.selectableHarts.getLsbD hart = true := by
  obtain ⟨asked, -, hasks, -⟩ := hpending
  exact (runControlValid_run inputs asked).halted_selectable hart
    (Bool.and_eq_true_iff.mp hasks).2

/-- A hart that writes Resuming is acknowledged and leaves its halt. -/
theorem resumed_next {s : Regs cfg} {i : Inputs cfg} {hart : ℕ}
    (hselectable : cfg.selectableHarts.getLsbD hart = true)
    (hndmreset : s.csrs.dmcontrol.ndmreset = false)
    (hwrites : i.hartWrites DmMem.resumingAddr hart = true) :
    (next s i).mem.resuming.getLsbD hart = true ∧ (next s i).mem.halted.getLsbD hart = false := by
  have hnotHalted : i.hartWrites DmMem.haltedAddr hart = false := by
    simp only [Inputs.hartWrites, DmMem.SlaveAccess.writes, Bool.and_eq_true, beq_iff_eq] at hwrites
    simp [Inputs.hartWrites, DmMem.SlaveAccess.writes, hwrites.1.2, DmMem.resumingAddr,
      DmMem.haltedAddr]
  have hhart := lt_nrHarts_of_getLsbD hselectable
  constructor
  · rw [resuming_next s i hhart, hselectable, hndmreset, hwrites]
    rfl
  · rw [halted_next s i hhart, hwrites, hnotHalted]
    simp

/-- What a run with guarded steps keeps: a request that the hart control could serve, and the
resume it offers, are for a hart with a pending request, or for one that has just resumed. -/
structure ResumeInvariant (inputs : ℕ → Inputs cfg) (time : ℕ) : Prop where
  request : (run inputs time).csrs.dmcontrol.resumereq = true →
    (run inputs time).csrs.dmcontrol.haltreq = false →
    (run inputs time).mem.halted.getLsbD (run inputs time).selected = true →
    Pending inputs (run inputs time).selected time ∨
      (run inputs time).mem.resuming.getLsbD (run inputs time).selected = true
  offer : (run inputs time).mem.state = .resume →
    Pending inputs (run inputs time).selected time ∨
      ((run inputs time).mem.resuming.getLsbD (run inputs time).selected = true ∧
        (run inputs time).mem.halted.getLsbD (run inputs time).selected = false)

theorem resumeInvariant_zero (inputs : ℕ → Inputs cfg) : ResumeInvariant inputs 0 where
  request := fun hresumereq ↦ absurd hresumereq (by
    show ¬ (Dmcontrol.reset).resumereq = true
    decide)
  offer := fun hstate ↦ absurd hstate (by
    show ¬ DmMem.State.idle = .resume
    decide)

/-- A request that is in `dmcontrol` after a cycle was written in it, or was there before it, and
then no hart had acknowledged. -/
theorem requestAfter_of_next (s : Regs cfg) (i : Inputs cfg)
    (hresumereq : (next s i).csrs.dmcontrol.resumereq = true)
    (hhaltreq : (next s i).csrs.dmcontrol.haltreq = false) :
    requestAfter s i (next s i).selected = true := by
  rw [resumereq_next] at hresumereq
  simp only [Bool.and_eq_true] at hresumereq
  obtain ⟨⟨hactive, hunacked⟩, hwritten⟩ := hresumereq
  rw [haltreq_next, hactive, Bool.true_and] at hhaltreq
  simp only [requestAfter, hactive, hwritten, hunacked, hhaltreq, selected_next_eq,
    beq_self_eq_true, Bool.not_false, Bool.and_self]

/-- The step of the first half: a request that could be served after a guarded step is pending. -/
theorem request_succ {inputs : ℕ → Inputs cfg} {time : ℕ}
    (hguarded : GuardedStep (run inputs time) (inputs time))
    (hinvariant : ResumeInvariant inputs time)
    (hresumereq : (run inputs (time + 1)).csrs.dmcontrol.resumereq = true)
    (hhaltreq : (run inputs (time + 1)).csrs.dmcontrol.haltreq = false)
    (hhalted : (run inputs (time + 1)).mem.halted.getLsbD (run inputs (time + 1)).selected = true) :
    Pending inputs (run inputs (time + 1)).selected (time + 1) := by
  have hrequest := requestAfter_of_next (run inputs time) (inputs time) hresumereq hhaltreq
  rw [run_succ, halted_next _ _ (lt_nrHarts_of_getLsbD hhalted)] at hhalted
  rw [run_succ] at *
  generalize hhart : (next (run inputs time) (inputs time)).selected = hart at *
  simp only [Bool.and_eq_true, Bool.or_eq_true, Bool.not_eq_true'] at hhalted
  obtain ⟨⟨hselectable, hndmreset⟩, hhalts⟩ := hhalted
  -- a hart that halts in this very cycle is excluded, so the hart was halted and stays halted
  have hkept : (run inputs time).mem.halted.getLsbD hart = true ∧
      (inputs time).hartWrites DmMem.resumingAddr hart = false := by
    rcases hhalts with hwrites | hkept
    · have hnot := hguarded.halts hart
      rw [haltsIntoRequest, hwrites, hrequest] at hnot
      refine ⟨by simpa using hnot, ?_⟩
      by_contra hresumes
      have hleft := (resumed_next hselectable hndmreset (by simpa using hresumes)).2
      rw [halted_next _ _ (lt_nrHarts_of_getLsbD hselectable), hselectable, hndmreset, hwrites]
        at hleft
      exact absurd hleft (by simp)
    · exact hkept
  obtain ⟨hhaltedBefore, hnotResumes⟩ := hkept
  simp only [requestAfter, Bool.and_eq_true, Bool.not_eq_true', beq_iff_eq] at hrequest
  obtain ⟨⟨⟨⟨hactive, hwritten⟩, hunacked⟩, hnotHalt⟩, hselected⟩ := hrequest
  cases hwrites : writes (run inputs time) (inputs time) .dmControl with
  | true =>
    refine pending_of_asksHalted ?_ hnotResumes
    rw [selectedAfter, if_pos hactive, writtenDmcontrol_of_writes hwrites] at hselected
    rw [writtenDmcontrol_of_writes hwrites] at hwritten hnotHalt
    simp [asksHalted, asksResume, hwrites, hwritten, hnotHalt, hselected, hhaltedBefore]
  | false =>
    have hsame := selectedAfter_of_not_writes (runControlValid_run inputs time) hactive hwrites
    rw [writtenDmcontrol_of_not_writes hwrites] at hwritten hnotHalt
    rw [hselected] at hsame
    rw [hwritten, Bool.true_and] at hunacked
    refine pending_succ ?_ hnotResumes
    have hbefore := hinvariant.request hwritten hnotHalt (by rw [← hsame]; exact hhaltedBefore)
    rw [← hsame] at hbefore
    rcases hbefore with hpending | hacked
    · exact hpending
    · -- an acknowledgement would have ended the request
      have hzero : (run inputs time).mem.resuming = 0 := by simpa using hunacked
      rw [hzero] at hacked
      exact absurd hacked (by simp)

/-- The step of the second half: after a guarded step a resume is offered to a hart with a pending
request, or to one that has resumed in this step. -/
theorem offer_succ {inputs : ℕ → Inputs cfg} {time : ℕ}
    (hguarded : GuardedStep (run inputs time) (inputs time))
    (hinvariant : ResumeInvariant inputs time)
    (hstate : (run inputs (time + 1)).mem.state = .resume) :
    Pending inputs (run inputs (time + 1)).selected (time + 1) ∨
      ((run inputs (time + 1)).mem.resuming.getLsbD (run inputs (time + 1)).selected = true ∧
        (run inputs (time + 1)).mem.halted.getLsbD (run inputs (time + 1)).selected = false) := by
  have hndmreset : (run inputs time).csrs.dmcontrol.ndmreset = false := by
    by_contra hreset
    rw [run_succ, state_next, if_pos (by simpa using hreset)] at hstate
    exact absurd hstate (by decide)
  -- the hart control was about to offer a resume to a hart with a pending request
  have hoffer : ((run inputs time).mem.state == .idle && resumeTaken (run inputs time) ||
      (run inputs time).mem.state == .resume &&
        !(run inputs time).mem.resuming.getLsbD (run inputs time).selected) = true ∧
      Pending inputs (run inputs time).selected time := by
    cases hbefore : (run inputs time).mem.state with
    | idle =>
      rw [run_succ, state_next_of_idle _ hbefore, hndmreset] at hstate
      have htaken : resumeTaken (run inputs time) = true := by
        by_contra hnot
        rw [Bool.not_eq_true] at hnot
        rw [hnot] at hstate
        split_ifs at hstate
      refine ⟨by simp [htaken], ?_⟩
      simp only [resumeTaken, Bool.and_eq_true, Bool.not_eq_true'] at htaken
      obtain ⟨⟨⟨hresumereq, hunacked⟩, hhaltreq⟩, hhalted⟩ := htaken
      rcases hinvariant.request hresumereq hhaltreq hhalted with hpending | hacked
      · exact hpending
      · rw [hacked] at hunacked
        exact absurd hunacked (by decide)
    | go =>
      rw [run_succ, state_next_of_go _ hbefore, hndmreset] at hstate
      split_ifs at hstate
    | resume =>
      rw [run_succ, state_next_of_resume _ hbefore, hndmreset] at hstate
      cases hacked : (run inputs time).mem.resuming.getLsbD (run inputs time).selected with
      | true =>
        rw [hacked] at hstate
        exact absurd hstate (by decide)
      | false =>
        refine ⟨by simp, ?_⟩
        rcases hinvariant.offer hbefore with hpending | ⟨hresumed, -⟩
        · exact hpending
        · rw [hacked] at hresumed
          exact absurd hresumed (by decide)
    | cmdExecuting =>
      rw [run_succ, state_next_of_cmdExecuting _ hbefore, hndmreset] at hstate
      split_ifs at hstate
  obtain ⟨hoffers, hpending⟩ := hoffer
  have hredirects := hguarded.redirects
  rw [redirectsResume, hoffers, hndmreset] at hredirects
  rw [run_succ, selected_next_eq]
  cases hresumes : (inputs time).hartWrites DmMem.resumingAddr
      (selectedAfter (run inputs time) (inputs time)) with
  | true =>
    right
    refine resumed_next ?_ hndmreset hresumes
    by_cases hsame : selectedAfter (run inputs time) (inputs time) = (run inputs time).selected
    · rw [hsame]
      exact selectable_of_pending hpending
    · have hasks : asksHalted (run inputs time) (inputs time)
          (selectedAfter (run inputs time) (inputs time)) = true := by
        simpa [bne, hsame] using hredirects
      exact (runControlValid_run inputs time).halted_selectable _
        (Bool.and_eq_true_iff.mp hasks).2
  | false =>
    left
    by_cases hsame : selectedAfter (run inputs time) (inputs time) = (run inputs time).selected
    · rw [hsame] at hresumes ⊢
      exact pending_succ hpending hresumes
    · refine pending_of_asksHalted ?_ hresumes
      simpa [bne, hsame] using hredirects

/-- The invariant along a run with guarded steps. -/
theorem resumeInvariant_run {inputs : ℕ → Inputs cfg}
    (hguarded : ∀ time, GuardedStep (run inputs time) (inputs time)) (time : ℕ) :
    ResumeInvariant inputs time := by
  induction time with
  | zero => exact resumeInvariant_zero inputs
  | succ time ih =>
    refine ⟨fun hresumereq hhaltreq hhalted ↦ Or.inl ?_, fun hstate ↦ ?_⟩
    · exact request_succ (hguarded time) ih hresumereq hhaltreq hhalted
    · exact offer_succ (hguarded time) ih hstate

/-- A flag byte with the resume bit set is served in the state Resume, to the hart whose index is
the selection modulo 4096. -/
theorem offered_of_flagByte (s : Regs cfg) (i : Inputs cfg) {hart : ℕ} (hhart : hart < 1024)
    (hpolls : pollsFlags i hart = true)
    (hbit : ((next s i).mem.loadedByte (DmMem.flagBusAddress cfg hart)).getLsbD 1 = true) :
    hart = s.selected % 4096 ∧ (ctrl s i).resume = true := by
  have hoffset : (DmMem.flagBusAddress cfg hart).toNat % 4096 = DmMem.flagAddress hart := by
    rw [DmMem.flagBusAddress_mod]
    exact Nat.mod_eq_of_lt (show 1024 + hart < 4096 by omega)
  rw [DmMem.loadedByte_eq _ hoffset,
    flagByte_next hhart (DmMem.loads_offset hpolls hoffset)] at hbit
  split_ifs at hbit with hselected
  · refine ⟨hselected, ?_⟩
    cases hresume : (ctrl s i).resume with
    | true => rfl
    | false => cases hgo : (ctrl s i).go <;> simp [hresume, hgo] at hbit
  · exact absurd hbit (by decide)

/-- In a run whose steps are guarded, a hart is served an offer to resume only when it was halted
when it was asked, and has not resumed since. -/
theorem onlyAsked_of_guarded (inputs : ℕ → Inputs cfg)
    (hguarded : ∀ time, GuardedStep (run inputs time) (inputs time)) : OnlyAsked inputs := by
  intro time hart hhart hpolls hbit
  have hwindow : hart < 1024 := by
    by_contra hbeyond
    exact (hguarded time).polls ⟨hart, hhart, not_lt.mp hbeyond, hpolls⟩
  obtain ⟨hselected, hoffered⟩ :=
    offered_of_flagByte (run inputs time) (inputs time) hwindow hpolls hbit
  have hstate : (run inputs time).mem.state = .resume := by
    have hoffers := (offers_eq (run inputs time) (inputs time)).2
    rw [hoffered] at hoffers
    simpa using (Bool.and_eq_true_iff.mp hoffers.symm).1
  have hfresh := (hguarded time).stale
  rw [readsStaleOffer, hoffered, ← hselected, hpolls] at hfresh
  simp only [Bool.and_self, Bool.true_and, Bool.or_eq_false_iff, Bool.not_eq_false',
    decide_eq_false_iff_not, not_le] at hfresh
  obtain ⟨hhalted, hsmall⟩ := hfresh
  rw [hselected, Nat.mod_eq_of_lt hsmall]
  rcases (resumeInvariant_run hguarded time).offer hstate with hpending | ⟨-, hleft⟩
  · exact hpending
  · rw [hhalted] at hleft
    exact absurd hleft (by decide)

/-- After reset hart 1024 reads its flags. -/
def pollBeyondFlags (cfg : Config) : Inputs cfg :=
  { Inputs.quiet cfg with slave := loadAt (DmMem.flagBusAddress cfg 1024) }

/-- With more harts than flags the condition on their polls cannot be dropped: hart 1024 reads the
first byte of the ROM in place of its flags, and is told to resume though nobody has asked for
it. -/
theorem not_onlyAsked_of_many (hcount : 1024 < cfg.nrHarts) :
    ¬ OnlyAsked (script [pollBeyondFlags cfg]) := by
  intro honly
  have hpolls : pollsFlags (pollBeyondFlags cfg) 1024 = true :=
    beq_self_eq_true ((DmMem.flagBusAddress cfg 1024).toNat / DmMem.busBytes cfg)
  have hbyte : (next (Regs.reset cfg) (pollBeyondFlags cfg)).mem.loadedByte
      (DmMem.flagBusAddress cfg 1024) = 0x6f :=
    DmMem.loadedByte_hart1024 _ (i := memInputs _ (pollBeyondFlags cfg) _) hpolls
  obtain ⟨asked, hasked, -⟩ := honly 0 1024 hcount hpolls (by
    show ((next (Regs.reset cfg) (pollBeyondFlags cfg)).mem.loadedByte _).getLsbD 1 = true
    rw [hbyte]
    decide)
  exact absurd hasked (Nat.not_lt_zero asked)

/-- The host asks the running hart 0 to resume; the hart then halts, and polls its flag. -/
def staleRequestRun : ℕ → Inputs oneHart :=
  script
    [(Inputs.quiet oneHart).withRequest ⟨0x10, dtmWrite, 0x00000001⟩,
      (Inputs.quiet oneHart).withRequest ⟨0x10, dtmWrite, 0x40000001⟩,
      (Inputs.quiet oneHart).withHartWrite DmMem.haltedAddr 0,
      Inputs.quiet oneHart,
      (Inputs.quiet oneHart).withHartRead 0x400]

/-- The hart is told to resume although it was running when it was asked. -/
theorem staleRequestRun_resumes : ¬ OnlyAsked staleRequestRun := by
  intro honly
  obtain ⟨asked, hasked, hasks, -⟩ := honly 4 0 (by decide) (by decide +kernel) (by decide +kernel)
  have hnone : ∀ early < 4, asksHalted (run staleRequestRun early) (staleRequestRun early) 0 =
      false := by decide +kernel
  rw [hnone asked hasked] at hasks
  exact absurd hasks (by decide)

/-- The host asks the halted hart 1 to resume, and the hart polls its flag before it resumes. -/
def resumedByPolling : List (Inputs twoHarts) :=
  [(Inputs.quiet twoHarts).withRequest ⟨0x10, dtmWrite, 0x00000001⟩,
    (Inputs.quiet twoHarts).withHartWrite DmMem.haltedAddr 1,
    (Inputs.quiet twoHarts).withRequest ⟨0x10, dtmWrite, 0x40010001⟩,
    Inputs.quiet twoHarts,
    (Inputs.quiet twoHarts).withHartRead 0x401,
    (Inputs.quiet twoHarts).withHartWrite DmMem.resumingAddr 1]

/-- The steps of the run are guarded, its flag byte shows the offer, and the hart was asked. -/
theorem resumedByPolling_onlyAsked :
    ((run (script resumedByPolling) 5).mem.loadedByte
        (DmMem.flagBusAddress twoHarts 1)).getLsbD 1 = true ∧
      OnlyAsked (script resumedByPolling) := by
  refine ⟨by decide +kernel, onlyAsked_of_guarded (script resumedByPolling) fun time ↦ ?_⟩
  have hsteps : ∀ early ≤ 8,
      (∀ hart < 2, haltsIntoRequest (run (script resumedByPolling) early)
          (script resumedByPolling early) hart = false) ∧
        selectedAfter (run (script resumedByPolling) early) (script resumedByPolling early) < 2 ∧
        redirectsResume (run (script resumedByPolling) early) (script resumedByPolling early) =
          false ∧
        readsStaleOffer (run (script resumedByPolling) early) (script resumedByPolling early) =
          false := by
    decide +kernel
  obtain ⟨early, hearly, hrun, -, hinputs⟩ :=
    exists_early (show resumedByPolling.length ≤ 8 by decide)
      (show run (script resumedByPolling) 9 = run (script resumedByPolling) 8 by decide +kernel)
      time
  rw [hrun, hinputs]
  obtain ⟨hhalts, hselection, hredirects, hreads⟩ := hsteps early hearly
  refine ⟨fun hart ↦ ?_, hredirects, hreads, fun ⟨hart, hhart, hbeyond, _⟩ ↦ ?_⟩
  swap
  · exact absurd hhart (not_lt.mpr (le_trans (by decide) hbeyond))
  by_cases hhart : hart < 2
  · exact hhalts hart hhart
  · have hother : selectedAfter (run (script resumedByPolling) early)
        (script resumedByPolling early) ≠ hart := fun hsame ↦ hhart (hsame ▸ hselection)
    rw [haltsIntoRequest, requestAfter, beq_false_of_ne hother, Bool.and_false, Bool.and_false]

end RiscvDebug.DmTop
