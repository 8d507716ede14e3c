import RiscvDebug.RunControl.ResumeRequests

/-!
# The selected hart

The hart selection is a number of as many bits as the harts need, so that it may name a hart that
does not exist when the number of harts is no power of two. The run states of such a selection are
not exclusive (`exactlyOneRunState_iff`), and a run shows exclusive states exactly when the host
selects existing harts only (`runStatesExclusive_iff`).

The halt request is one bit, shown to the selected hart. It reaches the right hart
(`exists_haltreq_of_debugReq`), but a selection of another hart takes it away:
`haltRequestsKept_iff` finds the runs in which no pending halt request is lost.
-/

set_option autoImplicit false
set_option relaxedAutoImplicit false

namespace RiscvDebug.DmTop

open Foundations

variable {cfg : Config}

/-! ### Run states -/

/-- Of the four run states of `dmstatus` exactly one is shown. -/
def ExactlyOneRunState (status : Dmstatus) : Prop :=
  [status.allnonexistent, status.allunavail, status.allhalted, status.allrunning].count true = 1

instance (status : Dmstatus) : Decidable (ExactlyOneRunState status) :=
  inferInstanceAs (Decidable (_ = _))

/-- The selection names a hart that exists. -/
def selectsExisting (cfg : Config) (selection : BitVec 20) : Prop := selection.toNat < cfg.nrHarts

instance (cfg : Config) (selection : BitVec 20) : Decidable (selectsExisting cfg selection) :=
  inferInstanceAs (Decidable (_ < _))

/-- The run states are exclusive for the harts that exist. Every other selection shows Nonexistent
together with the state of some index in the padded vectors. -/
theorem exactlyOneRunState_iff (q : DmCsrs.Regs cfg) (i : DmCsrs.Inputs cfg) :
    ExactlyOneRunState (DmCsrs.dmstatus q i) ↔ selectsExisting cfg q.dmcontrol.hartsel := by
  have hpos := cfg.nrHarts_pos
  have hnonexistent : (DmCsrs.dmstatus q i).allnonexistent =
      decide (¬ selectsExisting cfg q.dmcontrol.hartsel) := by
    show decide (_ > cfg.nrHarts - 1) = decide (¬ _ < cfg.nrHarts)
    rw [decide_eq_decide]
    omega
  have hothers : [(DmCsrs.dmstatus q i).allunavail, (DmCsrs.dmstatus q i).allhalted,
      (DmCsrs.dmstatus q i).allrunning].count true = 1 := by
    unfold DmCsrs.dmstatus
    dsimp only
    cases i.unavailable.getLsbD q.selectedHart <;> cases i.halted.getLsbD q.selectedHart <;> rfl
  rw [ExactlyOneRunState, hnonexistent]
  by_cases hexists : selectsExisting cfg q.dmcontrol.hartsel
  · rw [decide_eq_false (not_not_intro hexists)]
    exact iff_of_true hothers hexists
  · rw [decide_eq_true hexists, List.count_cons_self, hothers]
    exact iff_of_false (by omega) hexists

/-- In every cycle of a run `dmstatus` shows exactly one run state, whatever harts are available. -/
def RunStatesExclusive (inputs : ℕ → Inputs cfg) : Prop :=
  ∀ time, ExactlyOneRunState (DmCsrs.dmstatus (run inputs time).csrs
    (csrInputs (run inputs time) (inputs time)))

/-- Every selection that the host writes names an existing hart, once it is masked. -/
def SelectsExistingOnly (inputs : ℕ → Inputs cfg) : Prop :=
  ∀ time, (run inputs time).csrs.dmcontrol.dmactive = true →
    writes (run inputs time) (inputs time) .dmControl = true →
      selectsExisting cfg
        ((Dmcontrol.ofBits (inputs time).dmiReq.data).hartsel &&& cfg.hartselMask)

theorem selectsExisting_zero (cfg : Config) : selectsExisting cfg 0 := cfg.nrHarts_pos

theorem selectsExisting_run {inputs : ℕ → Inputs cfg} (hwritten : SelectsExistingOnly inputs)
    (time : ℕ) : selectsExisting cfg (run inputs time).csrs.dmcontrol.hartsel := by
  induction time with
  | zero =>
    have hreset : (run inputs 0).csrs.dmcontrol.hartsel = 0 := by
      simp [run, machine, Regs.reset, DmCsrs.Regs.reset, Dmcontrol.hartsel, Dmcontrol.reset,
        Dmcontrol.ofBits]
    rw [hreset]
    exact selectsExisting_zero cfg
  | succ time ih =>
    rw [run_succ, hartsel_next]
    cases hactive : (run inputs time).csrs.dmcontrol.dmactive with
    | false => exact selectsExisting_zero cfg
    | true =>
      rw [if_pos rfl]
      cases hwrites : writes (run inputs time) (inputs time) .dmControl with
      | true =>
        rw [writtenDmcontrol_of_writes hwrites]
        exact hwritten time hactive hwrites
      | false =>
        rw [writtenDmcontrol_of_not_writes hwrites,
          (runControlValid_run inputs time).hartsel_masked]
        exact ih

/-- The run states of a run are exclusive exactly when the host selects existing harts only. -/
theorem runStatesExclusive_iff (inputs : ℕ → Inputs cfg) :
    RunStatesExclusive inputs ↔ SelectsExistingOnly inputs := by
  constructor
  · intro hexclusive time hactive hwrites
    have hnext := (exactlyOneRunState_iff _ _).mp (hexclusive (time + 1))
    rw [run_succ, hartsel_next, hactive, if_pos rfl, writtenDmcontrol_of_writes hwrites] at hnext
    exact hnext
  · intro hwritten time
    rw [exactlyOneRunState_iff]
    exact selectsExisting_run hwritten time

/-- When the number of harts is a power of two the mask leaves existing harts only, so that the run
states are exclusive in every run. -/
theorem runStatesExclusive_of_two_pow {width : ℕ} (hharts : cfg.nrHarts = 2 ^ width)
    (inputs : ℕ → Inputs cfg) : RunStatesExclusive inputs := by
  have hpow : 2 ^ clog2 cfg.nrHarts ≤ 2 ^ width :=
    Nat.pow_le_pow_right (by decide) (clog2_le_of_le_two_pow hharts.le)
  have hmask : cfg.hartselMask.toNat ≤ 2 ^ clog2 cfg.nrHarts - 1 := by
    rw [Config.hartselMask, BitVec.toNat_ofNat]
    exact Nat.mod_le _ _
  have hpos := Nat.two_pow_pos (clog2 cfg.nrHarts)
  have hwritten : SelectsExistingOnly inputs := by
    intro time _ _
    have hand := @Nat.and_le_right
      (Dmcontrol.ofBits (inputs time).dmiReq.data).hartsel.toNat cfg.hartselMask.toNat
    rw [selectsExisting, BitVec.toNat_and, hharts]
    omega
  exact fun time ↦ (exactlyOneRunState_iff _ _).mpr (selectsExisting_run hwritten time)

/-- Three harts on a 32-bit bus. -/
def threeHarts : Config := zeroPage 3 (by decide) (by decide)

/-- The host activates the module and selects hart 3 of the harts 0 to 2. -/
def fourthHartRun : ℕ → Inputs threeHarts :=
  script
    [(Inputs.quiet threeHarts).withRequest ⟨0x10, dtmWrite, 0x00000001⟩,
      (Inputs.quiet threeHarts).withRequest ⟨0x10, dtmWrite, 0x00030001⟩]

/-- The hart that does not exist is reported to be running as well. -/
theorem fourthHartRun_notExclusive : ¬ RunStatesExclusive fourthHartRun := by
  intro hexclusive
  exact absurd (hexclusive 2) (by decide +kernel)

/-! ### Halt requests -/

/-- `debug_req_o`. -/
def debugReq (s : Regs cfg) : BitVec cfg.nrHarts := s.csrs.haltreq

/-- An accepted write of `dmcontrol` sets or clears the halt request of a hart. -/
def writesHaltreq (s : Regs cfg) (i : Inputs cfg) (hart : ℕ) (value : Bool) : Bool :=
  writes s i .dmControl && (Dmcontrol.ofBits i.dmiReq.data).haltreq == value &&
    hartOf cfg (Dmcontrol.ofBits i.dmiReq.data) == hart

theorem debugReq_getLsbD (s : Regs cfg) (hart : ℕ) :
    (debugReq s).getLsbD hart =
      (s.csrs.dmcontrol.haltreq && s.selected == hart && decide (hart < cfg.nrHarts)) := by
  have hvalid := selectedHartValid_iff s.csrs
  unfold debugReq DmCsrs.Regs.haltreq Regs.selected
  by_cases hsame : hart = s.csrs.selectedHart
  · by_cases hexists : s.csrs.selectedHart < cfg.nrHarts
    · rw [if_pos (hvalid.mpr hexists), getLsbD_setBit]
      simp [hsame, hexists]
    · rw [if_neg (fun h ↦ hexists (hvalid.mp h))]
      simp [hsame, hexists]
  · have hother : ¬ s.csrs.selectedHart = hart := fun h ↦ hsame h.symm
    split_ifs <;> simp [hsame, hother]

/-- The halt request after a cycle of an active module: that of the write, or the old one. -/
theorem haltreq_next_of_writes {s : Regs cfg} {i : Inputs cfg}
    (hactive : s.csrs.dmcontrol.dmactive = true) (hwrites : writes s i .dmControl = true) :
    (next s i).csrs.dmcontrol.haltreq = (Dmcontrol.ofBits i.dmiReq.data).haltreq ∧
      (next s i).selected = hartOf cfg (Dmcontrol.ofBits i.dmiReq.data) := by
  rw [haltreq_next, selected_next, hactive, writtenDmcontrol_of_writes hwrites, Bool.true_and,
    if_pos rfl]
  exact ⟨rfl, rfl⟩

theorem haltreq_next_of_not_writes {s : Regs cfg} {i : Inputs cfg} (hvalid : RunControlValid s)
    (hactive : s.csrs.dmcontrol.dmactive = true) (hwrites : writes s i .dmControl = false) :
    (next s i).csrs.dmcontrol.haltreq = s.csrs.dmcontrol.haltreq ∧
      (next s i).selected = s.selected := by
  rw [haltreq_next, selected_next_eq, selectedAfter_of_not_writes hvalid hactive hwrites, hactive,
    writtenDmcontrol_of_not_writes hwrites, Bool.true_and]
  exact ⟨rfl, rfl⟩

/-- A halt request that is pending has been written for the selected hart, and no write of
`dmcontrol` has followed. -/
theorem exists_haltreq (inputs : ℕ → Inputs cfg) (time : ℕ)
    (hrequest : (run inputs time).csrs.dmcontrol.haltreq = true) :
    ∃ asked < time,
      writesHaltreq (run inputs asked) (inputs asked) (run inputs time).selected true = true ∧
      (∀ other, asked ≤ other → other < time →
        (run inputs other).csrs.dmcontrol.dmactive = true) ∧
      ∀ other, asked < other → other < time →
        writes (run inputs other) (inputs other) .dmControl = false := by
  induction time with
  | zero => exact absurd hrequest (by simp [run, machine, Regs.reset, DmCsrs.Regs.reset,
      Dmcontrol.reset, Dmcontrol.ofBits])
  | succ time ih =>
    have hactive : (run inputs time).csrs.dmcontrol.dmactive = true := by
      rw [run_succ, haltreq_next, Bool.and_eq_true] at hrequest
      exact hrequest.1
    cases hwrites : writes (run inputs time) (inputs time) .dmControl with
    | true =>
      obtain ⟨hvalue, hselected⟩ := haltreq_next_of_writes hactive hwrites
      refine ⟨time, Nat.lt_succ_self time, ?_, fun other hle hlt ↦ ?_, fun other hlt hlt' ↦ ?_⟩
      · rw [run_succ, hvalue] at hrequest
        rw [writesHaltreq, hwrites, hrequest, run_succ, hselected]
        simp
      · obtain rfl : other = time := by omega
        exact hactive
      · omega
    | false =>
      obtain ⟨hvalue, hselected⟩ :=
        haltreq_next_of_not_writes (runControlValid_run inputs time) hactive hwrites
      rw [run_succ, hvalue] at hrequest
      obtain ⟨asked, hasked, hwrite, hstays, hquiet⟩ := ih hrequest
      refine ⟨asked, hasked.trans (Nat.lt_succ_self time), ?_, fun other hle hlt ↦ ?_,
        fun other hlt hlt' ↦ ?_⟩
      · rw [run_succ, hselected]
        exact hwrite
      · rcases Nat.lt_succ_iff_lt_or_eq.mp hlt with hbefore | rfl
        · exact hstays other hle hbefore
        · exact hactive
      · rcases Nat.lt_succ_iff_lt_or_eq.mp hlt' with hbefore | rfl
        · exact hquiet other hlt hbefore
        · exact hwrites

/-- Only the harts that a write has asked to halt see a debug request. -/
theorem exists_haltreq_of_debugReq (inputs : ℕ → Inputs cfg) (time hart : ℕ)
    (hrequest : (debugReq (run inputs time)).getLsbD hart = true) :
    ∃ asked < time, (run inputs asked).csrs.dmcontrol.dmactive = true ∧
      writesHaltreq (run inputs asked) (inputs asked) hart true = true := by
  rw [debugReq_getLsbD] at hrequest
  simp only [Bool.and_eq_true, beq_iff_eq] at hrequest
  obtain ⟨⟨hpending, rfl⟩, -⟩ := hrequest
  obtain ⟨asked, hasked, hwrite, hstays, -⟩ := exists_haltreq inputs time hpending
  exact ⟨asked, hasked, hstays asked le_rfl hasked, hwrite⟩

/-- The module is active from one cycle to another, both included. -/
def ActiveThrough (inputs : ℕ → Inputs cfg) (start stop : ℕ) : Prop :=
  ∀ time, start ≤ time → time ≤ stop → (run inputs time).csrs.dmcontrol.dmactive = true

/-- A hart that is asked to halt sees a debug request until a write clears it, as long as the
module is active; and a hart sees a debug request only when it has been asked to halt. -/
structure HaltRequestsKept (inputs : ℕ → Inputs cfg) : Prop where
  kept : ∀ asked stop hart, hart < cfg.nrHarts → asked < stop → ActiveThrough inputs asked stop →
    writesHaltreq (run inputs asked) (inputs asked) hart true = true →
      (∀ time, asked < time → time < stop →
        writesHaltreq (run inputs time) (inputs time) hart false = false) →
        (debugReq (run inputs stop)).getLsbD hart = true
  asked : ∀ time hart, (debugReq (run inputs time)).getLsbD hart = true →
    ∃ asked < time, (run inputs asked).csrs.dmcontrol.dmactive = true ∧
      writesHaltreq (run inputs asked) (inputs asked) hart true = true

/-- A write of `dmcontrol` selects another hart, while a halt request of an existing hart is
pending. -/
def MovesFromHaltreq (s : Regs cfg) (i : Inputs cfg) : Prop :=
  s.csrs.dmcontrol.dmactive = true ∧ s.csrs.dmcontrol.haltreq = true ∧
    s.selected < cfg.nrHarts ∧ writes s i .dmControl = true ∧
      (Dmcontrol.ofBits i.dmiReq.data).dmactive = true ∧
        hartOf cfg (Dmcontrol.ofBits i.dmiReq.data) ≠ s.selected

/-- One cycle of a pending halt request that is neither cleared nor moved. -/
theorem haltreq_next_of_kept {s : Regs cfg} {i : Inputs cfg} {hart : ℕ} (hvalid : RunControlValid s)
    (hhart : hart < cfg.nrHarts) (hactive : s.csrs.dmcontrol.dmactive = true)
    (hactive' : (next s i).csrs.dmcontrol.dmactive = true)
    (hpending : s.csrs.dmcontrol.haltreq = true ∧ s.selected = hart)
    (hcleared : writesHaltreq s i hart false = false) (hmoves : ¬ MovesFromHaltreq s i) :
    (next s i).csrs.dmcontrol.haltreq = true ∧ (next s i).selected = hart := by
  obtain ⟨hrequest, rfl⟩ := hpending
  cases hwrites : writes s i .dmControl with
  | false =>
    obtain ⟨hvalue, hselected⟩ := haltreq_next_of_not_writes hvalid hactive hwrites
    rw [hvalue, hselected]
    exact ⟨hrequest, rfl⟩
  | true =>
    obtain ⟨hvalue, hselected⟩ := haltreq_next_of_writes hactive hwrites
    have hsame : hartOf cfg (Dmcontrol.ofBits i.dmiReq.data) = s.selected := by
      by_contra hother
      refine hmoves ⟨hactive, hrequest, hhart, hwrites, ?_, hother⟩
      rw [dmactive_next, writtenDmcontrol_of_writes hwrites] at hactive'
      exact hactive'
    rw [hvalue, hselected]
    refine ⟨?_, hsame⟩
    rw [writesHaltreq, hwrites, hsame] at hcleared
    simpa using hcleared

/-- The halt requests of a run are kept exactly when no write selects another hart while one is
pending. -/
theorem haltRequestsKept_iff (inputs : ℕ → Inputs cfg) :
    HaltRequestsKept inputs ↔ ∀ time, ¬ MovesFromHaltreq (run inputs time) (inputs time) := by
  constructor
  · rintro hkept time ⟨hactive, hrequest, hhart, hwrites, hstays, hother⟩
    obtain ⟨asked, hasked, hwrite, hactives, hquiet⟩ := exists_haltreq inputs time hrequest
    have hselected : (run inputs (time + 1)).selected =
        hartOf cfg (Dmcontrol.ofBits (inputs time).dmiReq.data) := by
      rw [run_succ]
      exact (haltreq_next_of_writes hactive hwrites).2
    have hdebugReq := hkept.kept asked (time + 1) _ hhart (hasked.trans (Nat.lt_succ_self time))
      (fun other hle hle' ↦ ?_) hwrite fun other hlt hlt' ↦ ?_
    · rw [debugReq_getLsbD, hselected, beq_false_of_ne hother] at hdebugReq
      simp at hdebugReq
    · rcases Nat.lt_or_ge other time with hbefore | hafter
      · exact hactives other hle hbefore
      · rcases Nat.eq_or_lt_of_le hafter with rfl | hlast
        · exact hactive
        · obtain rfl : other = time + 1 := by omega
          rw [run_succ, dmactive_next, writtenDmcontrol_of_writes hwrites]
          exact hstays
    · rcases Nat.lt_succ_iff_lt_or_eq.mp hlt' with hbefore | rfl
      · rw [writesHaltreq, hquiet other hlt hbefore]
        rfl
      · rw [writesHaltreq, beq_false_of_ne hother, Bool.and_false]
  · intro hstays
    refine ⟨?_, exists_haltreq_of_debugReq inputs⟩
    intro asked stop hart hhart hlt hactive hwrite hcleared
    have hpending : (run inputs stop).csrs.dmcontrol.haltreq = true ∧
        (run inputs stop).selected = hart := by
      induction stop, Nat.succ_le_of_lt hlt using Nat.le_induction with
      | base =>
        simp only [writesHaltreq, Bool.and_eq_true, beq_iff_eq] at hwrite
        obtain ⟨⟨hwrites, hvalue⟩, hsame⟩ := hwrite
        obtain ⟨hnext, hselected⟩ :=
          haltreq_next_of_writes (hactive asked le_rfl (Nat.le_succ asked)) hwrites
        rw [Nat.succ_eq_add_one, run_succ, hnext, hselected]
        exact ⟨hvalue, hsame⟩
      | succ stop hle ih =>
        have hstart : asked < stop := hle
        have hbefore := ih hstart (fun time hstart hstop ↦ hactive time hstart (by omega))
          fun time hstart hstop ↦ hcleared time hstart (by omega)
        rw [run_succ]
        exact haltreq_next_of_kept (runControlValid_run inputs stop) hhart
          (hactive stop (by omega) (by omega)) (hactive (stop + 1) (by omega) le_rfl) hbefore
          (hcleared stop hstart (Nat.lt_succ_self stop)) (hstays stop)
    rw [debugReq_getLsbD, hpending.1, hpending.2]
    simp [hhart]

/-- The host activates the module, asks hart 0 to halt, and selects hart 1. -/
def selectsOtherRun : ℕ → Inputs twoHarts :=
  script
    [(Inputs.quiet twoHarts).withRequest ⟨0x10, dtmWrite, 0x00000001⟩,
      (Inputs.quiet twoHarts).withRequest ⟨0x10, dtmWrite, 0x80000001⟩,
      (Inputs.quiet twoHarts).withRequest ⟨0x10, dtmWrite, 0x00010001⟩]

/-- The halt request of hart 0 is gone, though no write has cleared it. -/
theorem selectsOtherRun_loses : ¬ HaltRequestsKept selectsOtherRun := by
  intro hkept
  have hactive : ∀ time ≤ 3, 1 ≤ time →
      (run selectsOtherRun time).csrs.dmcontrol.dmactive = true := by decide +kernel
  have hcleared : ∀ time ≤ 2, 1 < time →
      writesHaltreq (run selectsOtherRun time) (selectsOtherRun time) 0 false = false := by
    decide +kernel
  have hdebugReq := hkept.kept 1 3 0 (by decide) (by decide)
    (fun time hle hle' ↦ hactive time hle' hle) (by decide +kernel)
    fun time hlt hlt' ↦ hcleared time (by omega) hlt
  exact absurd hdebugReq (by decide +kernel)

end RiscvDebug.DmTop
