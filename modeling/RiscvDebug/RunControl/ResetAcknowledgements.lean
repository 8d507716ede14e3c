import RiscvDebug.RunControl.ResumeRequests

/-!
# Acknowledged resets

A write of `dmcontrol` with `ackhavereset` clears the reset flag of the hart that was selected
before the write, also when the same write selects another hart (`switchingAckRun_misses`).
`acksWrittenHart_iff` finds the writes whose flags come out as if the hart of the written
`hartsel` had been acknowledged.
-/

set_option autoImplicit false
set_option relaxedAutoImplicit false

namespace RiscvDebug.DmTop

open Foundations

variable {cfg : Config}

/-! ### The reset flags -/

/-- `havereset` of a hart. -/
def haveReset (s : Regs cfg) (hart : ℕ) : Bool := s.csrs.havereset.getLsbD hart

/-- An accepted write of `dmcontrol` with `ackhavereset`. -/
def acksReset (s : Regs cfg) (i : Inputs cfg) : Bool :=
  writes s i .dmControl && (Dmcontrol.ofBits i.dmiReq.data).ackhavereset

/-- The hart that the `hartsel` of a write of `dmcontrol` names. -/
def writtenHart (i : Inputs cfg) : ℕ := hartOf cfg (Dmcontrol.ofBits i.dmiReq.data)

theorem haveReset_next (s : Regs cfg) (i : Inputs cfg) {hart : ℕ} (hhart : hart < cfg.nrHarts) :
    haveReset (next s i) hart = (cfg.selectableHarts.getLsbD hart &&
      (i.ndmresetAck || (!(acksReset s i && hart == s.selected) && haveReset s hart))) := by
  have hnext : (next s i).csrs.havereset = cfg.selectableHarts &&& (csrSignals s i).havereset := by
    show (DmCsrs.next s.csrs (csrInputs s i)).havereset = _
    unfold DmCsrs.next
    cases s.csrs.dmcontrol.dmactive <;> rfl
  have hacks : (DmCsrs.writes s.csrs (csrInputs s i) .dmControl &&
      (Dmcontrol.ofBits (csrInputs s i).dmiReq.data).ackhavereset) = acksReset s i := rfl
  have hreset : (csrInputs s i).ndmresetAck = i.ndmresetAck := rfl
  rw [haveReset, hnext, BitVec.getLsbD_and, csrSignals, DmCsrs.havereset_eq, hreset, hacks]
  congr 1
  cases i.ndmresetAck with
  | true => simp [hhart]
  | false =>
    rw [if_neg Bool.false_ne_true, Bool.false_or]
    by_cases hselected : hart = s.selected
    · -- The selected hart exists, so its flag is the one that is cleared.
      subst hselected
      have hvalid : s.csrs.selectedHartValid = true := (selectedHartValid_iff s.csrs).mpr hhart
      rw [hvalid, Bool.and_true, beq_self_eq_true, Bool.and_true]
      cases acksReset s i with
      | true => simp [Regs.selected]
      | false => rfl
    · rw [beq_false_of_ne hselected, Bool.and_false, Bool.not_false, Bool.true_and]
      split_ifs
      · rw [getLsbD_setBit, if_neg (show hart ≠ s.csrs.selectedHart from hselected), haveReset]
      · rfl

/-- After the first cycle of a run only selectable harts have their flag set. -/
theorem selectable_of_haveReset {inputs : ℕ → Inputs cfg} {time hart : ℕ}
    (hactive : (run inputs time).csrs.dmcontrol.dmactive = true)
    (hflag : haveReset (run inputs time) hart = true) :
    cfg.selectableHarts.getLsbD hart = true := by
  cases time with
  | zero => exact absurd hactive Bool.false_ne_true
  | succ time =>
    rw [run_succ, haveReset_next _ _ (lt_nrHarts_of_getLsbD hflag)] at hflag
    exact (Bool.and_eq_true_iff.mp hflag).1

/-! ### Acknowledgements -/

/-- In this cycle the flag of the hart that the write names is cleared, and the other flags are
kept; the end of a reset sets the flags of all selectable harts. -/
def AcksWrittenHart (s : Regs cfg) (i : Inputs cfg) : Prop :=
  ∀ hart < cfg.nrHarts, haveReset (next s i) hart =
    if i.ndmresetAck then cfg.selectableHarts.getLsbD hart
    else if hart = writtenHart i then false else haveReset s hart

instance (s : Regs cfg) (i : Inputs cfg) : Decidable (AcksWrittenHart s i) :=
  inferInstanceAs (Decidable (∀ hart < cfg.nrHarts, _))

/-- An acknowledging write treats the flags as those of the hart that it names exactly when a reset
ends in the same cycle, the write keeps the selection, or neither of the two harts has its flag
set. -/
theorem acksWrittenHart_iff (inputs : ℕ → Inputs cfg) (time : ℕ)
    (hactive : (run inputs time).csrs.dmcontrol.dmactive = true)
    (hacks : acksReset (run inputs time) (inputs time) = true) :
    AcksWrittenHart (run inputs time) (inputs time) ↔
      (inputs time).ndmresetAck = true ∨ (run inputs time).selected = writtenHart (inputs time) ∨
        haveReset (run inputs time) (run inputs time).selected = false ∧
          haveReset (run inputs time) (writtenHart (inputs time)) = false := by
  have hnext (hart : ℕ) (hhart : hart < cfg.nrHarts) :
      haveReset (next (run inputs time) (inputs time)) hart =
        if (inputs time).ndmresetAck then cfg.selectableHarts.getLsbD hart
        else if hart = (run inputs time).selected then false
        else haveReset (run inputs time) hart := by
    rw [haveReset_next _ _ hhart, hacks, Bool.true_and]
    cases (inputs time).ndmresetAck with
    | true => simp
    | false =>
      by_cases hselected : hart = (run inputs time).selected
      · simp [hselected]
      · cases hflag : haveReset (run inputs time) hart with
        | true => simp [hselected, selectable_of_haveReset hactive hflag]
        | false => simp
  unfold AcksWrittenHart
  cases hended : (inputs time).ndmresetAck with
  | true =>
    refine iff_of_true (fun hart hhart ↦ ?_) (Or.inl rfl)
    rw [hnext hart hhart, hended]
    rfl
  | false =>
    rw [hended] at hnext
    simp only [Bool.false_eq_true, if_false, false_or] at hnext ⊢
    constructor
    · intro hflags
      by_cases hsame : (run inputs time).selected = writtenHart (inputs time)
      · exact Or.inl hsame
      · right
        -- A set flag of one of the two harts would come out differently.
        constructor
        · by_contra hflag
          have hset := Bool.not_eq_false _ ▸ hflag
          have hhart := lt_nrHarts_of_getLsbD hset
          have hkept := hflags _ hhart
          rw [hnext _ hhart, if_pos rfl, if_neg hsame, hset] at hkept
          exact absurd hkept.symm (by decide)
        · by_contra hflag
          have hset := Bool.not_eq_false _ ▸ hflag
          have hhart := lt_nrHarts_of_getLsbD hset
          have hkept := hflags _ hhart
          rw [hnext _ hhart, if_pos rfl, if_neg (Ne.symm hsame), hset] at hkept
          exact absurd hkept (by decide)
    · rintro (hsame | ⟨hselected, hwritten⟩) hart hhart
      · rw [hnext hart hhart, hsame]
      · rw [hnext hart hhart]
        split_ifs with hfirst hsecond hsecond
        · rfl
        · rw [hfirst, hselected]
        · rw [hsecond, hwritten]
        · rfl

/-- Two harts have been reset. The host selects the second one and acknowledges its reset in one
write. -/
def switchingAckRun : ℕ → Inputs twoHarts :=
  script
    [(Inputs.quiet twoHarts).withRequest ⟨0x10, dtmWrite, 0x00000001⟩,
      (Inputs.quiet twoHarts).withRequest ⟨0x10, dtmWrite, 0x10010001⟩]

/-- The flag of the first hart is cleared, and that of the second one stays. -/
theorem switchingAckRun_misses :
    acksReset (run switchingAckRun 1) (switchingAckRun 1) = true ∧
      writtenHart (switchingAckRun 1) = 1 ∧ haveReset (run switchingAckRun 2) 0 = false ∧
      haveReset (run switchingAckRun 2) 1 = true ∧
      ¬ AcksWrittenHart (run switchingAckRun 1) (switchingAckRun 1) := by
  refine ⟨by decide +kernel, by decide +kernel, by decide +kernel, by decide +kernel, ?_⟩
  intro hacks
  exact absurd (hacks 1 (by decide)) (by decide +kernel)

/-- The host selects the second hart first, and acknowledges its reset in a further write. -/
def settledAckRun : ℕ → Inputs twoHarts :=
  script
    [(Inputs.quiet twoHarts).withRequest ⟨0x10, dtmWrite, 0x00000001⟩,
      (Inputs.quiet twoHarts).withRequest ⟨0x10, dtmWrite, 0x00010001⟩,
      (Inputs.quiet twoHarts).withRequest ⟨0x10, dtmWrite, 0x10010001⟩]

/-- The flag of the second hart is cleared, and that of the first one stays. -/
theorem settledAckRun_clears :
    AcksWrittenHart (run settledAckRun 2) (settledAckRun 2) ∧
      haveReset (run settledAckRun 3) 0 = true ∧ haveReset (run settledAckRun 3) 1 = false := by
  refine ⟨?_, by decide +kernel, by decide +kernel⟩
  exact (acksWrittenHart_iff settledAckRun 2 (by decide +kernel) (by decide +kernel)).mpr
    (Or.inr (Or.inl (by decide +kernel)))

end RiscvDebug.DmTop
