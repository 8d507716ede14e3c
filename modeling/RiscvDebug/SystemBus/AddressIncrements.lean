import RiscvDebug.Foundations.Temporal
import RiscvDebug.SystemBus.WriteCompletions

/-!
# The increments of the bus address

The bus master returns the address with its increment in every cycle that ends an access with a
response, whether or not the response reports an error. After a failed access with
`sbautoincrement` the address therefore names the element after the failing one
(`failedReadRun_advances`). `advancesOnSuccess_iff` finds the runs in which this does not happen.
-/

set_option autoImplicit false
set_option relaxedAutoImplicit false

namespace RiscvDebug.DmTop

open Foundations

variable {cfg : Config}

/-! ### The address of an active module -/

/-- `sbaddress`. -/
def busAddress (s : Regs cfg) : BitVec cfg.busWidth := s.csrs.sbaddr.setWidth cfg.busWidth

/-- The response in this cycle ends an access. -/
def completes (s : Regs cfg) (i : Inputs cfg) : Bool := DmSba.completes s.sba (sbaInputs s i)

/-- The response reports an error. -/
def reportsError (i : Inputs cfg) : Bool := i.master.rErr || i.master.rOtherErr

/-- The step from an element to the next one. -/
def elementStep (s : Regs cfg) : BitVec cfg.busWidth :=
  BitVec.ofNat cfg.busWidth (2 ^ s.csrs.sbcs.sbaccess.toNat)

/-- What the bus master adds to the address. -/
def addrIncr (s : Regs cfg) (i : Inputs cfg) : BitVec cfg.busWidth :=
  if completes s i && s.csrs.sbcs.sbautoincrement then elementStep s else 0

theorem sbaddress_csrInputs (s : Regs cfg) (i : Inputs cfg) :
    (csrInputs s i).sbaddress = busAddress s + addrIncr s i := by
  have hincrement : (sbaInputs s i).sbautoincrement = s.csrs.sbcs.sbautoincrement := rfl
  rw [sbaddress_eq, addrIncr, completes, hincrement, elementStep]
  split_ifs
  · rw [Nat.one_shiftLeft, BitVec.natCast_eq_ofNat]
    rfl
  · rfl

/-- Without a write of the host the bus master drives the address. -/
theorem busAddress_next {s : Regs cfg} (i : Inputs cfg)
    (hactive : s.csrs.dmcontrol.dmactive = true) (hlower : servesWrite s i .sbAddress0 = false)
    (hupper : servesWrite s i .sbAddress1 = false) :
    busAddress (next s i) = busAddress s + addrIncr s i := by
  unfold servesWrite writes at hlower hupper
  rw [busAddress, (busRegisters_next_of_active i hactive).1, csrSignals, DmCsrs.sbaddr_eq, hlower,
    hupper, if_neg Bool.false_ne_true, if_neg Bool.false_ne_true, cfg.setWidth_setWidth_busWidth,
    sbaddress_csrInputs]

theorem busAddress_next_of_busy {s : Regs cfg} (i : Inputs cfg)
    (hactive : s.csrs.dmcontrol.dmactive = true) (hbusy : s.sba ≠ .idle) :
    busAddress (next s i) = busAddress s + addrIncr s i :=
  busAddress_next i hactive (servesWrite_of_busy i hbusy _) (servesWrite_of_busy i hbusy _)

/-- An access that a response ends leaves the bus master idle. -/
theorem sba_next_of_completes {s : Regs cfg} {i : Inputs cfg} (hcompletes : completes s i = true) :
    s.sba ≠ .idle ∧ (next s i).sba = .idle := by
  obtain ⟨hwaits, hvalid⟩ := Bool.and_eq_true_iff.mp hcompletes
  have hanswered : i.master.rValid = true := hvalid
  rw [Bool.or_eq_true, beq_iff_eq, beq_iff_eq] at hwaits
  have hbusy : s.sba ≠ .idle := by
    rcases hwaits with hwaits | hwaits <;> rw [hwaits] <;> decide
  refine ⟨hbusy, ?_⟩
  rw [sba_next_of_busy i hbusy]
  by_cases hrefused : refused s i = true
  · rw [if_pos hrefused]
  · rw [if_neg hrefused]
    rcases hwaits with hwaits | hwaits <;> rw [hwaits, hanswered] <;> rfl

/-- An element has at most 128 bytes, so the step is not zero. -/
theorem elementStep_ne_zero (s : Regs cfg) : elementStep s ≠ 0 := by
  intro hzero
  have hsize : 2 ^ s.csrs.sbcs.sbaccess.toNat ≤ 2 ^ 7 :=
    Nat.pow_le_pow_right (by decide) (by omega)
  have hwidth : 2 ^ 32 ≤ 2 ^ cfg.busWidth := by
    refine Nat.pow_le_pow_right (by decide) ?_
    rcases cfg.busWidth_eq with hwidth | hwidth <;> omega
  have hnat := congrArg BitVec.toNat hzero
  have hnone : (0 : BitVec cfg.busWidth).toNat = 0 := by simp
  rw [elementStep, BitVec.toNat_ofNat, Nat.mod_eq_of_lt (by omega), hnone] at hnat
  exact absurd hnat (Nat.two_pow_pos _).ne'

/-! ### Accesses of a run -/

/-- An access is in flight from one cycle to another, and the module is active. -/
def InFlight (inputs : ℕ → Inputs cfg) (first last : ℕ) : Prop :=
  ∀ time, first ≤ time → time ≤ last →
    (run inputs time).csrs.dmcontrol.dmactive = true ∧ (run inputs time).sba ≠ .idle

/-- An access succeeds in this cycle: a response without an error ends it. -/
def succeeds (s : Regs cfg) (i : Inputs cfg) : Bool := completes s i && !reportsError i

/-- The address advances by one element with each access that succeeds and has `sbautoincrement`
set, and an access that ends otherwise leaves it. Without an access in flight only the host changes
it. -/
structure AdvancesOnSuccess (inputs : ℕ → Inputs cfg) : Prop where
  access : ∀ first last, first ≤ last → InFlight inputs first last →
    (run inputs (last + 1)).sba = .idle →
      busAddress (run inputs (last + 1)) = busAddress (run inputs first) +
        if succeeds (run inputs last) (inputs last) &&
            (run inputs last).csrs.sbcs.sbautoincrement then
          elementStep (run inputs last)
        else 0
  idle : ∀ time, (run inputs time).csrs.dmcontrol.dmactive = true →
    (run inputs time).sba = .idle →
    servesWrite (run inputs time) (inputs time) .sbAddress0 = false →
    servesWrite (run inputs time) (inputs time) .sbAddress1 = false →
      busAddress (run inputs (time + 1)) = busAddress (run inputs time)

/-- The response that ends an access with `sbautoincrement` reports an error. -/
def FailsIncrementing (s : Regs cfg) (i : Inputs cfg) : Prop :=
  s.csrs.dmcontrol.dmactive = true ∧ completes s i = true ∧
    s.csrs.sbcs.sbautoincrement = true ∧ reportsError i = true

/-- An access in flight keeps the address until its last cycle. -/
theorem busAddress_of_inFlight {inputs : ℕ → Inputs cfg} {first last : ℕ} (hle : first ≤ last)
    (hflight : InFlight inputs first last) :
    busAddress (run inputs last) = busAddress (run inputs first) := by
  refine eq_start_of_step (q := fun time ↦ busAddress (run inputs time)) hle ?_
  intro time hstart hstop hsame
  obtain ⟨hactive, hbusy⟩ := hflight time hstart hstop.le
  have hincomplete : completes (run inputs time) (inputs time) = false := by
    by_contra hcompletes
    have hidle := (sba_next_of_completes (Bool.not_eq_false _ ▸ hcompletes)).2
    exact (hflight (time + 1) (by omega) hstop).2 (by rw [run_succ, hidle])
  show busAddress (run inputs (time + 1)) = _
  rw [run_succ, busAddress_next_of_busy _ hactive hbusy, addrIncr, hincomplete, Bool.false_and,
    if_neg Bool.false_ne_true, add_zero, hsame]

/-- The address advances with the successful accesses only, exactly in the runs in which no access
with `sbautoincrement` fails. -/
theorem advancesOnSuccess_iff (inputs : ℕ → Inputs cfg) :
    AdvancesOnSuccess inputs ↔ ∀ time, ¬ FailsIncrementing (run inputs time) (inputs time) := by
  constructor
  · rintro hadvances time ⟨hactive, hcompletes, hincrement, herror⟩
    obtain ⟨hbusy, hidle⟩ := sba_next_of_completes hcompletes
    have hflight : InFlight inputs time time := by
      intro other hstart hstop
      obtain rfl : other = time := by omega
      exact ⟨hactive, hbusy⟩
    have hkept := hadvances.access time time le_rfl hflight (by rw [run_succ, hidle])
    rw [succeeds, hcompletes, herror, Bool.not_true, Bool.and_false, Bool.false_and,
      if_neg Bool.false_ne_true, add_zero, run_succ,
      busAddress_next_of_busy _ hactive hbusy, addrIncr, hcompletes, hincrement] at hkept
    exact elementStep_ne_zero _ (add_eq_left.mp hkept)
  · intro hsucceeds
    refine ⟨fun first last hle hflight hends ↦ ?_, fun time hactive hidle hlower hupper ↦ ?_⟩
    · obtain ⟨hactive, hbusy⟩ := hflight last hle le_rfl
      rw [run_succ, busAddress_next_of_busy _ hactive hbusy, busAddress_of_inFlight hle hflight,
        addrIncr, succeeds]
      congr 1
      cases hcompletes : completes (run inputs last) (inputs last) with
      | false => rfl
      | true =>
        cases hincrement : (run inputs last).csrs.sbcs.sbautoincrement with
        | false => rw [Bool.and_false, Bool.and_false]
        | true =>
          have hclear : reportsError (inputs last) = false := by
            by_contra herror
            exact hsucceeds last ⟨hactive, hcompletes, hincrement, Bool.not_eq_false _ ▸ herror⟩
          rw [hclear]
          rfl
    · have hincomplete : completes (run inputs time) (inputs time) = false := by
        rw [completes, DmSba.completes, hidle]
        rfl
      rw [run_succ, busAddress_next _ hactive hlower hupper, addrIncr, hincomplete,
        Bool.false_and, if_neg Bool.false_ne_true, add_zero]

/-- The host reads a word with `sbautoincrement`, and the bus answers with an error. -/
def failedReadRun : ℕ → Inputs oneHart :=
  script
    [(Inputs.quiet oneHart).withRequest ⟨0x10, dtmWrite, 0x00000001⟩,
      (Inputs.quiet oneHart).withRequest ⟨0x38, dtmWrite, 0x00150000⟩,
      (Inputs.quiet oneHart).withRequest ⟨0x39, dtmWrite, 0x00000100⟩,
      { Inputs.quiet oneHart with master := ⟨true, false, false, false, 0⟩ },
      { Inputs.quiet oneHart with master := ⟨false, true, true, false, 0⟩ }]

/-- The access of the run fails, and the address names the next word. -/
theorem failedReadRun_advances :
    (run failedReadRun 5).csrs.sbcs.sberror = 2 ∧ busAddress (run failedReadRun 5) = 0x104 ∧
      ¬ AdvancesOnSuccess failedReadRun := by
  refine ⟨by decide +kernel, by decide +kernel, fun hadvances ↦ ?_⟩
  have hfailing : ∀ time ≤ 4, 3 ≤ time →
      (run failedReadRun time).csrs.dmcontrol.dmactive = true ∧
        (run failedReadRun time).sba ≠ .idle := by decide +kernel
  have hkept := hadvances.access 3 4 (by decide) (fun time hstart hstop ↦
    hfailing time hstop hstart) (by decide +kernel)
  exact absurd hkept (by decide +kernel)

end RiscvDebug.DmTop
