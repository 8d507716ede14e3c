import RiscvDebug.SystemBus.AddressIncrements
import RiscvDebug.SystemBus.BusLanes

/-!
# The error discipline of the system bus

An access starts only without a pending error, and drives a request only when its size and its
address fit the bus. One that does not fit ends in its first cycle with an error and changes nothing
else. The errors stay until a write of `sbcs` clears them, and the bus master raises them while it
is busy, when no write of `sbcs` is accepted. `errorDiscipline` gathers this for every run on a bus
that conforms.
-/

set_option autoImplicit false
set_option relaxedAutoImplicit false

namespace RiscvDebug.DmSba

open Foundations

variable {cfg : Config}

/-- The offset of the address in the element that it lies in. -/
theorem sbaddress_and_not_mask (i : Inputs cfg) :
    i.sbaddress &&& ~~~ sbaccessMask i =
      BitVec.ofNat cfg.busWidth (i.sbaddress.toNat % 2 ^ i.sbaccess.toNat) := by
  apply BitVec.eq_of_getLsbD_eq
  intro index hindex
  rw [sbaccessMask, BitVec.getLsbD_and, BitVec.getLsbD_not, BitVec.getLsbD_shiftLeft,
    BitVec.getLsbD_ofNat, Nat.testBit_mod_two_pow, BitVec.testBit_toNat]
  by_cases hlow : index < i.sbaccess.toNat
  · simp [hindex, hlow]
  · simp [hindex, hlow, show index - i.sbaccess.toNat < cfg.busWidth by omega]

theorem alignError_iff (i : Inputs cfg) :
    alignError i = true ↔ i.sbaddress.toNat % 2 ^ i.sbaccess.toNat ≠ 0 := by
  have hlt : i.sbaddress.toNat % 2 ^ i.sbaccess.toNat < 2 ^ cfg.busWidth :=
    (Nat.mod_le _ _).trans_lt i.sbaddress.isLt
  rw [alignError, sbaddress_and_not_mask, bne_iff_ne, ne_eq, ne_eq, ← BitVec.toNat_inj,
    BitVec.toNat_ofNat, Nat.mod_eq_of_lt hlt]
  simp

theorem sizeError_iff (i : Inputs cfg) :
    sizeError i = true ↔ ¬ i.sbaccess.toNat ≤ cfg.beIdxWidth := by
  rw [sizeError, decide_eq_true_eq, not_le]

end RiscvDebug.DmSba

namespace RiscvDebug.DmTop

open Foundations

variable {cfg : Config}

/-! ### Sizes and addresses -/

/-- The selected size is that of a bus word at most. -/
def SizeFits (s : Regs cfg) : Prop := s.csrs.sbcs.sbaccess.toNat ≤ cfg.beIdxWidth

/-- The address is a multiple of the selected size. -/
def Aligned (s : Regs cfg) : Prop :=
  (busAddress s).toNat % 2 ^ s.csrs.sbcs.sbaccess.toNat = 0

instance (s : Regs cfg) : Decidable (SizeFits s) := inferInstanceAs (Decidable (_ ≤ _))
instance (s : Regs cfg) : Decidable (Aligned s) := inferInstanceAs (Decidable (_ = _))

theorem alignError_iff (s : Regs cfg) (i : Inputs cfg) :
    DmSba.alignError (sbaInputs s i) = true ↔ ¬ Aligned s := DmSba.alignError_iff _

theorem sizeError_iff (s : Regs cfg) (i : Inputs cfg) :
    DmSba.sizeError (sbaInputs s i) = true ↔ ¬ SizeFits s := DmSba.sizeError_iff _

theorem refused_eq_false_iff (s : Regs cfg) (i : Inputs cfg) :
    refused s i = false ↔ SizeFits s ∧ Aligned s := by
  rw [refused, Bool.or_eq_false_iff, ← Bool.not_eq_true, ← Bool.not_eq_true, alignError_iff,
    sizeError_iff, not_not, not_not]

/-! ### Triggers -/

/-- A read of one half of the bus data that reaches the register. -/
def servesRead (s : Regs cfg) (i : Inputs cfg) (csr : DmCsr) : Bool :=
  DmCsrs.readsCsr s.csrs (csrInputs s i) csr && DmCsrs.busIdle s.csrs (csrInputs s i)

/-- The host makes an access of the bus registers that asks for a transfer. -/
def asksTransfer (s : Regs cfg) (i : Inputs cfg) : Bool :=
  servesWrite s i .sbData0 || (servesRead s i .sbData0 && s.csrs.sbcs.sbreadondata) ||
    (servesWrite s i .sbAddress0 && s.csrs.sbcs.sbreadonaddr)

/-- The strobes follow the accesses of the host, unless an error is pending. -/
theorem strobes_eq_serves (s : Regs cfg) (i : Inputs cfg) :
    strobes s i = ⟨servesWrite s i .sbAddress0 && s.csrs.sbcs.sberror == 0,
      servesRead s i .sbData0 && s.csrs.sbcs.sberror == 0,
      servesWrite s i .sbData0 && s.csrs.sbcs.sberror == 0⟩ := strobes_top s i

/-- The bus master leaves Idle when it is asked for a transfer and no error is pending. -/
theorem leaves_idle_iff {s : Regs cfg} (i : Inputs cfg) (hidle : s.sba = .idle) :
    (next s i).sba ≠ .idle ↔ asksTransfer s i = true ∧ s.csrs.sbcs.sberror = 0 := by
  have hreadonaddr : (sbaInputs s i).sbreadonaddr = s.csrs.sbcs.sbreadonaddr := rfl
  have hreadondata : (sbaInputs s i).sbreadondata = s.csrs.sbcs.sbreadondata := rfl
  have hclear : s.csrs.sbcs.sberror = 0 ↔ (s.csrs.sbcs.sberror == 0) = true := beq_iff_eq.symm
  rw [sba_next_of_idle i hidle, ne_eq, DmSba.idleNext_eq_idle_iff, strobes_eq_serves, hreadonaddr,
    hreadondata, asksTransfer, hclear]
  generalize (s.csrs.sbcs.sberror == 0) = clear
  cases clear with
  | false => simp
  | true =>
    cases servesWrite s i .sbData0 <;> cases servesRead s i .sbData0 <;>
      cases servesWrite s i .sbAddress0 <;> cases s.csrs.sbcs.sbreadonaddr <;>
      cases s.csrs.sbcs.sbreadondata <;> decide

/-- A pending busy error keeps every access of the host from the bus registers. -/
theorem sbbusyerror_of_asksTransfer {s : Regs cfg} {i : Inputs cfg}
    (hasks : asksTransfer s i = true) : s.csrs.sbcs.sbbusyerror = false := by
  cases hbus : DmCsrs.busIdle s.csrs (csrInputs s i) with
  | true => simpa using (Bool.and_eq_true_iff.mp hbus).2
  | false =>
    rw [asksTransfer, servesWrite, servesRead, servesWrite, hbus] at hasks
    simp at hasks

/-! ### Errors -/

/-- The bus master raises an error. -/
def raisesError (s : Regs cfg) (i : Inputs cfg) : Bool := (sbaSignals s i).sberrorValid

/-- An accepted write of `sbcs`. -/
def writesSbcs (s : Regs cfg) (i : Inputs cfg) : Bool := writes s i .sbcs && s.sba == .idle

/-- An accepted write of `sbcs` that clears `sberror`. -/
def clearsSberror (s : Regs cfg) (i : Inputs cfg) : Bool :=
  writesSbcs s i && (Sbcs.ofBits i.dmiReq.data).sberror != 0

/-- An accepted write of `sbcs` that clears `sbbusyerror`. -/
def clearsSbbusyerror (s : Regs cfg) (i : Inputs cfg) : Bool :=
  writesSbcs s i && (Sbcs.ofBits i.dmiReq.data).sbbusyerror

/-- An access of the bus registers meets a busy bus master. -/
def meetsBusy (s : Regs cfg) (i : Inputs cfg) : Bool :=
  s.sba != .idle && (DmCsrs.needsIdleBus s.csrs (csrInputs s i) || writes s i .sbcs)

theorem not_sbbusy_eq (s : Regs cfg) (i : Inputs cfg) :
    (!(csrInputs s i).sbbusy) = (s.sba == .idle) := by
  rw [sbbusy_eq, bne, Bool.not_not]

theorem sberror_next {s : Regs cfg} (i : Inputs cfg) (hactive : s.csrs.dmcontrol.dmactive = true) :
    (next s i).csrs.sbcs.sberror =
      if raisesError s i then (sbaSignals s i).sberror
      else if clearsSberror s i then 0 else s.csrs.sbcs.sberror := by
  rw [(busRegisters_next_of_active i hactive).2.2, csrSignals, DmCsrs.sberror_eq, not_sbbusy_eq]
  rfl

theorem sbbusyerror_next {s : Regs cfg} (i : Inputs cfg)
    (hactive : s.csrs.dmcontrol.dmactive = true) :
    (next s i).csrs.sbcs.sbbusyerror =
      if writesSbcs s i then
        s.csrs.sbcs.sbbusyerror && !(Sbcs.ofBits i.dmiReq.data).sbbusyerror
      else s.csrs.sbcs.sbbusyerror || meetsBusy s i := by
  rw [(busRegisters_next_of_active i hactive).2.2, csrSignals, DmCsrs.sbbusyerror_eq, not_sbbusy_eq]
  rfl

/-- The error that the bus master raises is one, and it raises none in Idle. -/
theorem raised_ne_zero {s : Regs cfg} {i : Inputs cfg} (hraises : raisesError s i = true) :
    (sbaSignals s i).sberror ≠ 0 ∧ s.sba ≠ .idle := by
  have hvalid : (((DmSba.sizeError (sbaInputs s i) || DmSba.alignError (sbaInputs s i)) &&
      s.sba != .idle) || (DmSba.completes s.sba (sbaInputs s i) &&
        (i.master.rOtherErr || i.master.rErr))) = true := hraises
  have herror : (sbaSignals s i).sberror =
      if DmSba.alignError (sbaInputs s i) && s.sba != .idle then 3
      else if DmSba.sizeError (sbaInputs s i) && s.sba != .idle then 4
      else if DmSba.completes s.sba (sbaInputs s i) then
        if i.master.rOtherErr then 7 else if i.master.rErr then 2 else 0
      else 0 := rfl
  have hbusy : s.sba ≠ .idle := by
    intro hidle
    rw [hidle] at hvalid
    simp [DmSba.completes] at hvalid
  have hne : (s.sba != .idle) = true := bne_iff_ne.mpr hbusy
  refine ⟨?_, hbusy⟩
  rw [hne, Bool.and_true] at hvalid
  rw [herror, hne, Bool.and_true, Bool.and_true]
  cases halign : DmSba.alignError (sbaInputs s i) with
  | true => simp
  | false =>
    cases hsize : DmSba.sizeError (sbaInputs s i) with
    | true => simp
    | false =>
      rw [halign, hsize, Bool.or_false, Bool.false_or, Bool.and_eq_true_iff] at hvalid
      rw [hvalid.1]
      cases hother : i.master.rOtherErr with
      | true => simp
      | false =>
        rw [hother, Bool.false_or] at hvalid
        simp [hvalid.2]

/-- A set error survives every cycle that does not clear it. -/
theorem sberror_next_ne_zero {s : Regs cfg} (i : Inputs cfg)
    (hactive : s.csrs.dmcontrol.dmactive = true) (hset : s.csrs.sbcs.sberror ≠ 0)
    (hkept : clearsSberror s i = false) : (next s i).csrs.sbcs.sberror ≠ 0 := by
  rw [sberror_next i hactive]
  split_ifs with hraises hclears
  · exact (raised_ne_zero hraises).1
  · rw [hkept] at hclears
    exact absurd hclears Bool.false_ne_true
  · exact hset

theorem sbbusyerror_next_of_set {s : Regs cfg} (i : Inputs cfg)
    (hactive : s.csrs.dmcontrol.dmactive = true) (hset : s.csrs.sbcs.sbbusyerror = true)
    (hkept : clearsSbbusyerror s i = false) : (next s i).csrs.sbcs.sbbusyerror = true := by
  rw [sbbusyerror_next i hactive, hset]
  cases hwrites : writesSbcs s i with
  | false => rfl
  | true =>
    rw [clearsSbbusyerror, hwrites, Bool.true_and] at hkept
    rw [hkept]
    rfl

theorem sbbusyerror_next_of_meetsBusy {s : Regs cfg} {i : Inputs cfg}
    (hactive : s.csrs.dmcontrol.dmactive = true) (hmeets : meetsBusy s i = true) :
    (next s i).csrs.sbcs.sbbusyerror = true := by
  have hbusy : (s.sba == .idle) = false := by
    simpa using (Bool.and_eq_true_iff.mp hmeets).1
  rw [sbbusyerror_next i hactive, writesSbcs, hbusy, Bool.and_false, if_neg Bool.false_ne_true,
    hmeets, Bool.or_true]

/-! ### Refused accesses -/

/-- The registers that the trigger of an access leaves fit the bus. -/
theorem sbaddr_next_fits {s : Regs cfg} (i : Inputs cfg)
    (hactive : s.csrs.dmcontrol.dmactive = true) (hupper : servesWrite s i .sbAddress1 = false) :
    (busAddress (next s i)).setWidth 64 = (next s i).csrs.sbaddr := by
  unfold servesWrite writes at hupper
  rw [busAddress, (busRegisters_next_of_active i hactive).1, csrSignals, DmCsrs.sbaddr_eq, hupper,
    if_neg Bool.false_ne_true]
  split_ifs
  · rcases cfg.busWidth_eq with hwidth | hwidth
    · apply BitVec.eq_of_getLsbD_eq
      intro index hindex
      simp only [BitVec.getLsbD_setWidth, BitVec.getLsbD_append, BitVec.getLsbD_extractLsb', hindex,
        hwidth]
      by_cases hlow : index < 32
      · simp [hlow]
      · simp [hlow, BitVec.getLsbD_of_ge _ (32 + (index - 32)) (show cfg.busWidth ≤ _ by omega)]
    · apply BitVec.eq_of_getLsbD_eq
      intro index hindex
      simp only [BitVec.getLsbD_setWidth, hindex, hwidth]
      simp
  · rw [cfg.setWidth_setWidth_busWidth]

/-- An access that asks for a transfer is one of the lower half of the data or of the address. -/
theorem addressed_of_asksTransfer {s : Regs cfg} {i : Inputs cfg}
    (hasks : asksTransfer s i = true) :
    DmCsrs.addressed (csrInputs s i) = .sbData0 ∨
      DmCsrs.addressed (csrInputs s i) = .sbAddress0 := by
  simp only [asksTransfer, servesWrite, servesRead, writes, DmCsrs.writes, DmCsrs.readsCsr,
    Bool.or_eq_true, Bool.and_eq_true, beq_iff_eq] at hasks
  tauto

/-- Such an access writes no other register. -/
theorem not_writes_of_asksTransfer {s : Regs cfg} {i : Inputs cfg} {csr : DmCsr}
    (hasks : asksTransfer s i = true) (hother : csr ≠ .sbData0 ∧ csr ≠ .sbAddress0) :
    writes s i csr = false := by
  rw [writes, DmCsrs.writes]
  rcases addressed_of_asksTransfer hasks with haddressed | haddressed
  · rw [haddressed, beq_false_of_ne hother.1.symm, Bool.and_false]
  · rw [haddressed, beq_false_of_ne hother.2.symm, Bool.and_false]

theorem servesWrite_of_asksTransfer {s : Regs cfg} {i : Inputs cfg} {csr : DmCsr}
    (hasks : asksTransfer s i = true) (hother : csr ≠ .sbData0 ∧ csr ≠ .sbAddress0) :
    servesWrite s i csr = false := by
  rw [servesWrite, not_writes_of_asksTransfer hasks hother, Bool.false_and]

/-- The first cycle of an access that does not fit is its last one. -/
theorem next_of_refused {s : Regs cfg} {i : Inputs cfg} (hactive : s.csrs.dmcontrol.dmactive = true)
    (hbusy : s.sba ≠ .idle) (hrefused : refused s i = true) (hunanswered : i.master.rValid = false)
    (hfits : (busAddress s).setWidth 64 = s.csrs.sbaddr) :
    (masterRequest s i).req = false ∧ (next s i).sba = .idle ∧
      (next s i).csrs.sbcs.sberror = (if Aligned s then 4 else 3) ∧
      (next s i).csrs.sbaddr = s.csrs.sbaddr ∧ (next s i).csrs.sbdata = s.csrs.sbdata := by
  have hraises : raisesError s i = true := by
    show (((DmSba.sizeError (sbaInputs s i) || DmSba.alignError (sbaInputs s i)) &&
      s.sba != .idle) || _) = true
    rw [← refused, hrefused, bne_iff_ne.mpr hbusy]
    rfl
  have hincomplete : completes s i = false := by
    show (_ && i.master.rValid) = false
    rw [hunanswered, Bool.and_false]
  refine ⟨?_, ?_, ?_, ?_, ?_⟩
  · rw [← Bool.not_eq_true, req_iff, hrefused]
    simp
  · rw [sba_next_of_busy i hbusy, if_pos hrefused]
  · have herror : (sbaSignals s i).sberror =
        if DmSba.alignError (sbaInputs s i) && s.sba != .idle then 3
        else if DmSba.sizeError (sbaInputs s i) && s.sba != .idle then 4
        else if DmSba.completes s.sba (sbaInputs s i) then
          if i.master.rOtherErr then 7 else if i.master.rErr then 2 else 0
        else 0 := rfl
    rw [sberror_next i hactive, if_pos hraises, herror, bne_iff_ne.mpr hbusy, Bool.and_true,
      Bool.and_true]
    by_cases haligned : Aligned s
    · have halign : DmSba.alignError (sbaInputs s i) = false := by
        rw [← Bool.not_eq_true, alignError_iff, not_not]
        exact haligned
      have hsize : DmSba.sizeError (sbaInputs s i) = true := by
        rw [refused, halign, Bool.or_false] at hrefused
        exact hrefused
      rw [halign, hsize, if_pos haligned]
      rfl
    · rw [(alignError_iff s i).mpr haligned, if_neg haligned]
      rfl
  · have hkept := busAddress_next_of_busy i hactive hbusy
    have hupper := servesWrite_of_busy i hbusy .sbAddress1
    rw [addrIncr, hincomplete, Bool.false_and, if_neg Bool.false_ne_true, add_zero] at hkept
    rw [← sbaddr_next_fits i hactive hupper, hkept, hfits]
  · rw [sbdata_next i hactive, hunanswered, servesWrite_of_busy i hbusy,
      servesWrite_of_busy i hbusy]
    rfl

/-! ### Runs -/

/-- A request is driven only for an access that has been triggered without a pending error and fits
the bus. An access that does not fit drives none in the cycle of its trigger and in the next one,
after which the bus master is idle and only the error has changed. A pending error stays, and no
access starts, until a write of `sbcs` clears it. What the bus master raises is set in the next
cycle. -/
structure ErrorDiscipline (inputs : ℕ → Inputs cfg) : Prop where
  requests : ∀ first last, first < last → (run inputs first).csrs.dmcontrol.dmactive = true →
    (run inputs first).sba = .idle → InFlight inputs (first + 1) last →
    (masterRequest (run inputs last) (inputs last)).req = true →
      asksTransfer (run inputs first) (inputs first) = true ∧
        (run inputs first).csrs.sbcs.sberror = 0 ∧
        (run inputs first).csrs.sbcs.sbbusyerror = false ∧
        SizeFits (run inputs last) ∧ Aligned (run inputs last)
  refusals : ∀ time, (run inputs time).csrs.dmcontrol.dmactive = true →
    (run inputs time).sba = .idle → InFlight inputs (time + 1) (time + 1) →
    ¬ (SizeFits (run inputs (time + 1)) ∧ Aligned (run inputs (time + 1))) →
      (masterRequest (run inputs time) (inputs time)).req = false ∧
        (masterRequest (run inputs (time + 1)) (inputs (time + 1))).req = false ∧
        (run inputs (time + 2)).sba = .idle ∧
        (run inputs (time + 2)).csrs.sbcs.sberror =
          (if Aligned (run inputs (time + 1)) then 4 else 3) ∧
        (run inputs (time + 2)).csrs.sbaddr = (run inputs (time + 1)).csrs.sbaddr ∧
        (run inputs (time + 2)).csrs.sbdata = (run inputs (time + 1)).csrs.sbdata
  sberror : ∀ start stop, start ≤ stop →
    (∀ time, start ≤ time → time < stop → (run inputs time).csrs.dmcontrol.dmactive = true ∧
      clearsSberror (run inputs time) (inputs time) = false) →
    (run inputs start).csrs.sbcs.sberror ≠ 0 →
      (run inputs stop).csrs.sbcs.sberror ≠ 0 ∧
        ((run inputs stop).sba = .idle → (run inputs (stop + 1)).sba = .idle)
  sbbusyerror : ∀ start stop, start ≤ stop →
    (∀ time, start ≤ time → time < stop → (run inputs time).csrs.dmcontrol.dmactive = true ∧
      clearsSbbusyerror (run inputs time) (inputs time) = false) →
    (run inputs start).csrs.sbcs.sbbusyerror = true →
      (run inputs stop).csrs.sbcs.sbbusyerror = true ∧
        ((run inputs stop).sba = .idle → (run inputs (stop + 1)).sba = .idle)
  raised : ∀ time, (run inputs time).csrs.dmcontrol.dmactive = true →
    raisesError (run inputs time) (inputs time) = true →
      (run inputs (time + 1)).csrs.sbcs.sberror =
          (sbaSignals (run inputs time) (inputs time)).sberror ∧
        (run inputs (time + 1)).csrs.sbcs.sberror ≠ 0
  met : ∀ time, (run inputs time).csrs.dmcontrol.dmactive = true →
    meetsBusy (run inputs time) (inputs time) = true →
      (run inputs (time + 1)).csrs.sbcs.sbbusyerror = true

/-- An access is triggered in the cycle that leaves Idle. -/
theorem trigger_of_leaves_idle {s : Regs cfg} {i : Inputs cfg} (hidle : s.sba = .idle)
    (hleaves : (next s i).sba ≠ .idle) :
    asksTransfer s i = true ∧ s.csrs.sbcs.sberror = 0 ∧ s.csrs.sbcs.sbbusyerror = false := by
  obtain ⟨hasks, hclear⟩ := (leaves_idle_iff i hidle).mp hleaves
  exact ⟨hasks, hclear, sbbusyerror_of_asksTransfer hasks⟩

/-- A property that each active cycle without an event keeps lasts until the event. -/
theorem lasts_until {inputs : ℕ → Inputs cfg} (holds : Regs cfg → Prop)
    {event : Regs cfg → Inputs cfg → Bool} {start stop : ℕ} (hle : start ≤ stop)
    (hstep : ∀ (s : Regs cfg) (i : Inputs cfg), s.csrs.dmcontrol.dmactive = true → holds s →
      event s i = false → holds (next s i))
    (hkept : ∀ time, start ≤ time → time < stop →
      (run inputs time).csrs.dmcontrol.dmactive = true ∧
        event (run inputs time) (inputs time) = false)
    (hstart : holds (run inputs start)) : holds (run inputs stop) := by
  induction stop, hle using Nat.le_induction with
  | base => exact hstart
  | succ stop hle ih =>
    obtain ⟨hactive, hnone⟩ := hkept stop hle (Nat.lt_succ_self stop)
    rw [run_succ]
    exact hstep _ _ hactive
      (ih fun time hfirst hlast ↦ hkept time hfirst (Nat.lt_succ_of_lt hlast)) hnone

/-- The host asks for a word at an odd address, and tries to clear the error in the cycle in which
it is raised. -/
def misalignedReadRun : ℕ → Inputs oneHart :=
  script
    [(Inputs.quiet oneHart).withRequest ⟨0x10, dtmWrite, 0x00000001⟩,
      (Inputs.quiet oneHart).withRequest ⟨0x38, dtmWrite, 0x00140000⟩,
      (Inputs.quiet oneHart).withRequest ⟨0x39, dtmWrite, 0x00000101⟩,
      (Inputs.quiet oneHart).withRequest ⟨0x38, dtmWrite, 0x00407000⟩]

end RiscvDebug.DmTop
