import RiscvDebug.Foundations.BitStreams
import RiscvDebug.Jtag.OtherScans
import RiscvDebug.Jtag.PairedOperations

/-!
# Lossless scans

A scan shifts the register that the instruction selects in its Shift-DR steps and keeps it in the
other ones (`selectedBits_next`), so the register is a queue of constant length whatever pauses the
scan makes. What TDO presents and what the register holds at Update-DR are the two ends of the
captured value followed by TDI (`losslessScan`); a scan of the bits of a DMI operation leaves that
operation in the register `dmi`.
-/

set_option autoImplicit false
set_option relaxedAutoImplicit false

namespace RiscvDebug.DmiJtag

open Foundations DmiJtagTap

/-! ### The selected register -/

/-- The width of the register that an instruction selects. -/
def registerWidth (ir : BitVec irLength) : ℕ :=
  if ir = idcode then 32 else if ir = dtmcsr then 32 else if ir = dmiAccess then 41 else 1

/-- The register that the instruction selects, the lowest bit first. -/
def Regs.selectedBits (r : Regs) : List Bool :=
  if r.tap.ir = idcode then bitsOf r.tap.idcodeReg
  else if r.tap.ir = dtmcsr then bitsOf r.dtmcs
  else if r.tap.ir = dmiAccess then bitsOf r.dr
  else [r.tap.bypassReg]

theorem length_selectedBits (r : Regs) : r.selectedBits.length = registerWidth r.tap.ir := by
  unfold Regs.selectedBits registerWidth
  split_ifs
  · exact length_bitsOf _
  · exact length_bitsOf _
  · exact length_bitsOf _
  · rfl

section Cycle

variable (idcodeValue : BitVec 32) {r : Regs} {i : Inputs}

/-- The steps between Capture-DR and Update-DR. -/
def Regs.betweenStrobes (r : Regs) : Prop :=
  r.tap.tapState ∈ [TapState.shiftDr, TapState.exit1Dr, TapState.pauseDr, TapState.exit2Dr]

theorem Regs.betweenStrobes.ne {state : TapState} (hbetween : r.betweenStrobes)
    (hstate : state ∉ [TapState.shiftDr, TapState.exit1Dr, TapState.pauseDr, TapState.exit2Dr]) :
    (r.tap.tapState == state) = false := by
  refine beq_eq_false_iff_ne.mpr fun heq ↦ hstate ?_
  rw [← heq]
  exact hbetween

/-- The bit that a Shift-DR step takes or presents. -/
def Regs.shiftDrBit (r : Regs) (bit : Bool) : List Bool := if r.tap.shiftDr then [bit] else []

/-- A register that a Shift-DR step shifts and any other step keeps. -/
theorem bitsOf_step (width : ℕ) (shifts bit : Bool) (word : BitVec (1 + width)) :
    bitsOf word ++ (if shifts then [bit] else []) =
      (if shifts then [word.getLsbD 0] else []) ++
        bitsOf (if shifts then BitVec.ofBool bit ++ word.extractLsb' 1 width else word) := by
  cases shifts with
  | true => exact bitsOf_shift word bit
  | false => exact List.append_nil _

/-- Between the strobes nothing but a shift reaches the scan registers. -/
theorem next_of_betweenStrobes (htrst : i.trst = false) (hbetween : r.betweenStrobes) :
    (next r i idcodeValue).tap.ir = r.tap.ir ∧
      (next r i idcodeValue).tap.idcodeReg =
        (if r.tap.shiftDr && r.tap.idcodeSelect then
          BitVec.ofBool i.pins.tdi ++ r.tap.idcodeReg.extractLsb' 1 31 else r.tap.idcodeReg) ∧
      (next r i idcodeValue).tap.bypassReg =
        (if r.tap.shiftDr && r.tap.bypassSelect then i.pins.tdi else r.tap.bypassReg) ∧
      (next r i idcodeValue).dtmcs =
        (if r.tap.shiftDr && r.tap.dtmcsSelect then
          BitVec.ofBool i.pins.tdi ++ r.dtmcs.extractLsb' 1 31 else r.dtmcs) ∧
      (next r i idcodeValue).dr =
        (if r.tap.shiftDr && r.tap.dmiSelect then
          BitVec.ofBool i.pins.tdi ++ r.dr.extractLsb' 1 40 else r.dr) := by
  have hcapture : r.tap.captureDr = false := hbetween.ne (by decide)
  have hupdateIr : r.tap.updateIr = false := hbetween.ne (by decide)
  have hreset : r.tap.testLogicReset = false := hbetween.ne (by decide)
  have hupdate : r.tap.updateDr = false := hbetween.ne (by decide)
  have hclear : r.dmiClear = false := by
    rw [Regs.dmiClear, Regs.updatesDtmcs, hreset, hupdate, Bool.and_false, Bool.false_and]
    rfl
  rw [next, htrst, if_neg Bool.false_ne_true]
  refine ⟨?_, ?_, ?_, ?_, ?_⟩
  · show irNext r.tap = r.tap.ir
    simp only [irNext, hupdateIr, hreset, Bool.false_eq_true, if_false]
  · show idcodeNext idcodeValue r.tap i.pins = _
    simp only [idcodeNext, hcapture, hreset, Bool.false_and, Bool.false_eq_true, if_false]
  · show bypassNext r.tap i.pins = _
    simp only [bypassNext, hcapture, hreset, Bool.false_and, Bool.false_eq_true, if_false]
  · show dtmcsNext r i = _
    simp only [dtmcsNext, hcapture, Bool.false_and, Bool.false_eq_true, if_false]
  · show drNext r i = _
    simp only [drNext, hcapture, hclear, Bool.false_and, Bool.false_eq_true, if_false]

/-- Between the strobes a step conserves the bits of the selected register: a Shift-DR step presents
the lowest one and takes TDI in, and the other steps keep the register. -/
theorem selectedBits_next (htrst : i.trst = false) (hbetween : r.betweenStrobes) :
    r.selectedBits ++ r.shiftDrBit i.pins.tdi =
      r.shiftDrBit (tdo r) ++ (next r i idcodeValue).selectedBits := by
  obtain ⟨hir, hidcode, hbypass, hdtmcs, hdr⟩ := next_of_betweenStrobes idcodeValue htrst hbetween
  have hshiftIr : r.tap.shiftIr = false := hbetween.ne (by decide)
  have htdo : tdo r = if r.tap.ir = idcode then r.tap.idcodeReg.getLsbD 0
      else if r.tap.ir = dtmcsr then r.dtmcs.getLsbD 0
      else if r.tap.ir = dmiAccess then r.dr.getLsbD 0
      else r.tap.bypassReg := by
    rw [tdo, tdoMux, hshiftIr, if_neg Bool.false_ne_true]
  rw [Regs.selectedBits, Regs.selectedBits, Regs.shiftDrBit, Regs.shiftDrBit, htdo, hir, hidcode,
    hbypass, hdtmcs, hdr]
  unfold DmiJtagTap.Regs.bypassSelect DmiJtagTap.Regs.dmiSelect DmiJtagTap.Regs.dtmcsSelect
    DmiJtagTap.Regs.idcodeSelect
  by_cases hidcodeIr : r.tap.ir = idcode
  · simp only [hidcodeIr, if_true, beq_self_eq_true, Bool.and_true]
    exact bitsOf_step 31 _ _ _
  by_cases hdtmcsIr : r.tap.ir = dtmcsr
  · simp only [hdtmcsIr, show ¬ dtmcsr = idcode by decide, if_true, if_false, beq_self_eq_true,
      Bool.and_true]
    exact bitsOf_step 31 _ _ _
  by_cases hdmiIr : r.tap.ir = dmiAccess
  · simp only [hdmiIr, show ¬ dmiAccess = idcode by decide, show ¬ dmiAccess = dtmcsr by decide,
      if_true, if_false, beq_self_eq_true, Bool.and_true]
    exact bitsOf_step 40 _ _ _
  · have hbypassIr : (!(r.tap.ir == dmiAccess) && !(r.tap.ir == dtmcsr) && !(r.tap.ir == idcode)) =
        true := by
      simp [hidcodeIr, hdtmcsIr, hdmiIr]
    simp only [hidcodeIr, hdtmcsIr, hdmiIr, if_false, hbypassIr, Bool.and_true]
    cases r.tap.shiftDr with
    | true => rfl
    | false => rfl

end Cycle

/-! ### Scans with pauses -/

section Scans

variable (idcodeValue : BitVec 32) (start : Regs) (inputs : ℕ → Inputs) (capture update : ℕ)

/-- The bits of the Shift-DR steps of a scan, in their order. -/
def shiftDrBits (bit : ℕ → Bool) : List Bool :=
  history (fun step ↦ (runFrom idcodeValue start inputs (capture + 1 + step)).shiftDrBit
    (bit (capture + 1 + step))) (update - (capture + 1))

/-- The bits on TDI. -/
def tdiBits : List Bool :=
  shiftDrBits idcodeValue start inputs capture update fun time ↦ (inputs time).pins.tdi

/-- The bits on TDO. -/
def tdoBits : List Bool :=
  shiftDrBits idcodeValue start inputs capture update
    fun time ↦ tdo (runFrom idcodeValue start inputs time)

/-- The captured value, followed by the bits on TDI. -/
def scanStream : List Bool :=
  (runFrom idcodeValue start inputs (capture + 1)).selectedBits ++
    tdiBits idcodeValue start inputs capture update

/-- `write_data_packed`, the word that the testbench's `write_dmi` and `read_dmi` scan in. -/
def writeDataPacked (address : BitVec 7) (data : BitVec 32) (op : BitVec 2) : BitVec 41 :=
  address ++ data ++ op

/-- A scan loses no bit: TDO presents the front of the stream, one bit for each bit on TDI, and the
selected register holds the back of it at Update-DR. A word that the testbench packs arrives as its
operation. -/
structure LosslessScan : Prop where
  captured : (runFrom idcodeValue start inputs (capture + 1)).selectedBits.length =
    registerWidth start.tap.ir
  presented : tdoBits idcodeValue start inputs capture update =
    (scanStream idcodeValue start inputs capture update).take
      (tdiBits idcodeValue start inputs capture update).length
  held : (runFrom idcodeValue start inputs update).selectedBits =
    (scanStream idcodeValue start inputs capture update).rtake (registerWidth start.tap.ir)
  operation : start.tap.ir = dmiAccess → ∀ (address : BitVec 7) (data : BitVec 32) (op : BitVec 2),
    tdiBits idcodeValue start inputs capture update = bitsOf (writeDataPacked address data op) →
      Dmi.ofBits (runFrom idcodeValue start inputs update).dr = ⟨address, data, op⟩

theorem ofBits_writeDataPacked (address : BitVec 7) (data : BitVec 32) (op : BitVec 2) :
    Dmi.ofBits (writeDataPacked address data op) = ⟨address, data, op⟩ :=
  ofBits_bits ⟨address, data, op⟩

variable {idcodeValue start inputs capture update}

theorem losslessScan (hscan : DrScan idcodeValue start inputs capture update) :
    LosslessScan idcodeValue start inputs capture update := by
  have horder := hscan.order
  have hend : capture + 1 + (update - (capture + 1)) = update := by omega
  have hir {time : ℕ} (hle : time ≤ update) :
      (runFrom idcodeValue start inputs time).selectedBits.length = registerWidth start.tap.ir := by
    rw [length_selectedBits, hscan.ir_eq hle]
  -- The selected register holds the bits under way.
  have hstream : (runFrom idcodeValue start inputs (capture + 1)).selectedBits ++
      tdiBits idcodeValue start inputs capture update =
        tdoBits idcodeValue start inputs capture update ++
          (runFrom idcodeValue start inputs update).selectedBits := by
    have hconserves : ∀ step < update - (capture + 1),
        (runFrom idcodeValue start inputs (capture + 1 + step)).selectedBits ++
          (runFrom idcodeValue start inputs (capture + 1 + step)).shiftDrBit
            (inputs (capture + 1 + step)).pins.tdi =
        (runFrom idcodeValue start inputs (capture + 1 + step)).shiftDrBit
            (tdo (runFrom idcodeValue start inputs (capture + 1 + step))) ++
          (runFrom idcodeValue start inputs (capture + 1 + (step + 1))).selectedBits :=
      fun step hstep ↦ selectedBits_next idcodeValue (hscan.trst _ (by omega))
        (hscan.between _ (by omega) (by omega))
    have hall := append_history_eq hconserves le_rfl
    rw [hend] at hall
    exact hall
  obtain ⟨hpresented, hheld⟩ := ends_of_constant_length hstream
    ((hir le_rfl).trans (hir (show capture + 1 ≤ update by omega)).symm)
  rw [hir (show capture + 1 ≤ update by omega)] at hheld
  refine ⟨hir (by omega), hpresented, hheld, fun haccess address data op htdi ↦ ?_⟩
  -- A word as wide as the register replaces the captured value.
  have hdr : bitsOf (runFrom idcodeValue start inputs update).dr =
      bitsOf (writeDataPacked address data op) := by
    have hselected : (runFrom idcodeValue start inputs update).selectedBits =
        bitsOf (runFrom idcodeValue start inputs update).dr := by
      rw [Regs.selectedBits, hscan.ir_eq le_rfl, haccess]
      rfl
    have hwidth : registerWidth dmiAccess =
        (bitsOf (writeDataPacked address data op)).length := by
      rw [length_bitsOf]
      rfl
    rw [← hselected, hheld, htdi, haccess, hwidth]
    exact rtake_left _ _
  rw [bitsOf_inj hdr, ofBits_writeDataPacked]

end Scans

/-! ### A scan with a pause -/

/-- An instruction scan of `dmi` and the way to Select-DR-Scan. -/
def beforeScan : Regs :=
  run 0xdb3 (drive false ([⟨false, false⟩] ++ DmiLink.scanIr dmiAccess ++ [⟨true, false⟩])) 13

/-- A scan of a write of `dmcontrol`, with a pause after the first 20 bits. -/
def pausedScan : ℕ → Inputs :=
  let bits := bitsOf (writeDataPacked 0x10 1 dtmWrite)
  drive false ([⟨false, false⟩, ⟨false, false⟩] ++ DmiLink.shiftIn (bits.take 20) ++
    [⟨false, true⟩, ⟨true, true⟩, ⟨false, true⟩] ++ DmiLink.shiftIn (bits.drop 20) ++
    [⟨true, false⟩])

theorem pausedScan_drScan : DrScan 0xdb3 beforeScan pausedScan 1 47 where
  before := by decide +kernel
  captures := by decide +kernel
  order := by decide
  between := by
    have hbetween : ∀ time < 47, 1 < time →
        (runFrom 0xdb3 beforeScan pausedScan time).tap.tapState ∈
          [TapState.shiftDr, TapState.exit1Dr, TapState.pauseDr, TapState.exit2Dr] := by
      decide +kernel
    exact fun time hafter hlt ↦ hbetween time hlt hafter
  updates := by decide +kernel
  trst := fun _ _ ↦ rfl

/-- The write arrives in spite of the pause. -/
theorem pausedScan_lossless : beforeScan.tap.tapState = .selectDrScan ∧
    LosslessScan 0xdb3 beforeScan pausedScan 1 47 ∧
      Dmi.ofBits (runFrom 0xdb3 beforeScan pausedScan 47).dr = ⟨0x10, 1, dtmWrite⟩ := by
  have hlossless := losslessScan pausedScan_drScan
  exact ⟨by decide +kernel, hlossless,
    hlossless.operation (by decide +kernel) 0x10 1 dtmWrite (by decide +kernel)⟩

end RiscvDebug.DmiJtag
