import RiscvDebug.DebugModule.DmTopCycles

/-!
# What the harts read

A read of the debug memory is answered in the next cycle, in the lane of the bus that the address
selects (`byteAt_rdataOut`). The flag byte of a hart shows the offers of the hart control to that
hart (`flagByte_next`): since the flags cover 1024 harts and the row is compared with twelve bits
of the selection, the byte belongs to the hart whose index is the selection modulo 4096.
-/

set_option autoImplicit false
set_option relaxedAutoImplicit false

namespace RiscvDebug

open Foundations

namespace DmMem

variable {cfg : Config}

/-- The number of byte lanes of the bus. -/
def busBytes (cfg : Config) : ℕ := cfg.busWidth / 8

/-- The access reads the bus word that holds the byte at an address of the debug memory. -/
def SlaveAccess.readsByte (a : SlaveAccess cfg) (address : ℕ) : Bool :=
  a.reads && a.offset.toNat / busBytes cfg == address / busBytes cfg

/-- The byte at an address of the debug memory, in the bus word of a read in the previous cycle. -/
def Regs.readByte (r : Regs cfg) (address : ℕ) : BitVec 8 :=
  byteAt r.rdataOut (address % busBytes cfg)

/-- The lane of the 64-bit word that a lane of the bus shows. -/
theorem byteAt_rdataOut (r : Regs cfg) {lane : ℕ} (hlane : lane < busBytes cfg) :
    byteAt r.rdataOut lane =
      byteAt r.wordMux (if cfg.busWidth = 64 then lane
        else if r.wordEnable32 then 4 + lane else lane) := by
  unfold busBytes at hlane
  have hfits : 8 * lane + 8 ≤ cfg.busWidth := by omega
  unfold Regs.rdataOut
  split_ifs with hwide hupper
  · exact byteAt_setWidth _ _ hfits
  · rw [byteAt_setWidth _ _ hfits]
    refine byteAt_extractLsb' r.wordMux 4 lane 32 ?_
    have hnarrow := cfg.busWidth_eq.resolve_right hwide
    omega
  · rw [byteAt_setWidth _ _ hfits]
    have hnarrow := cfg.busWidth_eq.resolve_right hwide
    rw [show byteAt (r.wordMux.extractLsb' 0 32) lane = byteAt r.wordMux (0 + lane) from
      byteAt_extractLsb' r.wordMux 0 lane 32 (by omega), Nat.zero_add]

/-- The byte a read returns comes from the same lane of the 64-bit row of its address. -/
theorem readByte_next {r : Regs cfg} {i : Inputs cfg} {address : ℕ}
    (hreads : i.slave.readsByte address = true) :
    (next r i).readByte address = byteAt (next r i).wordMux (address % 8) := by
  obtain ⟨-, hword⟩ := Bool.and_eq_true_iff.mp hreads
  rw [beq_iff_eq] at hword
  have hbytes : busBytes cfg = 4 ∨ busBytes cfg = 8 := by
    rcases cfg.busWidth_eq with hwidth | hwidth <;> simp [busBytes, hwidth]
  unfold Regs.readByte
  rw [byteAt_rdataOut _ (Nat.mod_lt _ (by omega))]
  congr 1
  have hupper : (next r i).wordEnable32 = i.slave.addr.getLsbD 2 := rfl
  rw [hupper]
  rcases cfg.busWidth_eq with hwidth | hwidth
  · have hfour : busBytes cfg = 4 := by simp [busBytes, hwidth]
    have hoffset : i.slave.offset.getLsbD 2 = i.slave.addr.getLsbD 2 := by
      simp [SlaveAccess.offset]
    rw [hfour] at hword ⊢
    rw [← hoffset, if_neg (by omega), BitVec.getLsbD, Nat.testBit_eq_decide_div_mod_eq]
    by_cases hodd : address / 4 % 2 = 1
    · rw [show i.slave.offset.toNat / 2 ^ 2 % 2 = 1 by omega]
      simp only [decide_true, if_true]
      omega
    · rw [show i.slave.offset.toNat / 2 ^ 2 % 2 = 0 by omega]
      simp only [zero_ne_one, decide_false, Bool.false_eq_true, if_false]
      omega
  · have height : busBytes cfg = 8 := by simp [busBytes, hwidth]
    rw [if_pos hwidth, height]

/-! ### Rows of the debug memory -/

theorem dataEndAddr_toNat (cfg : Config) :
    (dataEndAddr cfg).toNat = 0x380 + 4 * cfg.dataCount - 1 := by
  have hlow := cfg.two_le_dataCount
  have hhigh := cfg.dataCount_le
  have hbase : dataAddr.toNat = 0x380 := rfl
  rw [dataEndAddr, BitVec.toNat_add, BitVec.toNat_ofNat, hbase]
  omega

/-- Below the ROM a read returns the word of the row that its offset selects. -/
theorem wordMux_next {r : Regs cfg} {i : Inputs cfg} (hlow : i.slave.offset.toNat < 0x800) :
    (next r i).wordMux = rdataNext r i := by
  have hrom : (next r i).fwdRom = false := by
    refine decide_eq_false fun hge ↦ ?_
    have hle : 0x800 ≤ i.slave.offset.toNat := hge
    omega
  show (if (next r i).fwdRom then _ else (next r i).rdata) = _
  rw [hrom]
  rfl

/-- A read of the flags. -/
theorem rdataNext_flags {r : Regs cfg} {i : Inputs cfg} (hreads : i.slave.reads = true)
    (hlow : 0x400 ≤ i.slave.offset.toNat) (hhigh : i.slave.offset.toNat < 0x800) :
    rdataNext r i = flagsRdata r i := by
  have hdata := dataEndAddr_toNat cfg
  have hcount := cfg.dataCount_le
  have hwhere : i.slave.offset ≠ whereToAddr := by
    intro heq
    rw [heq] at hlow
    exact absurd hlow (by decide)
  have hnotData : ¬ (dataBaseAddr ≤ i.slave.offset ∧ i.slave.offset ≤ dataEndAddr cfg) := by
    rintro ⟨-, hle⟩
    rw [BitVec.le_def] at hle
    omega
  have hnotProgBuf : ¬ (progBufBaseAddr ≤ i.slave.offset ∧ i.slave.offset ≤ progBufEndAddr) := by
    rintro ⟨-, hle⟩
    have hend : i.slave.offset.toNat ≤ 0x37f := hle
    omega
  have hnotCommand :
      ¬ (abstractCmdBaseAddr ≤ i.slave.offset ∧ i.slave.offset ≤ abstractCmdEndAddr) := by
    rintro ⟨-, hle⟩
    have hend : i.slave.offset.toNat ≤ 0x35f := hle
    omega
  have hflags : flagsBaseAddr ≤ i.slave.offset ∧ i.slave.offset ≤ flagsEndAddr := by
    refine ⟨hlow, ?_⟩
    show i.slave.offset.toNat ≤ 0x7ff
    omega
  unfold rdataNext
  simp only [hreads, if_true, if_neg hwhere, if_neg hnotData, if_neg hnotProgBuf,
    if_neg hnotCommand, if_pos hflags]

/-- A fetch of the word at WhereTo. -/
theorem whereToWord_next {r : Regs cfg} {i : Inputs cfg} (hreads : i.slave.reads = true)
    (haddress : i.slave.offset = whereToAddr) :
    (next r i).rdataOut.setWidth 32 = (whereToRdata r i).setWidth 32 := by
  have hlow : i.slave.offset.toNat < 0x800 := by
    rw [haddress]
    decide
  have hupper : (next r i).wordEnable32 = false := by
    have hbit : i.slave.offset.getLsbD 2 = false := by
      rw [haddress]
      decide
    show i.slave.addr.getLsbD 2 = false
    simpa [SlaveAccess.offset] using hbit
  have hrow : rdataNext r i = whereToRdata r i := by
    unfold rdataNext
    simp only [hreads, if_true, if_pos haddress]
  unfold Regs.rdataOut
  rw [wordMux_next hlow, hrow, hupper]
  apply BitVec.eq_of_getLsbD_eq
  intro index hindex
  rcases cfg.busWidth_eq with hwidth | hwidth <;> simp [hwidth, hindex]

/-! ### Flags -/

/-- The address of the flag byte of a hart. -/
def flagAddress (hart : ℕ) : ℕ := flagsBaseAddr.toNat + hart

/-- With at most 1024 harts an index of a hart has a flag byte. -/
theorem hartIndex_lt (hcount : cfg.nrHarts ≤ 1024) {width : ℕ} (bits : BitVec width) :
    cfg.hartIndex bits < 1024 := by
  refine (Nat.mod_lt _ (Nat.two_pow_pos _)).trans_le ?_
  unfold Config.hartSelLen
  split_ifs
  · decide
  · calc 2 ^ clog2 cfg.nrHarts ≤ 2 ^ 10 :=
        Nat.pow_le_pow_right (by decide) (clog2_le_of_le_two_pow hcount)
      _ = 1024 := by decide

/-- The row of an access is compared with that of the selected hart by clearing the low bits. -/
theorem and_rowMask (vector : BitVec 12) : (vector &&& 0xff8#12).toNat = vector.toNat / 8 * 8 := by
  have hshift : vector &&& 0xff8#12 = vector >>> 3 <<< 3 := by
    apply BitVec.eq_of_getLsbD_eq
    intro index hindex
    interval_cases index <;> simp
  rw [hshift, BitVec.toNat_shiftLeft, BitVec.toNat_ushiftRight, Nat.shiftRight_eq_div_pow,
    Nat.shiftLeft_eq]
  have hlt := vector.isLt
  omega

theorem and_laneMask (vector : BitVec 12) : (vector &&& 7#12).toNat = vector.toNat % 8 := by
  rw [BitVec.toNat_and]
  exact Nat.and_two_pow_sub_one_eq_mod vector.toNat 3

/-- The row of an access to the flags is that of a hart when their indices agree. -/
theorem flagRow_iff {offset selection : BitVec 12} (hlow : flagsBaseAddr ≤ offset) :
    (offset >>> 3 <<< 3) - flagsBaseAddr = selection &&& 0xff8#12 ↔
      (offset.toNat - flagsBaseAddr.toNat) / 8 = selection.toNat / 8 := by
  have hbase : flagsBaseAddr.toNat = 0x400 := rfl
  have hle : 0x400 ≤ offset.toNat := hlow
  have hlt := offset.isLt
  have hlt' := selection.isLt
  rw [← BitVec.toNat_inj, and_rowMask, BitVec.toNat_sub, BitVec.toNat_shiftLeft,
    BitVec.toNat_ushiftRight, Nat.shiftRight_eq_div_pow, Nat.shiftLeft_eq, hbase]
  omega

/-- The word a read of the flags returns: the offers in the lane of the selected hart. -/
theorem flagByte_next {r : Regs cfg} {i : Inputs cfg} {hart : ℕ} (hhart : hart < 1024)
    (hreads : i.slave.readsByte (flagAddress hart) = true) :
    (next r i).readByte (flagAddress hart) =
      if hart = i.selected % 4096 then
        0#6 ++ bit (hartCtrlQueue r i).resume ++ bit (hartCtrlQueue r i).go
      else 0 := by
  have hbytes : busBytes cfg = 4 ∨ busBytes cfg = 8 := by
    rcases cfg.busWidth_eq with hwidth | hwidth <;> simp [busBytes, hwidth]
  have haddress : flagAddress hart = 1024 + hart := rfl
  obtain ⟨hread, hword⟩ := Bool.and_eq_true_iff.mp hreads
  rw [beq_iff_eq, haddress] at hword
  have hrange : 1024 ≤ i.slave.offset.toNat ∧ i.slave.offset.toNat < 2048 := by
    rcases hbytes with hnarrow | hwide
    · rw [hnarrow] at hword
      omega
    · rw [hwide] at hword
      omega
  obtain ⟨hlow, hhigh⟩ := hrange
  have hrow : (i.slave.offset.toNat - 1024) / 8 = hart / 8 := by
    rcases hbytes with h | h <;> rw [h] at hword <;> omega
  rw [readByte_next hreads, wordMux_next hhigh, rdataNext_flags hread hlow hhigh, haddress]
  have hselection : (BitVec.ofNat 12 i.selected).toNat = i.selected % 4096 := BitVec.toNat_ofNat _ _
  have hsameRow : i.slave.offset >>> 3 <<< 3 - flagsBaseAddr =
      BitVec.ofNat 12 i.selected &&& 0xff8#12 ↔ hart / 8 = i.selected % 4096 / 8 := by
    rw [flagRow_iff hlow, hselection, ← hrow]
    rfl
  simp only [flagsRdata, and_laneMask, hselection]
  split_ifs with hfound hhart hhart
  · rw [byteAt_shiftLeft_setWidth _ (by omega), if_pos (by omega)]
  · have hrows := hsameRow.mp hfound
    rw [byteAt_shiftLeft_setWidth _ (by omega), if_neg (by omega)]
  · exact absurd (hsameRow.mpr (by omega)) hfound
  · exact byteAt_zero _

end DmMem

namespace DmTop

variable {cfg : Config}

/-- The flag byte of a hart shows the offers to the selected hart. -/
theorem flagByte_next {s : Regs cfg} {i : Inputs cfg} {hart : ℕ} (hhart : hart < 1024)
    (hreads : i.slave.readsByte (DmMem.flagAddress hart) = true) :
    (next s i).mem.readByte (DmMem.flagAddress hart) =
      if hart = s.selected % 4096 then 0#6 ++ bit (ctrl s i).resume ++ bit (ctrl s i).go
      else 0 :=
  DmMem.flagByte_next (r := s.mem) (i := memInputs s i (csrSignals s i).clearResumeack) hhart hreads

end DmTop

end RiscvDebug
