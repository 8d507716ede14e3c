import RiscvDebug.DebugModule.BusWidths

/-!
# The flag bytes of the harts

The ROM of a hart polls the byte at the base of the debug memory, plus `FlagsBaseAddr`, plus the
index of the hart (`flagBusAddress`). The flags cover 1024 harts: with no more harts each of them
reads its own offers, and with more of them hart 1024 reads the first byte of the ROM, in which both
flags are set (`loadedByte_hart1024`). `flagBytesServe_iff` is the exact condition.
-/

set_option autoImplicit false
set_option relaxedAutoImplicit false

namespace RiscvDebug.DmMem

open Foundations

variable {cfg : Config}

/-! ### The address of a flag byte -/

/-- The base of the debug memory as the ROM computes it from its program counter: `srli` and `slli`
clear the twelve low bits. It is the base address itself when that is a multiple of 4 KiB. -/
def romBase (cfg : Config) : BitVec 32 := cfg.dmBaseAddress >>> 12 <<< 12

/-- The address of the flag byte of a hart on the bus. -/
def flagBusAddress (cfg : Config) (hart : ℕ) : BitVec cfg.busWidth :=
  (romBase cfg).setWidth cfg.busWidth + BitVec.ofNat cfg.busWidth (flagAddress hart)

/-- The access reads the bus word that holds the byte at an address of the bus. -/
def SlaveAccess.loads (a : SlaveAccess cfg) (address : BitVec cfg.busWidth) : Bool :=
  a.reads && a.addr.toNat / busBytes cfg == address.toNat / busBytes cfg

/-- The byte at an address of the bus, in the bus word of a read in the previous cycle. -/
def Regs.loadedByte (r : Regs cfg) (address : BitVec cfg.busWidth) : BitVec 8 :=
  byteAt r.rdataOut (address.toNat % busBytes cfg)

/-- The base does not reach into the offset. -/
theorem flagBusAddress_mod (cfg : Config) (hart : ℕ) :
    (flagBusAddress cfg hart).toNat % 4096 = flagAddress hart % 4096 := by
  have hpage : (romBase cfg).toNat % 4096 = 0 := by
    rw [romBase, BitVec.toNat_shiftLeft, Nat.shiftLeft_eq]
    omega
  rw [flagBusAddress, BitVec.toNat_add, BitVec.toNat_setWidth, BitVec.toNat_ofNat]
  rcases cfg.busWidth_eq with hwidth | hwidth
  · rw [hwidth]
    omega
  · rw [hwidth]
    omega

/-- An address of the bus with a given offset has the same byte as the offset. -/
theorem loads_offset {a : SlaveAccess cfg} {address : BitVec cfg.busWidth} {offset : ℕ}
    (hloads : a.loads address = true) (hoffset : address.toNat % 4096 = offset) :
    a.readsByte offset = true := by
  obtain ⟨hreads, hword⟩ := Bool.and_eq_true_iff.mp hloads
  rw [beq_iff_eq] at hword
  have hlow : a.offset.toNat = a.addr.toNat % 4096 := BitVec.toNat_setWidth _ _
  refine Bool.and_eq_true_iff.mpr ⟨hreads, beq_iff_eq.mpr ?_⟩
  rcases busBytes_eq cfg with hbytes | hbytes
  · rw [hbytes] at hword ⊢
    omega
  · rw [hbytes] at hword ⊢
    omega

theorem loadedByte_eq (r : Regs cfg) {address : BitVec cfg.busWidth} {offset : ℕ}
    (hoffset : address.toNat % 4096 = offset) : r.loadedByte address = r.readByte offset := by
  have hlane : address.toNat % busBytes cfg = offset % busBytes cfg := by
    rcases busBytes_eq cfg with hbytes | hbytes
    · rw [hbytes]
      omega
    · rw [hbytes]
      omega
  rw [Regs.loadedByte, hlane]
  rfl

/-! ### Harts with and without a flag byte -/

/-- A flag byte has the go bit and the resume bit set exactly when its hart is selected and the hart
control offers go and resume. -/
structure ShowsOffers (byte : BitVec 8) (selected : Prop) (c : CtrlSignals) : Prop where
  go : byte.getLsbD 0 = true ↔ selected ∧ c.go = true
  resume : byte.getLsbD 1 = true ↔ selected ∧ c.resume = true

theorem showsOffers_ite (selected : Prop) [Decidable selected] (c : CtrlSignals) :
    ShowsOffers (if selected then 0#6 ++ bit c.resume ++ bit c.go else 0) selected c := by
  have hbits : ∀ go resume : Bool, (0#6 ++ bit resume ++ bit go).getLsbD 0 = go ∧
      (0#6 ++ bit resume ++ bit go).getLsbD 1 = resume := by decide
  obtain ⟨hgo, hresume⟩ := hbits c.go c.resume
  split_ifs with hselected
  · exact ⟨by rw [hgo]; exact (and_iff_right hselected).symm,
      by rw [hresume]; exact (and_iff_right hselected).symm⟩
  · exact ⟨by simp [hselected], by simp [hselected]⟩

/-- In every cycle of every run of the debug memory, the byte that a hart loads from the address of
its flags shows the offers to that hart. -/
def FlagBytesServe (cfg : Config) : Prop :=
  ∀ (inputs : ℕ → Inputs cfg) (time hart : ℕ), hart < cfg.nrHarts →
    (inputs time).slave.loads (flagBusAddress cfg hart) = true →
      ShowsOffers (((machine cfg).states inputs (time + 1)).loadedByte (flagBusAddress cfg hart))
        (hart = (inputs time).selected)
        (hartCtrlQueue ((machine cfg).states inputs time) (inputs time))

/-- The flag byte of each of the first 1024 harts. -/
theorem loadedByte_flags (hcount : cfg.nrHarts ≤ 1024) (r : Regs cfg) {i : Inputs cfg} {hart : ℕ}
    (hhart : hart < cfg.nrHarts) (hloads : i.slave.loads (flagBusAddress cfg hart) = true) :
    (next r i).loadedByte (flagBusAddress cfg hart) =
      if hart = i.selected then 0#6 ++ bit (hartCtrlQueue r i).resume ++ bit (hartCtrlQueue r i).go
      else 0 := by
  have hoffset : (flagBusAddress cfg hart).toNat % 4096 = flagAddress hart := by
    rw [flagBusAddress_mod]
    exact Nat.mod_eq_of_lt (show 1024 + hart < 4096 by omega)
  have hselected : i.selected < 4096 := (hartIndex_lt hcount i.hartsel).trans (by decide)
  rw [loadedByte_eq _ hoffset, flagByte_next (hhart.trans_le hcount) (loads_offset hloads hoffset),
    Nat.mod_eq_of_lt hselected]

/-- Beyond the flags lies the ROM, and its first byte has both flags set. -/
theorem loadedByte_hart1024 (r : Regs cfg) {i : Inputs cfg}
    (hloads : i.slave.loads (flagBusAddress cfg 1024) = true) :
    (next r i).loadedByte (flagBusAddress cfg 1024) = 0x6f := by
  have hoffset : (flagBusAddress cfg 1024).toNat % 4096 = 0x800 := flagBusAddress_mod cfg 1024
  have hbyte := loads_offset hloads hoffset
  obtain ⟨hreads, hword⟩ := Bool.and_eq_true_iff.mp hbyte
  rw [beq_iff_eq] at hword
  have hrow : i.slave.offset.toNat / 8 = 0x100 := by
    rcases busBytes_eq cfg with hbytes | hbytes
    · rw [hbytes] at hword
      omega
    · rw [hbytes] at hword
      omega
  have hrom : haltAddress.setWidth 12 ≤ i.slave.offset := by
    rw [BitVec.le_def, show (haltAddress.setWidth 12).toNat = 0x800 from rfl]
    omega
  rw [loadedByte_eq _ hoffset, readByte_next hbyte, wordMux_next_rom hreads hrom, hrow]
  have hwords : cfg.romWords = debugRomWords ∨ cfg.romWords = debugRomOneScratchWords := by
    unfold Config.romWords
    split_ifs
    · exact Or.inl rfl
    · exact Or.inr rfl
  unfold Config.romRdata
  rcases hwords with hwords | hwords
  · rw [hwords]
    decide
  · rw [hwords]
    decide

/-- After reset hart 1024 loads the byte at the address of its flags. -/
def loadRun (cfg : Config) (_ : ℕ) : Inputs cfg :=
  DmTop.memInputs (DmTop.Regs.reset cfg)
    { DmTop.Inputs.quiet cfg with slave := DmTop.loadAt (flagBusAddress cfg 1024) } false

/-- Hart 1024 reads go although nothing is offered after reset. -/
theorem not_flagBytesServe (hcount : 1024 < cfg.nrHarts) : ¬ FlagBytesServe cfg := by
  intro hserve
  have hloads : (loadRun cfg 0).slave.loads (flagBusAddress cfg 1024) = true :=
    beq_self_eq_true ((flagBusAddress cfg 1024).toNat / busBytes cfg)
  have hgo := (hserve (loadRun cfg) 0 1024 hcount hloads).go
  have hbyte : ((machine cfg).states (loadRun cfg) 1).loadedByte (flagBusAddress cfg 1024) =
      0x6f := loadedByte_hart1024 (Regs.reset cfg) hloads
  rw [hbyte] at hgo
  obtain ⟨-, hoffered⟩ := hgo.mp (by decide)
  rw [(DmTop.hartCtrlQueue_offers _ _).1] at hoffered
  exact Bool.false_ne_true hoffered

/-- With 1025 harts, one more than the window of the flags has bytes. -/
theorem hart1024_reads_rom :
    ¬ FlagBytesServe (DmTop.zeroPage 1025 (by decide) (by decide)) :=
  not_flagBytesServe (show 1024 < 1025 by decide)

/-- Every hart reads its own offers exactly when the window of the flags has a byte for it. -/
theorem flagBytesServe_iff (cfg : Config) : FlagBytesServe cfg ↔ cfg.nrHarts ≤ 1024 := by
  constructor
  · intro hserve
    by_contra hmany
    exact not_flagBytesServe (not_le.mp hmany) hserve
  · intro hcount inputs time hart hhart hloads
    have hbyte :
        ((machine cfg).states inputs (time + 1)).loadedByte (flagBusAddress cfg hart) = _ :=
      loadedByte_flags hcount ((machine cfg).states inputs time) hhart hloads
    rw [hbyte]
    exact showsOffers_ite _ _

end RiscvDebug.DmMem
