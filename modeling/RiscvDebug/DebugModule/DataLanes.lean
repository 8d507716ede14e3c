import RiscvDebug.DebugModule.HartWords
import RiscvDebug.Foundations.Temporal

/-!
# Lanes of the abstract data

A hart stores to the data registers lane by lane, from the register at the address on, and loads
the aligned pair of registers around the address. `byteAt_load` and `dataByte_dataOut_of_store`
say which byte of the data registers a lane of a load and of a store belongs to, and
`byteAt_stored` combines them over a stretch of a run. On a bus of 64 bits the two disagree at the
upper register of a pair: there a stored lane does not come back (`upperStoreRun_moves`).
`lanesAgree_iff` finds all addresses and byte enables for which stored lanes come back.
-/

set_option autoImplicit false
set_option relaxedAutoImplicit false

namespace RiscvDebug

open Foundations

namespace DmCsrs

variable {cfg : Config}

/-- Only an accepted write of a data register changes what the DMI leaves in the data. -/
theorem dataDmi_of_not_writes {q : Regs cfg} {i : Inputs cfg} (hwrites : writes q i .data = false) :
    (csrReadWrite q i).dataDmi = q.data := by
  show (dmiAccess q i).dataDmi = q.data
  cases hwrite : acceptsWrite q i with
  | true =>
    rw [dmiAccess_of_write hwrite]
    unfold dmiWrite
    cases haddressed : addressed i with
    | data => simp [writes, hwrite, haddressed] at hwrites
    | _ =>
      simp only [defaults, cmdBusyAnswer, sbBusyAnswer] <;> split_ifs <;> rfl
  | false =>
    rw [dmiAccess_frame hwrite]
    rfl

end DmCsrs

namespace DmMem

variable {cfg : Config}

/-! ### Loads -/

/-- The register that the first lane of a load belongs to: that of the address on a bus of 32 bits,
and the lower one of its pair on a bus of 64 bits. -/
def firstRegister (cfg : Config) (offset : BitVec 12) : ℕ :=
  if cfg.busWidth = 64 then 2 * (dataRegister offset / 2) else dataRegister offset

/-- A lane of two words. -/
theorem byteAt_append (upper lower : BitVec 32) {lane : ℕ} (hlane : lane < 8) :
    byteAt (upper ++ lower) lane =
      if lane < 4 then byteAt lower lane else byteAt upper (lane - 4) := by
  split_ifs with hlow
  · refine byteAt_ext fun index hindex ↦ ?_
    rw [BitVec.getLsbD_append, if_pos (by omega)]
  · refine byteAt_ext fun index hindex ↦ ?_
    rw [BitVec.getLsbD_append, if_neg (by omega)]
    congr 1
    omega

/-- A lane of an aligned load from the data window. -/
theorem byteAt_load {r : Regs cfg} {i : Inputs cfg} (hreads : i.slave.reads = true)
    (hwindow : InDataWindow cfg i.slave.offset) (haligned : i.slave.offset.toNat % 4 = 0)
    {lane : ℕ} (hlane : lane < busBytes cfg) :
    byteAt (next r i).rdataOut lane =
      dataByte i.data (4 * firstRegister cfg i.slave.offset + lane) := by
  obtain ⟨hlow, hhigh⟩ := inDataWindow_iff.mp hwindow
  have hcount := cfg.dataCount_le
  -- A lane of the pair of registers is a byte of the data.
  have hpair {lane : ℕ} (hlane : lane < 8) : byteAt (rdataNext r i) lane =
      dataByte i.data (8 * (dataRegister i.slave.offset / 2) + lane) := by
    rw [rdataNext_data hreads hwindow, byteAt_append _ _ hlane, dataByte]
    split_ifs with hlower
    · congr 3 <;> omega
    · congr 3 <;> omega
  have hhalf : (next r i).wordEnable32 = decide (dataRegister i.slave.offset % 2 = 1) := by
    have hbit : (next r i).wordEnable32 = i.slave.offset.getLsbD 2 := by
      show i.slave.addr.getLsbD 2 = i.slave.offset.getLsbD 2
      simp [SlaveAccess.offset]
    rw [hbit, BitVec.getLsbD, Nat.testBit_eq_decide_div_mod_eq]
    unfold dataRegister
    exact decide_eq_decide.mpr (by omega)
  rw [byteAt_rdataOut _ hlane, wordMux_next (by omega), hhalf]
  unfold firstRegister
  rcases cfg.busWidth_eq with hwidth | hwidth
  · have hbytes : busBytes cfg = 4 := by simp [busBytes, hwidth]
    have hnarrow : ¬ cfg.busWidth = 64 := by omega
    simp only [hnarrow, if_false, decide_eq_true_eq]
    split_ifs with hodd
    · rw [hpair (by omega)]
      exact congrArg _ (by omega)
    · rw [hpair (by omega)]
      exact congrArg _ (by omega)
  · have hbytes : busBytes cfg = 8 := by simp [busBytes, hwidth]
    rw [if_pos hwidth, if_pos hwidth, hpair (by omega)]
    exact congrArg _ (by omega)

/-- The data registers hold no byte beyond the last one. -/
theorem dataByte_of_ge {count : ℕ} (data : Vector (BitVec 32) count) {index : ℕ}
    (hindex : 4 * count ≤ index) : dataByte data index = 0 := by
  unfold dataByte
  rw [Vector.getElem?_eq_none (by omega), Option.getD_none]
  exact byteAt_zero _

theorem dataByte_replicate_zero {count : ℕ} (index : ℕ) :
    dataByte (Vector.replicate count 0) index = 0 := by
  unfold dataByte
  rw [Vector.getElem?_replicate]
  split_ifs <;> exact byteAt_zero _

end DmMem

namespace DmTop

open DmMem

variable {cfg : Config}

/-! ### A store, some other cycles, and a load -/

/-- A store with byte enables. -/
def storeAt (address : BitVec cfg.busWidth) (be : BitVec (cfg.busWidth / 8))
    (value : BitVec cfg.busWidth) : SlaveAccess cfg :=
  ⟨true, true, address, be, value⟩

/-- A load. -/
def loadAt (address : BitVec cfg.busWidth) : SlaveAccess cfg := ⟨true, false, address, 0, 0⟩

/-- The offset of an address in the debug memory. -/
def offsetOf (address : BitVec cfg.busWidth) : BitVec 12 := address.setWidth 12

/-- A lane of what a load in this cycle returns. -/
def loadedLane (s : Regs cfg) (i : Inputs cfg) (address : BitVec cfg.busWidth) (lane : ℕ) :
    BitVec 8 :=
  byteAt (next s { i with slave := loadAt address }).mem.rdataOut lane

/-- A cycle that keeps the data: the module is active, and neither a hart nor the host writes
them. -/
def keepsData (s : Regs cfg) (i : Inputs cfg) : Bool :=
  s.csrs.dmcontrol.dmactive && !dataValid (memInputs s i false) && !writes s i .data

theorem data_next_of_keepsData {s : Regs cfg} {i : Inputs cfg} (hkeeps : keepsData s i = true) :
    (next s i).csrs.data = s.csrs.data := by
  simp only [keepsData, Bool.and_eq_true, Bool.not_eq_true'] at hkeeps
  obtain ⟨⟨hactive, hnone⟩, hwrites⟩ := hkeeps
  show (DmCsrs.next s.csrs (csrInputs s i)).data = s.csrs.data
  have hvalid : (csrInputs s i).dataValid = false := hnone
  unfold DmCsrs.next
  simp only [hactive, hvalid, if_true, Bool.false_eq_true, if_false]
  exact DmCsrs.dataDmi_of_not_writes hwrites

theorem data_next_of_store {s : Regs cfg} {i : Inputs cfg}
    (hactive : s.csrs.dmcontrol.dmactive = true)
    (hvalid : dataValid (memInputs s i false) = true) :
    (next s i).csrs.data = dataOut (memInputs s i false) := by
  show (DmCsrs.next s.csrs (csrInputs s i)).data = dataOut (memInputs s i false)
  have hvalid' : (csrInputs s i).dataValid = true := hvalid
  unfold DmCsrs.next
  simp only [hactive, hvalid', if_true]
  rfl

/-- A stretch of a run with a store in its first cycle and a load at the same address in its last
one. The module is active in the first cycle, and the cycles in between keep the data. -/
structure StoresAndLoads (inputs : ℕ → Inputs cfg) (start stop : ℕ)
    (address : BitVec cfg.busWidth) (be : BitVec (cfg.busWidth / 8))
    (value : BitVec cfg.busWidth) : Prop where
  order : start < stop
  active : (run inputs start).csrs.dmcontrol.dmactive = true
  stores : (inputs start).slave = storeAt address be value
  keeps : ∀ time, start < time → time < stop → keepsData (run inputs time) (inputs time) = true
  loads : (inputs stop).slave.reads = true
  loadAddress : (inputs stop).slave.addr = address

/-- Every store with these byte enables, followed by a load at its address, comes back in the lanes
that it enables, and the load returns what was there before in the other lanes. -/
def LanesAgree (cfg : Config) (address : BitVec cfg.busWidth)
    (be : BitVec (cfg.busWidth / 8)) : Prop :=
  ∀ (inputs : ℕ → Inputs cfg) (start stop : ℕ) (value : BitVec cfg.busWidth),
    StoresAndLoads inputs start stop address be value → ∀ lane < busBytes cfg,
      byteAt (run inputs (stop + 1)).mem.rdataOut lane =
        if be.getLsbD lane then byteAt value lane
        else loadedLane (run inputs start) (inputs start) address lane

section Stretch

variable {inputs : ℕ → Inputs cfg} {start stop : ℕ} {address : BitVec cfg.busWidth}
  {be : BitVec (cfg.busWidth / 8)} {value : BitVec cfg.busWidth} {lane : ℕ}

theorem loadedLane_eq (s : Regs cfg) (i : Inputs cfg)
    (hwindow : InDataWindow cfg (offsetOf address)) (haligned : address.toNat % 4 = 0)
    (hlane : lane < busBytes cfg) :
    loadedLane s i address lane =
      dataByte s.csrs.data (4 * firstRegister cfg (offsetOf address) + lane) := by
  have hoffset : (offsetOf address).toNat % 4 = 0 := by
    rw [offsetOf, BitVec.toNat_setWidth]
    omega
  exact byteAt_load (i := memInputs s { i with slave := loadAt address } _) rfl hwindow hoffset
    hlane

/-- What the load of such a stretch returns in a lane. -/
theorem byteAt_stored (hstretch : StoresAndLoads inputs start stop address be value)
    (hwindow : InDataWindow cfg (offsetOf address)) (haligned : address.toNat % 4 = 0)
    (hlane : lane < busBytes cfg) :
    byteAt (run inputs (stop + 1)).mem.rdataOut lane =
      if 4 * dataRegister (offsetOf address) ≤ 4 * firstRegister cfg (offsetOf address) + lane ∧
          4 * firstRegister cfg (offsetOf address) + lane <
            4 * dataRegister (offsetOf address) + busBytes cfg ∧
          be.getLsbD (4 * firstRegister cfg (offsetOf address) + lane -
            4 * dataRegister (offsetOf address)) = true ∧
          4 * firstRegister cfg (offsetOf address) + lane < 4 * cfg.dataCount then
        byteAt value (4 * firstRegister cfg (offsetOf address) + lane -
          4 * dataRegister (offsetOf address))
      else dataByte (run inputs start).csrs.data
        (4 * firstRegister cfg (offsetOf address) + lane) := by
  have hoffset : (offsetOf address).toNat % 4 = 0 := by
    rw [offsetOf, BitVec.toNat_setWidth]
    omega
  -- The data the load finds are those the store has left.
  have hstored : (run inputs (start + 1)).csrs.data =
      dataOut (memInputs (run inputs start) (inputs start) false) := by
    refine data_next_of_store hstretch.active (dataValid_of_window ?_ ?_ ?_) <;>
      rw [memInputs, hstretch.stores]
    · rfl
    · rfl
    · exact hwindow
  have hkept : (run inputs stop).csrs.data = (run inputs (start + 1)).csrs.data := by
    refine eq_start_of_step (q := fun time ↦ (run inputs time).csrs.data) hstretch.order
      fun time hle hlt hsame ↦ ?_
    rw [run_succ, data_next_of_keepsData (hstretch.keeps time hle hlt)]
    exact hsame
  have hload : byteAt (run inputs (stop + 1)).mem.rdataOut lane =
      dataByte (run inputs stop).csrs.data (4 * firstRegister cfg (offsetOf address) + lane) := by
    have hread := byteAt_load (r := (run inputs stop).mem)
      (i := memInputs (run inputs stop) (inputs stop)
        (csrSignals (run inputs stop) (inputs stop)).clearResumeack)
      hstretch.loads (by rw [SlaveAccess.offset, memInputs, hstretch.loadAddress]; exact hwindow)
      (by rw [SlaveAccess.offset, memInputs, hstretch.loadAddress]; exact hoffset) hlane
    rw [SlaveAccess.offset, memInputs, hstretch.loadAddress] at hread
    exact hread
  rw [hload, hkept, hstored]
  by_cases hinside : 4 * firstRegister cfg (offsetOf address) + lane < 4 * cfg.dataCount
  · rw [dataByte_dataOut_of_store (by rw [memInputs, hstretch.stores]; rfl)
      (by rw [memInputs, hstretch.stores]; rfl)
      (by rw [memInputs, hstretch.stores]; exact hwindow) hinside, memInputs, hstretch.stores]
    simp only [hinside, and_true]
    rfl
  · rw [dataByte_of_ge _ (by omega), dataByte_of_ge _ (by omega), if_neg (by omega)]

end Stretch

/-! ### When the lanes agree -/

/-- The host activates the module in the first cycle. -/
theorem dmactive_of_activation {inputs : ℕ → Inputs cfg}
    (hactivates : inputs 0 = (Inputs.quiet cfg).withRequest ⟨0x10, dtmWrite, 0x00000001⟩) :
    (run inputs 1).csrs.dmcontrol.dmactive = true := by
  have haddressed : cfg.dmCsr 0x10 = .dmControl := by
    have hcount := cfg.dataCount_le
    have hnone : ¬ (0x04 ≤ (0x10 : BitVec 7).toNat ∧
        (0x10 : BitVec 7).toNat ≤ 0x04 + cfg.dataCount - 1) := by
      rw [show (0x10 : BitVec 7).toNat = 16 from rfl]
      omega
    rw [Config.dmCsr, if_neg hnone, if_pos rfl]
  rw [run_succ, dmactive_next, hactivates, writtenDmcontrol_of_writes]
  · show (Dmcontrol.ofBits 0x00000001).dmactive = true
    decide
  · show (true && cfg.dmCsr 0x10 == DmCsr.dmControl) = true
    rw [haddressed]
    rfl

/-- The host activates the module, a hart stores with all lanes of the value set, and a load at
the same address follows. -/
def storeRun (cfg : Config) (address : BitVec cfg.busWidth) (be : BitVec (cfg.busWidth / 8)) :
    ℕ → Inputs cfg :=
  script
    [(Inputs.quiet cfg).withRequest ⟨0x10, dtmWrite, 0x00000001⟩,
      { Inputs.quiet cfg with slave := storeAt address be (BitVec.allOnes cfg.busWidth) },
      { Inputs.quiet cfg with slave := loadAt address }]

theorem storesAndLoads_storeRun (address : BitVec cfg.busWidth)
    (be : BitVec (cfg.busWidth / 8)) :
    StoresAndLoads (storeRun cfg address be) 1 2 address be (BitVec.allOnes cfg.busWidth) where
  order := by decide
  active := dmactive_of_activation rfl
  stores := rfl
  keeps := fun time hstart hstop ↦ by omega
  loads := rfl
  loadAddress := rfl

/-- Stored lanes come back exactly when each enabled lane belongs to an existing register and, on a
bus of 64 bits, the address is that of the lower register of a pair, or no lane is enabled. -/
theorem lanesAgree_iff (cfg : Config) (address : BitVec cfg.busWidth)
    (be : BitVec (cfg.busWidth / 8)) (haligned : address.toNat % 4 = 0)
    (hwindow : InDataWindow cfg (offsetOf address)) :
    LanesAgree cfg address be ↔
      ∀ lane < busBytes cfg, be.getLsbD lane = true →
        (cfg.busWidth = 32 ∨ address.toNat % 8 = 0) ∧
          dataRegister (offsetOf address) + lane / 4 < cfg.dataCount := by
  obtain ⟨hlow, hhigh⟩ := inDataWindow_iff.mp hwindow
  -- The parity of the register is that of the word of the address.
  have hparity : dataRegister (offsetOf address) % 2 = 0 ↔ address.toNat % 8 = 0 := by
    unfold dataRegister
    rw [offsetOf, BitVec.toNat_setWidth] at hlow ⊢
    omega
  have hfirst : firstRegister cfg (offsetOf address) = dataRegister (offsetOf address) ↔
      cfg.busWidth = 32 ∨ address.toNat % 8 = 0 := by
    unfold firstRegister
    rcases cfg.busWidth_eq with hwidth | hwidth
    · simp [hwidth]
    · rw [if_pos hwidth, ← hparity]
      omega
  constructor
  · intro hagree
    -- The stored bytes are not zero and the old data are, so a lane comes back as it was stored
    -- only when the load finds a stored byte in it.
    have hfound {lane : ℕ} (hlane : lane < busBytes cfg) (henabled : be.getLsbD lane = true) :
        4 * dataRegister (offsetOf address) ≤ 4 * firstRegister cfg (offsetOf address) + lane ∧
          be.getLsbD (4 * firstRegister cfg (offsetOf address) + lane -
            4 * dataRegister (offsetOf address)) = true ∧
          4 * firstRegister cfg (offsetOf address) + lane < 4 * cfg.dataCount := by
      have hread := hagree _ 1 2 _ (storesAndLoads_storeRun address be) lane hlane
      rw [byteAt_stored (storesAndLoads_storeRun address be) hwindow haligned hlane,
        if_pos henabled] at hread
      split_ifs at hread with hstored
      · exact ⟨hstored.1, hstored.2.2⟩
      · have hzero : dataByte (run (storeRun cfg address be) 1).csrs.data
            (4 * firstRegister cfg (offsetOf address) + lane) = 0 := dataByte_replicate_zero _
        have hbit := congrArg (fun byte ↦ byte.getLsbD 0) (hread.symm.trans hzero)
        have hinside : 8 * lane < cfg.busWidth := by
          unfold busBytes at hlane
          omega
        simp only [getLsbD_byteAt _ _ (show 0 < 8 by decide)] at hbit
        simp [hinside] at hbit
    intro lane hlane henabled
    obtain ⟨hge, hother, hinside⟩ := hfound hlane henabled
    by_cases hsame : firstRegister cfg (offsetOf address) = dataRegister (offsetOf address)
    · exact ⟨hfirst.mp hsame, by omega⟩
    · -- Each enabled lane of the upper register would have another one four lanes below it.
      have hwide : busBytes cfg ≤ 8 := by rcases busBytes_eq cfg with h | h <;> omega
      have hbelow : firstRegister cfg (offsetOf address) + 1 =
          dataRegister (offsetOf address) := by
        unfold firstRegister at hsame ⊢
        split_ifs at hsame ⊢ with hwidth
        · omega
        · exact absurd rfl hsame
      obtain ⟨hge', -, -⟩ := hfound (by omega) hother
      omega
  · intro hregisters inputs start stop value hstretch lane hlane
    rw [byteAt_stored hstretch hwindow haligned hlane, loadedLane_eq _ _ hwindow haligned hlane]
    by_cases henabled : be.getLsbD lane = true
    · obtain ⟨hwidth, hinside⟩ := hregisters lane hlane henabled
      rw [hfirst.mpr hwidth, Nat.add_sub_cancel_left, if_pos henabled, if_pos]
      refine ⟨by omega, by omega, henabled, by omega⟩
    · rw [if_neg henabled, if_neg]
      rintro ⟨hge, hlt, hother, -⟩
      -- Another lane is enabled, so the two indices agree and it is this lane.
      obtain ⟨hwidth, -⟩ := hregisters _ (by omega) hother
      rw [hfirst.mpr hwidth, Nat.add_sub_cancel_left] at hother
      exact henabled hother

/-- A hart on a bus of 64 bits stores a byte at the upper data register and loads it again. -/
def upperStoreRun : ℕ → Inputs oneHartWide := storeRun oneHartWide 0x384 0x01

/-- The byte comes back in another lane, and its own lane shows the lower register. -/
theorem upperStoreRun_moves :
    StoresAndLoads upperStoreRun 1 2 0x384 0x01 (BitVec.allOnes 64) ∧
      byteAt (run upperStoreRun 3).mem.rdataOut 0 = 0x00 ∧
      byteAt (run upperStoreRun 3).mem.rdataOut 4 = 0xff ∧ ¬ LanesAgree oneHartWide 0x384 0x01 := by
  refine ⟨storesAndLoads_storeRun _ _, by decide +kernel, by decide +kernel, fun hagree ↦ ?_⟩
  have hlane := hagree upperStoreRun 1 2 _ (storesAndLoads_storeRun _ _) 0 (by decide)
  exact absurd hlane (by decide +kernel)

/-- Both data registers come back whole from their common address. -/
theorem lowerStore_agrees : LanesAgree oneHartWide 0x380 0xff :=
  (lanesAgree_iff oneHartWide 0x380 0xff (by decide) ⟨by decide, by decide⟩).mpr
    fun lane hlane _ ↦ by
      have hbytes : lane < 8 := hlane
      exact ⟨Or.inr rfl, show 0 + lane / 4 < 2 by omega⟩

end DmTop

end RiscvDebug
