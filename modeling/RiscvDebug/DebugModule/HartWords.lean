import RiscvDebug.DebugModule.HartReads

/-!
# The words a hart loads and stores

A hart reaches the debug memory by bus accesses of one or two words. `readWord` and `readDouble` are
what its loads return, through the registers and lanes of `dm_mem`, and `writeWord` and
`writeDouble` what its stores leave in the data registers. At the address of the data registers
these are plain reads and writes of the registers (`readWord_data`, `writeWord_data`), whatever the
width of the bus, and at the generated command and in the ROM they return its words
(`readWord_abstractCmd`, `readWord_rom`).
-/

set_option autoImplicit false
set_option relaxedAutoImplicit false

namespace RiscvDebug.DmMem

open Foundations

variable {cfg : Config}

theorem busBytes_eq (cfg : Config) : busBytes cfg = 4 ∨ busBytes cfg = 8 := by
  rcases cfg.busWidth_eq with hwidth | hwidth <;> simp [busBytes, hwidth]

/-! ### Accesses -/

/-- The inputs of `dm_mem` in the cycle of an access, with the data registers of that cycle. -/
def Inputs.withAccess (i : Inputs cfg) (data : Vector (BitVec 32) cfg.dataCount)
    (access : SlaveAccess cfg) : Inputs cfg :=
  { i with data := data, slave := access }

/-- A read. -/
def readAccess (cfg : Config) (offset : BitVec 12) : SlaveAccess cfg where
  req := true
  we := false
  addr := offset.setWidth cfg.busWidth
  be := 0
  wdata := 0

/-- A write of the low bytes of a value, in the lanes that the offset selects. -/
def writeAccess (cfg : Config) (offset : BitVec 12) (bytes : ℕ) (value : BitVec 64) :
    SlaveAccess cfg where
  req := true
  we := true
  addr := offset.setWidth cfg.busWidth
  be := (BitVec.allOnes bytes).setWidth (cfg.busWidth / 8) <<< (offset.toNat % busBytes cfg)
  wdata := value.setWidth cfg.busWidth <<< (8 * (offset.toNat % busBytes cfg))

section Accesses

variable (r : Regs cfg) (i : Inputs cfg) (data : Vector (BitVec 32) cfg.dataCount)
  (offset : BitVec 12)

/-- The word that a load of four bytes returns, from the lanes that the offset selects. -/
def readWord : BitVec 32 :=
  (next r (i.withAccess data (readAccess cfg offset))).rdataOut.extractLsb'
    (8 * (offset.toNat % busBytes cfg)) 32

/-- The value that a load of eight bytes returns, by one access of a wide bus or by two. -/
def readDouble : BitVec 64 :=
  if cfg.busWidth = 64 then
    (next r (i.withAccess data (readAccess cfg offset))).rdataOut.setWidth 64
  else readWord r i data (offset + 4) ++ readWord r i data offset

/-- The data registers after a store of four bytes. -/
def writeWord (value : BitVec 32) : Vector (BitVec 32) cfg.dataCount :=
  dataOut (i.withAccess data (writeAccess cfg offset 4 (value.setWidth 64)))

/-- The data registers after a store of eight bytes, by one access of a wide bus or by two. -/
def writeDouble (value : BitVec 64) : Vector (BitVec 32) cfg.dataCount :=
  if cfg.busWidth = 64 then dataOut (i.withAccess data (writeAccess cfg offset 8 value))
  else writeWord i (writeWord i data offset (value.extractLsb' 0 32)) (offset + 4)
    (value.extractLsb' 32 32)

end Accesses

/-! ### Reads -/

theorem offset_setWidth (vector : BitVec 12) :
    (vector.setWidth cfg.busWidth).setWidth 12 = vector := by
  ext index hindex
  rcases cfg.busWidth_eq with hwidth | hwidth <;> simp [hwidth]

@[simp] theorem offset_readAccess (offset : BitVec 12) :
    (readAccess cfg offset).offset = offset := offset_setWidth offset

@[simp] theorem offset_writeAccess (offset : BitVec 12) (bytes : ℕ) (value : BitVec 64) :
    (writeAccess cfg offset bytes value).offset = offset := offset_setWidth offset

/-- The word in the lanes that an aligned offset selects is a half of the 64-bit row. -/
theorem extractLsb'_rdataOut (r : Regs cfg) {i : Inputs cfg}
    (haligned : i.slave.offset.toNat % 4 = 0) :
    (next r i).rdataOut.extractLsb' (8 * (i.slave.offset.toNat % busBytes cfg)) 32 =
      (next r i).wordMux.extractLsb' (8 * (i.slave.offset.toNat % 8)) 32 := by
  have hupper : (next r i).wordEnable32 = i.slave.offset.getLsbD 2 := by
    show i.slave.addr.getLsbD 2 = i.slave.offset.getLsbD 2
    simp [SlaveAccess.offset]
  have hbit : i.slave.offset.getLsbD 2 = decide (i.slave.offset.toNat % 8 = 4) := by
    rw [BitVec.getLsbD, Nat.testBit_eq_decide_div_mod_eq]
    exact decide_eq_decide.mpr (by omega)
  unfold Regs.rdataOut
  rw [hupper, hbit]
  ext index hindex
  rcases cfg.busWidth_eq with hwidth | hwidth
  · have hbytes : busBytes cfg = 4 := by simp [busBytes, hwidth]
    by_cases hhalf : i.slave.offset.toNat % 8 = 4
    · simp [hwidth, hbytes, hhalf, haligned, hindex]
    · have hzero : i.slave.offset.toNat % 8 = 0 := by omega
      simp [hwidth, hbytes, hzero, haligned, hindex]
  · have hbytes : busBytes cfg = 8 := by simp [busBytes, hwidth]
    simp [hwidth, hbytes]
    omega

section Reads

variable (r : Regs cfg) (i : Inputs cfg) (data : Vector (BitVec 32) cfg.dataCount)
  {offset : BitVec 12}

/-- An aligned load returns a half of the 64-bit row. -/
theorem readWord_eq_wordMux (haligned : offset.toNat % 4 = 0) :
    readWord r i data offset =
      (next r (i.withAccess data (readAccess cfg offset))).wordMux.extractLsb'
        (8 * (offset.toNat % 8)) 32 := by
  have hword := extractLsb'_rdataOut r (i := i.withAccess data (readAccess cfg offset))
    (by rw [Inputs.withAccess, offset_readAccess]; exact haligned)
  rw [Inputs.withAccess, offset_readAccess] at hword
  exact hword

/-- Below the ROM the row is that of the debug memory. -/
theorem readWord_eq (haligned : offset.toNat % 4 = 0) (hlow : offset.toNat < 0x800) :
    readWord r i data offset =
      (rdataNext r (i.withAccess data (readAccess cfg offset))).extractLsb'
        (8 * (offset.toNat % 8)) 32 := by
  rw [readWord_eq_wordMux r i data haligned, wordMux_next (by simpa [Inputs.withAccess] using hlow)]

/-- The offset of a word of the generated command. The program buffer follows its ten words. -/
def commandOffset (index : ℕ) : BitVec 12 := abstractCmdBaseAddr + BitVec.ofNat 12 (4 * index)

theorem commandOffset_toNat {index : ℕ} (hindex : index ≤ 18) :
    (commandOffset index).toNat = 0x338 + 4 * index := by
  have hbase : abstractCmdBaseAddr.toNat = 0x338 := rfl
  rw [commandOffset, BitVec.toNat_add, BitVec.toNat_ofNat, hbase]
  omega

/-- A row of the generated command. -/
theorem rdataNext_abstractCmd {r : Regs cfg} {i : Inputs cfg} (hreads : i.slave.reads = true)
    (hlow : 0x338 ≤ i.slave.offset.toNat) (hhigh : i.slave.offset.toNat ≤ 0x35f) :
    rdataNext r i = (cfg.abstractCmd i.cmd).entry (i.slave.offset.toNat / 8 - 0x67) := by
  have hwhere : i.slave.offset ≠ whereToAddr := by
    intro heq
    rw [heq] at hlow
    exact absurd hlow (by decide)
  have hnotData : ¬ (dataBaseAddr ≤ i.slave.offset ∧ i.slave.offset ≤ dataEndAddr cfg) := by
    rintro ⟨hge, -⟩
    have hbase : 0x380 ≤ i.slave.offset.toNat := hge
    omega
  have hnotProgBuf : ¬ (progBufBaseAddr ≤ i.slave.offset ∧ i.slave.offset ≤ progBufEndAddr) := by
    rintro ⟨hge, -⟩
    have hbase : 0x360 ≤ i.slave.offset.toNat := hge
    omega
  have hcommand :
      abstractCmdBaseAddr ≤ i.slave.offset ∧ i.slave.offset ≤ abstractCmdEndAddr :=
    ⟨hlow, hhigh⟩
  unfold rdataNext
  simp only [hreads, if_true, if_neg hwhere, if_neg hnotData, if_neg hnotProgBuf, if_pos hcommand]
  rw [show abstractCmdBaseAddr.toNat = 0x338 from rfl]
  congr 1
  omega

/-- A row of the program buffer. -/
theorem rdataNext_progBuf {r : Regs cfg} {i : Inputs cfg} (hreads : i.slave.reads = true)
    (hlow : 0x360 ≤ i.slave.offset.toNat) (hhigh : i.slave.offset.toNat ≤ 0x37f) :
    rdataNext r i = i.progbuf[2 * (i.slave.offset.toNat / 8 - 0x6c) + 1]?.getD 0 ++
      i.progbuf[2 * (i.slave.offset.toNat / 8 - 0x6c)]?.getD 0 := by
  have hwhere : i.slave.offset ≠ whereToAddr := by
    intro heq
    rw [heq] at hlow
    exact absurd hlow (by decide)
  have hnotData : ¬ (dataBaseAddr ≤ i.slave.offset ∧ i.slave.offset ≤ dataEndAddr cfg) := by
    rintro ⟨hge, -⟩
    have hbase : 0x380 ≤ i.slave.offset.toNat := hge
    omega
  have hprogBuf : progBufBaseAddr ≤ i.slave.offset ∧ i.slave.offset ≤ progBufEndAddr :=
    ⟨hlow, hhigh⟩
  have hindex : (i.slave.offset.toNat / 8 - progBufBaseAddr.toNat / 8) % 2 ^ clog2 progBufSize =
      i.slave.offset.toNat / 8 - 0x6c := by
    rw [show progBufBaseAddr.toNat = 0x360 from rfl,
      show 2 ^ clog2 progBufSize = 8 by decide]
    omega
  unfold rdataNext
  simp only [hreads, if_true, if_neg hwhere, if_neg hnotData, if_pos hprogBuf, hindex]

/-- A load from the generated command returns its word. -/
theorem readWord_abstractCmd {index : ℕ} (hindex : index < 10) :
    readWord r i data (commandOffset index) =
      (cfg.abstractCmd i.cmd).words[index]?.getD 0 := by
  have haddress := commandOffset_toNat (show index ≤ 18 by omega)
  rw [readWord_eq r i data (by omega) (by omega), rdataNext_abstractCmd rfl
    (by rw [Inputs.withAccess, offset_readAccess]; omega)
    (by rw [Inputs.withAccess, offset_readAccess]; omega), Inputs.withAccess, offset_readAccess,
    haddress, AbstractCmd.entry]
  rcases Nat.even_or_odd' index with ⟨half, heven | hodd⟩
  · rw [show 8 * ((0x338 + 4 * index) % 8) = 0 by omega,
      show (0x338 + 4 * index) / 8 - 0x67 = half by omega, ← heven]
    exact BitVec.extractLsb'_append_eq_right
  · rw [show 8 * ((0x338 + 4 * index) % 8) = 32 by omega,
      show (0x338 + 4 * index) / 8 - 0x67 = half by omega, ← hodd]
    exact BitVec.extractLsb'_append_eq_left

/-- The offset of a word of the ROM. -/
def romOffset (index : ℕ) : BitVec 12 := haltAddress.setWidth 12 + BitVec.ofNat 12 (4 * index)

theorem romOffset_toNat {index : ℕ} (hindex : index < 512) :
    (romOffset index).toNat = 0x800 + 4 * index := by
  have hbase : (haltAddress.setWidth 12).toNat = 0x800 := rfl
  rw [romOffset, BitVec.toNat_add, BitVec.toNat_ofNat, hbase]
  omega

/-- The row of the ROM at the address of an access. -/
theorem wordMux_next_rom {r : Regs cfg} {i : Inputs cfg} (hreads : i.slave.reads = true)
    (hrom : haltAddress.setWidth 12 ≤ i.slave.offset) :
    (next r i).wordMux =
      cfg.romRdata (i.slave.offset.toNat / 8 % 2 ^ clog2 cfg.romWords.length) := by
  have hreq : i.slave.req = true := (Bool.and_eq_true_iff.mp hreads).1
  have hsmall : 2 ^ clog2 cfg.romWords.length ∣ 2 ^ 9 := by
    rcases cfg.length_romWords with hrows | hrows
    · rw [hrows]
      decide
    · rw [hrows]
      decide
  have haddress : (i.slave.addr.setWidth 64).toNat = i.slave.addr.toNat := by
    rw [BitVec.toNat_setWidth, Nat.mod_eq_of_lt]
    refine i.slave.addr.isLt.trans_le (Nat.pow_le_pow_right (by decide) ?_)
    rcases cfg.busWidth_eq with hwidth | hwidth <;> omega
  -- The ROM looks at fewer bits of the row than the offset has.
  have hrow : i.slave.addr.toNat / 8 % 2 ^ clog2 cfg.romWords.length =
      i.slave.offset.toNat / 8 % 2 ^ clog2 cfg.romWords.length := by
    rw [SlaveAccess.offset, BitVec.toNat_setWidth,
      show i.slave.addr.toNat % 2 ^ 12 / 8 = i.slave.addr.toNat / 8 % 2 ^ 9 by omega,
      Nat.mod_mod_of_dvd _ hsmall]
  have hforward : (next r i).fwdRom = true := decide_eq_true hrom
  have hregister : (next r i).romAddr =
      i.slave.offset.toNat / 8 % 2 ^ clog2 cfg.romWords.length := by
    show cfg.romAddrNext r.romAddr i.slave.req (i.slave.addr.setWidth 64) = _
    rw [Config.romAddrNext, if_pos hreq, haddress, hrow]
  rw [Regs.wordMux, hforward, if_pos rfl, hregister]

/-- The word of the ROM at an index of 32-bit words. -/
def romWord (cfg : Config) (index : ℕ) : BitVec 32 :=
  (cfg.romWords[index / 2]?.getD 0).extractLsb' (32 * (index % 2)) 32

/-- A load from the ROM returns its word, whatever the debug memory holds. -/
theorem readWord_rom {index : ℕ} (hindex : index < 2 * cfg.romWords.length) :
    readWord r i data (romOffset index) = romWord cfg index := by
  have haddress : (romOffset index).toNat = 0x800 + 4 * index := by
    refine romOffset_toNat ?_
    rcases cfg.length_romWords with hrows | hrows
    · omega
    · omega
  have hrow : (0x800 + 4 * index) / 8 % 2 ^ clog2 cfg.romWords.length = index / 2 := by
    rcases cfg.length_romWords with hrows | hrows
    · rw [hrows, show 2 ^ clog2 20 = 32 by decide]
      omega
    · rw [hrows, show 2 ^ clog2 14 = 16 by decide]
      omega
  have hforward : haltAddress.setWidth 12 ≤ romOffset index := by
    rw [BitVec.le_def, haddress]
    exact Nat.le_add_right _ _
  have hmux : (next r (i.withAccess data (readAccess cfg (romOffset index)))).wordMux =
      cfg.romWords[index / 2]?.getD 0 := by
    rw [wordMux_next_rom rfl (by rw [Inputs.withAccess, offset_readAccess]; exact hforward),
      Inputs.withAccess, offset_readAccess, haddress, hrow, Config.romRdata, if_pos (by omega)]
  rw [readWord_eq_wordMux r i data (by omega), hmux, romWord, haddress,
    show 8 * ((0x800 + 4 * index) % 8) = 32 * (index % 2) by omega]

/-- The offset lies in the window of the data registers. -/
def InDataWindow (cfg : Config) (offset : BitVec 12) : Prop :=
  dataBaseAddr ≤ offset ∧ offset ≤ dataEndAddr cfg

theorem inDataWindow_iff {offset : BitVec 12} :
    InDataWindow cfg offset ↔ 0x380 ≤ offset.toNat ∧ offset.toNat < 0x380 + 4 * cfg.dataCount := by
  have hend := dataEndAddr_toNat cfg
  have hcount := cfg.two_le_dataCount
  unfold InDataWindow
  rw [BitVec.le_def, BitVec.le_def, hend, show dataBaseAddr.toNat = 0x380 from rfl]
  omega

/-- The index of the data register at an offset of the window. -/
def dataRegister (offset : BitVec 12) : ℕ := offset.toNat / 4 - 0xe0

theorem dataWord_eq {i : Inputs cfg} {index : ℕ} (hindex : index < 2 ^ cfg.dataIndexWidth) :
    dataWord i index = i.data[index]?.getD 0 := by
  rw [dataWord, Nat.mod_eq_of_lt hindex]

/-- The row of a pair of data registers. -/
theorem rdataNext_data {r : Regs cfg} {i : Inputs cfg} (hreads : i.slave.reads = true)
    (hwindow : InDataWindow cfg i.slave.offset) :
    rdataNext r i = i.data[2 * (dataRegister i.slave.offset / 2) + 1]?.getD 0 ++
      i.data[2 * (dataRegister i.slave.offset / 2)]?.getD 0 := by
  obtain ⟨hlow, hhigh⟩ := inDataWindow_iff.mp hwindow
  have hwhere : i.slave.offset ≠ whereToAddr := by
    intro heq
    rw [heq] at hlow
    exact absurd hlow (by rw [show whereToAddr.toNat = 0x300 from rfl]; omega)
  have hdata : dataBaseAddr ≤ i.slave.offset ∧ i.slave.offset ≤ dataEndAddr cfg := hwindow
  have hrow : i.slave.offset.toNat / 8 - dataBaseAddr.toNat / 8 =
      dataRegister i.slave.offset / 2 := by
    have hbase : dataBaseAddr.toNat = 0x380 := rfl
    unfold dataRegister
    omega
  -- The number of indices is even, so the upper register of the pair has one as well.
  have hregister : dataRegister i.slave.offset < 2 ^ cfg.dataIndexWidth := by
    refine lt_of_lt_of_le ?_ (le_two_pow_clog2 cfg.dataCount)
    unfold dataRegister
    omega
  have heven : 2 ∣ 2 ^ cfg.dataIndexWidth := by
    refine dvd_pow_self 2 fun hzero ↦ ?_
    have hcount := cfg.two_le_dataCount.trans (le_two_pow_clog2 cfg.dataCount)
    rw [show clog2 cfg.dataCount = cfg.dataIndexWidth from rfl, hzero] at hcount
    omega
  unfold rdataNext
  simp only [hreads, if_true, if_neg hwhere, if_pos hdata, hrow]
  rw [dataWord_eq (by omega), dataWord_eq (by omega)]

/-- The row of the first two data registers. -/
theorem rdataNext_firstData {r : Regs cfg} {i : Inputs cfg} (hreads : i.slave.reads = true)
    (hlow : 0x380 ≤ i.slave.offset.toNat) (hhigh : i.slave.offset.toNat < 0x388) :
    rdataNext r i = i.data[1]?.getD 0 ++ i.data[0]?.getD 0 := by
  have hcount := cfg.two_le_dataCount
  rw [rdataNext_data hreads (inDataWindow_iff.mpr ⟨hlow, by omega⟩),
    show dataRegister i.slave.offset / 2 = 0 by unfold dataRegister; omega]

/-- An aligned load from the first two data registers. -/
theorem readWord_data_row (haligned : offset.toNat % 4 = 0) (hlow : 0x380 ≤ offset.toNat)
    (hhigh : offset.toNat < 0x388) :
    readWord r i data offset =
      (data[1]?.getD 0 ++ data[0]?.getD 0).extractLsb' (8 * (offset.toNat % 8)) 32 := by
  rw [readWord_eq r i data haligned (by omega), rdataNext_firstData rfl
    (by rw [Inputs.withAccess, offset_readAccess]; exact hlow)
    (by rw [Inputs.withAccess, offset_readAccess]; exact hhigh)]
  rfl

/-- A load of four bytes from the data registers returns the first one. -/
theorem readWord_data : readWord r i data dataAddr = data[0]?.getD 0 := by
  rw [readWord_data_row r i data (by decide) (by decide) (by decide)]
  exact BitVec.extractLsb'_append_eq_right

/-- A load of eight bytes from the data registers returns the first two. -/
theorem readDouble_data :
    readDouble r i data dataAddr = data[1]?.getD 0 ++ data[0]?.getD 0 := by
  unfold readDouble
  split_ifs with hwide
  · have hmux : (next r (i.withAccess data (readAccess cfg dataAddr))).wordMux = _ :=
      wordMux_next (by rw [Inputs.withAccess, offset_readAccess]; decide)
    have hrow := rdataNext_firstData (r := r) (i := i.withAccess data (readAccess cfg dataAddr)) rfl
      (by rw [Inputs.withAccess, offset_readAccess]; decide)
      (by rw [Inputs.withAccess, offset_readAccess]; decide)
    rw [Regs.rdataOut, if_pos hwide, hmux, hrow]
    ext index hindex
    simp [hwide, Inputs.withAccess]
  · rw [readWord_data, readWord_data_row r i data (by decide) (by decide) (by decide)]
    congr 1
    exact BitVec.extractLsb'_append_eq_left

end Reads

/-! ### Writes -/

/-- A byte of the data registers. -/
def dataByte {count : ℕ} (data : Vector (BitVec 32) count) (index : ℕ) : BitVec 8 :=
  byteAt (data[index / 4]?.getD 0) (index % 4)

/-- Data registers with the same bytes are the same. -/
theorem dataByte_ext {count : ℕ} {data data' : Vector (BitVec 32) count}
    (hbytes : ∀ index < 4 * count, dataByte data index = dataByte data' index) : data = data' := by
  refine Vector.ext fun word hword ↦ eq_of_byteAt fun lane hlane ↦ ?_
  have hbyte := hbytes (4 * word + lane) (by omega)
  unfold dataByte at hbyte
  rw [show (4 * word + lane) / 4 = word by omega,
    show (4 * word + lane) % 4 = lane by omega] at hbyte
  simpa [hword] using hbyte

/-- Replacing one byte of the data registers. -/
theorem dataByte_setByte {count : ℕ} (data : Vector (BitVec 32) count) (byte : BitVec 8)
    (written : ℕ) {index : ℕ} (hindex : index < 4 * count) :
    dataByte (data.setIfInBounds (written / 4)
        (setByte (data[written / 4]?.getD 0) (written % 4) byte)) index =
      if index = written then byte else dataByte data index := by
  unfold dataByte
  by_cases hword : written / 4 = index / 4
  · have hinside : index / 4 < count := by omega
    rw [hword, Vector.getElem?_setIfInBounds_self_of_lt hinside, Option.getD_some,
      byteAt_setByte _ _ (by omega)]
    by_cases hlane : index % 4 = written % 4
    · rw [if_pos hlane, if_pos (by omega)]
    · rw [if_neg hlane, if_neg (by omega)]
  · rw [Vector.getElem?_setIfInBounds_ne hword, if_neg (by omega)]

/-- The loop of `p_data_write` after some lanes: each enabled lane has replaced its byte. -/
theorem dataByte_foldl (be : ℕ → Bool) (bytes : ℕ → BitVec 8) {count : ℕ}
    (data : Vector (BitVec 32) count) (word lanes : ℕ) {index : ℕ} (hindex : index < 4 * count) :
    dataByte ((List.range lanes).foldl
      (fun data lane ↦
        if be lane && decide (word + lane / 4 < count) then
          data.setIfInBounds (word + lane / 4)
            (setByte (data[word + lane / 4]?.getD 0) (lane % 4) (bytes lane))
        else data) data) index =
      if 4 * word ≤ index ∧ index < 4 * word + lanes ∧ be (index - 4 * word) = true then
        bytes (index - 4 * word)
      else dataByte data index := by
  -- The induction is on the number of lanes.
  induction lanes with
  | zero => rw [if_neg (by omega)]; rfl
  | succ lanes ih =>
    rw [List.range_succ, List.foldl_append, List.foldl_cons, List.foldl_nil]
    generalize (List.range lanes).foldl _ data = written at ih ⊢
    have hstep := dataByte_setByte written (bytes lanes) (4 * word + lanes) hindex
    rw [show (4 * word + lanes) / 4 = word + lanes / 4 by omega,
      show (4 * word + lanes) % 4 = lanes % 4 by omega] at hstep
    by_cases hhere : index = 4 * word + lanes
    · subst hhere
      have hinside : word + lanes / 4 < count := by omega
      rw [if_pos rfl] at hstep
      rw [if_neg (by omega)] at ih
      simp only [Nat.le_add_right, show 4 * word + lanes < 4 * word + (lanes + 1)
        by omega, Nat.add_sub_cancel_left, true_and, hinside, decide_true, Bool.and_true]
      split_ifs
      · exact hstep
      · exact ih
    · rw [if_neg hhere] at hstep
      have hrange : (4 * word ≤ index ∧ index < 4 * word + (lanes + 1) ∧
          be (index - 4 * word) = true) ↔ (4 * word ≤ index ∧ index < 4 * word + lanes ∧
          be (index - 4 * word) = true) := by
        constructor
        · rintro ⟨hlow, hhigh, hbe⟩
          exact ⟨hlow, by omega, hbe⟩
        · rintro ⟨hlow, hhigh, hbe⟩
          exact ⟨hlow, by omega, hbe⟩
      simp only [hrange]
      split_ifs at ih ⊢
      · exact hstep.trans ih
      · exact hstep.trans ih
      · exact ih
      · exact ih

section Writes

variable (i : Inputs cfg) (data : Vector (BitVec 32) cfg.dataCount)

theorem dataValid_of_window {i : Inputs cfg} (hreq : i.slave.req = true) (hwe : i.slave.we = true)
    (hwindow : InDataWindow cfg i.slave.offset) : dataValid i = true := by
  simp [dataValid, hreq, hwe, hwindow.1, hwindow.2]

/-- A store to the data window replaces the bytes of its enabled lanes, the first of which belongs
to the register at the offset. -/
theorem dataByte_dataOut_of_store {i : Inputs cfg} (hreq : i.slave.req = true)
    (hwe : i.slave.we = true) (hwindow : InDataWindow cfg i.slave.offset) {index : ℕ}
    (hindex : index < 4 * cfg.dataCount) :
    dataByte (dataOut i) index =
      if 4 * dataRegister i.slave.offset ≤ index ∧
          index < 4 * dataRegister i.slave.offset + busBytes cfg ∧
          i.slave.be.getLsbD (index - 4 * dataRegister i.slave.offset) = true then
        byteAt i.slave.wdata (index - 4 * dataRegister i.slave.offset)
      else dataByte i.data index := by
  obtain ⟨hlow, hhigh⟩ := inDataWindow_iff.mp hwindow
  have hcount := le_two_pow_clog2 cfg.dataCount
  have hregister : (i.slave.offset.toNat / 4 - dataBaseAddr.toNat / 4) % 2 ^ cfg.dataIndexWidth =
      dataRegister i.slave.offset := by
    refine Nat.mod_eq_of_lt ?_
    rw [show dataBaseAddr.toNat = 0x380 from rfl, Config.dataIndexWidth]
    omega
  rw [dataOut, dataValid_of_window hreq hwe hwindow, if_pos rfl, dataBits]
  simp only [hregister]
  rw [dataByte_foldl (fun lane ↦ i.slave.be.getLsbD lane)
    (fun lane ↦ i.slave.wdata.extractLsb' (lane * 8) 8) i.data _ _ hindex, byteAt, Nat.mul_comm 8]
  rfl

/-- A store to the first two data registers, from the first lane of the bus on, replaces the bytes
it covers. -/
theorem dataByte_dataOut {offset : BitVec 12} {bytes word : ℕ} (value : BitVec 64)
    (hbytes : bytes ≤ busBytes cfg) (hword : word < 2)
    (hoffset : offset.toNat = 0x380 + 4 * word) (hlane : offset.toNat % busBytes cfg = 0)
    {index : ℕ} (hindex : index < 4 * cfg.dataCount) :
    dataByte (dataOut (i.withAccess data (writeAccess cfg offset bytes value))) index =
      if 4 * word ≤ index ∧ index < 4 * word + bytes then byteAt value (index - 4 * word)
      else dataByte data index := by
  have hcount := cfg.two_le_dataCount
  have hbus : busBytes cfg = cfg.busWidth / 8 := rfl
  have hregister : dataRegister offset = word := by
    unfold dataRegister
    omega
  rw [dataByte_dataOut_of_store rfl rfl
    (by rw [Inputs.withAccess, offset_writeAccess]; exact inDataWindow_iff.mpr (by omega)) hindex,
    Inputs.withAccess, offset_writeAccess, hregister]
  have hbe (lane : ℕ) : (writeAccess cfg offset bytes value).be.getLsbD lane =
      decide (lane < bytes) := by
    simp only [writeAccess, hlane, BitVec.shiftLeft_zero, BitVec.getLsbD_setWidth,
      BitVec.getLsbD_allOnes]
    by_cases hinside : lane < bytes
    · simp [hinside, show lane < cfg.busWidth / 8 by omega]
    · simp [hinside]
  have hwdata {lane : ℕ} (hinside : lane < cfg.busWidth / 8) :
      byteAt (writeAccess cfg offset bytes value).wdata lane = byteAt value lane := by
    simp only [writeAccess, hlane, Nat.mul_zero, BitVec.shiftLeft_zero]
    exact byteAt_setWidth value cfg.busWidth (by omega)
  simp only [hbe, decide_eq_true_eq]
  by_cases hcovered : 4 * word ≤ index ∧ index < 4 * word + bytes
  · rw [if_pos hcovered, if_pos ⟨hcovered.1, by omega, by omega⟩, hwdata (by omega)]
  · rw [if_neg hcovered, if_neg (by omega)]

theorem dataByte_setIfInBounds {count : ℕ} (words : Vector (BitVec 32) count) (word : ℕ)
    (value : BitVec 32) {index : ℕ} (hindex : index < 4 * count) :
    dataByte (words.setIfInBounds word value) index =
      if index / 4 = word then byteAt value (index % 4) else dataByte words index := by
  unfold dataByte
  by_cases hword : word = index / 4
  · rw [hword, if_pos rfl, Vector.getElem?_setIfInBounds_self_of_lt (by omega), Option.getD_some]
  · rw [Vector.getElem?_setIfInBounds_ne hword, if_neg fun heq ↦ hword heq.symm]

/-- A store of four bytes to a data register, with the first lane of the bus. -/
theorem writeWord_eq {offset : BitVec 12} {word : ℕ} (value : BitVec 32) (hword : word < 2)
    (hoffset : offset.toNat = 0x380 + 4 * word) (hlane : offset.toNat % busBytes cfg = 0) :
    writeWord i data offset value = data.setIfInBounds word value := by
  have hbytes : 4 ≤ busBytes cfg := by rcases busBytes_eq cfg with h | h <;> omega
  refine dataByte_ext fun index hindex ↦ ?_
  rw [writeWord, dataByte_dataOut i data _ hbytes hword hoffset hlane hindex,
    dataByte_setIfInBounds data word value hindex]
  by_cases hcovered : index / 4 = word
  · rw [if_pos (by omega), if_pos hcovered, byteAt_setWidth _ _ (by omega),
      show index - 4 * word = index % 4 by omega]
  · rw [if_neg (by omega), if_neg hcovered]

/-- A store below the data registers does not reach them. -/
theorem writeWord_of_lt {offset : BitVec 12} (value : BitVec 32) (hlow : offset.toNat < 0x380) :
    writeWord i data offset value = data := by
  have hvalid : dataValid (i.withAccess data (writeAccess cfg offset 4 (value.setWidth 64))) =
      false := by
    have hbelow : ¬ dataBaseAddr ≤ offset := by
      intro hge
      have hbase : 0x380 ≤ offset.toNat := hge
      omega
    rw [dataValid, Inputs.withAccess, offset_writeAccess, decide_eq_false hbelow]
    simp
  rw [writeWord, dataOut, hvalid, if_neg Bool.false_ne_true]
  rfl

/-- A store of four bytes to the data registers replaces the first one. -/
theorem writeWord_data (value : BitVec 32) :
    writeWord i data dataAddr value = data.setIfInBounds 0 value := by
  refine writeWord_eq i data value (by decide) rfl ?_
  rcases busBytes_eq cfg with hbytes | hbytes <;> rw [hbytes] <;> rfl

/-- A store of eight bytes to the data registers replaces the first two. -/
theorem writeDouble_data (value : BitVec 64) :
    writeDouble i data dataAddr value =
      (data.setIfInBounds 0 (value.extractLsb' 0 32)).setIfInBounds 1
        (value.extractLsb' 32 32) := by
  unfold writeDouble
  split_ifs with hwide
  · have hbytes : busBytes cfg = 8 := by simp [busBytes, hwide]
    refine dataByte_ext fun index hindex ↦ ?_
    rw [dataByte_dataOut i data value (by omega) (show 0 < 2 by decide) rfl
      (by rw [hbytes]; rfl) hindex, dataByte_setIfInBounds _ _ _ hindex,
      dataByte_setIfInBounds _ _ _ hindex]
    rcases (show index / 4 = 0 ∨ index / 4 = 1 ∨ 2 ≤ index / 4 by omega) with hzero | hone | hbeyond
    · rw [if_pos (by omega), if_neg (by omega), if_pos hzero, byteAt_extractLsb' value 0 _ 32
        (by omega)]
      congr 1
      omega
    · rw [if_pos (by omega), if_pos hone, byteAt_extractLsb' value 4 _ 32 (by omega)]
      congr 1
      omega
    · rw [if_neg (by omega), if_neg (by omega), if_neg (by omega)]
  · have hbytes : busBytes cfg = 4 := by
      simp [busBytes, cfg.busWidth_eq.resolve_right hwide]
    rw [writeWord_data, writeWord_eq i _ _ (show 1 < 2 by decide) rfl (by rw [hbytes]; rfl)]

end Writes

end RiscvDebug.DmMem
