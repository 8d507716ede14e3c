import RiscvDebug.DebugModule.DataLanes

/-!
# The debug memory on buses of 32 and of 64 bits

Each range of the debug memory that the harts read holds 64-bit rows (`ReadRange.row`), and a read
returns the row of its offset on a bus of either width (`wordMux_next_range`). The wide bus shows
both words of the row that the narrow one shows one at a time (`rdataOut_wide`), and a wide store is
a pair of narrow ones (`dataOut_doubleStore`), so two instances in equal states are the same memory
(`sameMemory`). Equal accesses keep the states equal (`sameControl_run`).
-/

set_option autoImplicit false
set_option relaxedAutoImplicit false

namespace RiscvDebug

open Foundations

/-- The same parameters on a bus of another width, with its own selectable harts. -/
abbrev Config.onBus (cfg : Config) (width : ℕ) (hwidth : width = 32 ∨ width = 64)
    (selectableHarts : BitVec cfg.nrHarts) : Config :=
  { cfg with busWidth := width, busWidth_eq := hwidth, selectableHarts := selectableHarts }

/-- The same parameters on a bus of 32 bits. -/
abbrev Config.narrow (cfg : Config) (selectableHarts : BitVec cfg.nrHarts) : Config :=
  cfg.onBus 32 Config.width_32 selectableHarts

/-- The same parameters on a bus of 64 bits. -/
abbrev Config.wide (cfg : Config) (selectableHarts : BitVec cfg.nrHarts) : Config :=
  cfg.onBus 64 Config.width_64 selectableHarts

namespace DmMem

variable {cfg : Config}

/-! ### Rows -/

/-- The ranges of the debug memory in which every read is answered by its row. -/
inductive ReadRange
  | abstractCmd
  | progBuf
  | data
  | flags
  | rom
deriving DecidableEq, Repr

namespace ReadRange

/-- The offset lies in the range. -/
def Contains (cfg : Config) (offset : BitVec 12) : ReadRange → Prop
  | .abstractCmd => abstractCmdBaseAddr ≤ offset ∧ offset ≤ abstractCmdEndAddr
  | .progBuf => progBufBaseAddr ≤ offset ∧ offset ≤ progBufEndAddr
  | .data => InDataWindow cfg offset
  | .flags => flagsBaseAddr ≤ offset ∧ offset ≤ flagsEndAddr
  | .rom => haltAddress.setWidth 12 ≤ offset

/-- What the harts see in a row of the range. -/
def row (state : State) (i : Inputs cfg) (index : ℕ) : ReadRange → BitVec 64
  | .abstractCmd => (cfg.abstractCmd i.cmd).entry (index - 0x67)
  | .progBuf =>
    i.progbuf[2 * (index - 0x6c) + 1]?.getD 0 ++ i.progbuf[2 * (index - 0x6c)]?.getD 0
  | .data => i.data[2 * (index - 0x70) + 1]?.getD 0 ++ i.data[2 * (index - 0x70)]?.getD 0
  | .flags =>
    if index - 0x80 = i.selected % 4096 / 8 then
      (0#6 ++ bit (state == .resume && !i.ndmreset) ++ bit (state == .go && !i.ndmreset)).setWidth
        64 <<< (8 * (i.selected % 4096 % 8))
    else 0
  | .rom => cfg.romRdata (index % 2 ^ clog2 cfg.romWords.length)

end ReadRange

/-- A read of a range returns the row of its offset. -/
theorem wordMux_next_range {r : Regs cfg} {i : Inputs cfg} (hreads : i.slave.reads = true)
    (range : ReadRange) (hrange : range.Contains cfg i.slave.offset) :
    (next r i).wordMux = range.row r.state i (i.slave.offset.toNat / 8) := by
  cases range with
  | abstractCmd =>
    obtain ⟨hlow, hhigh⟩ : 0x338 ≤ i.slave.offset.toNat ∧ i.slave.offset.toNat ≤ 0x35f := hrange
    rw [wordMux_next (by omega), rdataNext_abstractCmd hreads hlow hhigh]
    rfl
  | progBuf =>
    obtain ⟨hlow, hhigh⟩ : 0x360 ≤ i.slave.offset.toNat ∧ i.slave.offset.toNat ≤ 0x37f := hrange
    rw [wordMux_next (by omega), rdataNext_progBuf hreads hlow hhigh]
    rfl
  | data =>
    obtain ⟨hlow, hhigh⟩ := inDataWindow_iff.mp hrange
    have hcount := cfg.dataCount_le
    have hpair : dataRegister i.slave.offset / 2 = i.slave.offset.toNat / 8 - 0x70 := by
      unfold dataRegister
      omega
    rw [wordMux_next (by omega), rdataNext_data hreads hrange, hpair]
    rfl
  | flags =>
    obtain ⟨hlow, hhigh⟩ : 0x400 ≤ i.slave.offset.toNat ∧ i.slave.offset.toNat ≤ 0x7ff := hrange
    have hselection : (BitVec.ofNat 12 i.selected).toNat = i.selected % 4096 :=
      BitVec.toNat_ofNat _ _
    have hrow : i.slave.offset >>> 3 <<< 3 - flagsBaseAddr =
        BitVec.ofNat 12 i.selected &&& 0xff8#12 ↔
          i.slave.offset.toNat / 8 - 0x80 = i.selected % 4096 / 8 := by
      rw [flagRow_iff hlow, hselection, show flagsBaseAddr.toNat = 0x400 from rfl]
      omega
    obtain ⟨hgo, hresume⟩ := DmTop.hartCtrlQueue_offers r i
    rw [wordMux_next (by omega), rdataNext_flags hreads hlow (by omega), flagsRdata]
    simp only [hrow, hgo, hresume, and_laneMask, hselection]
    rfl
  | rom => exact wordMux_next_rom hreads hrange

/-! ### Two instances in equal states -/

section Instances

variable {width width' : ℕ} {hwidth : width = 32 ∨ width = 64} {hwidth' : width' = 32 ∨ width' = 64}
  {selectable selectable' : BitVec cfg.nrHarts}

/-- The inputs of the instance on a bus, with an access of that bus. -/
def Inputs.onBus (i : Inputs cfg) (access : SlaveAccess (cfg.onBus width hwidth selectable)) :
    Inputs (cfg.onBus width hwidth selectable) where
  ndmreset := i.ndmreset
  hartsel := i.hartsel
  haltreq := i.haltreq
  resumereq := i.resumereq
  clearResumeack := i.clearResumeack
  progbuf := i.progbuf
  data := i.data
  cmdValid := i.cmdValid
  cmd := i.cmd
  slave := access

/-- The instances are in equal states. The registers that latch an access may differ. -/
structure SameControl (r : Regs (cfg.onBus width hwidth selectable))
    (r' : Regs (cfg.onBus width' hwidth' selectable')) : Prop where
  state : r.state = r'.state
  halted : r.halted = r'.halted
  resuming : r.resuming = r'.resuming

/-- The rows do not depend on the bus. -/
theorem row_onBus (range : ReadRange) (state : State) (i : Inputs cfg)
    (access : SlaveAccess (cfg.onBus width hwidth selectable)) (index : ℕ) :
    range.row state (i.onBus access) index = range.row state i index := by
  cases range <;> rfl

/-- The offset of the other word of an aligned row lies in the same range. The data registers fill
their rows when their number is even. -/
theorem contains_add_four {range : ReadRange} {offset : BitVec 12}
    (heven : cfg.dataCount % 2 = 0) (haligned : offset.toNat % 8 = 0)
    (hrange : range.Contains cfg offset) : range.Contains cfg (offset + 4) := by
  have hlt := offset.isLt
  have hnext : (offset + 4).toNat = offset.toNat + 4 := by
    rw [BitVec.toNat_add, show (4 : BitVec 12).toNat = 4 from rfl]
    omega
  cases range with
  | abstractCmd =>
    obtain ⟨hlow, hhigh⟩ : 0x338 ≤ offset.toNat ∧ offset.toNat ≤ 0x35f := hrange
    show 0x338 ≤ (offset + 4).toNat ∧ (offset + 4).toNat ≤ 0x35f
    omega
  | progBuf =>
    obtain ⟨hlow, hhigh⟩ : 0x360 ≤ offset.toNat ∧ offset.toNat ≤ 0x37f := hrange
    show 0x360 ≤ (offset + 4).toNat ∧ (offset + 4).toNat ≤ 0x37f
    omega
  | data =>
    obtain ⟨hlow, hhigh⟩ := inDataWindow_iff.mp hrange
    refine inDataWindow_iff.mpr ?_
    omega
  | flags =>
    obtain ⟨hlow, hhigh⟩ : 0x400 ≤ offset.toNat ∧ offset.toNat ≤ 0x7ff := hrange
    show 0x400 ≤ (offset + 4).toNat ∧ (offset + 4).toNat ≤ 0x7ff
    omega
  | rom =>
    have hlow : 0x800 ≤ offset.toNat := hrange
    show 0x800 ≤ (offset + 4).toNat
    omega

end Instances

/-! ### Equal accesses -/

section EqualAccesses

variable {width width' : ℕ} {hwidth : width = 32 ∨ width = 64} {hwidth' : width' = 32 ∨ width' = 64}
  {selectable : BitVec cfg.nrHarts} {r : Regs (cfg.onBus width hwidth selectable)}
  {r' : Regs (cfg.onBus width' hwidth' selectable)}
  {access : SlaveAccess (cfg.onBus width hwidth selectable)}
  {access' : SlaveAccess (cfg.onBus width' hwidth' selectable)}

/-- The accesses agree in what the control registers see of them: the request, its offset and the
hart that a write names. -/
structure SameRequest (access : SlaveAccess (cfg.onBus width hwidth selectable))
    (access' : SlaveAccess (cfg.onBus width' hwidth' selectable)) : Prop where
  req : access.req = access'.req
  we : access.we = access'.we
  offset : access.offset = access'.offset
  wdataHartsel : access.wdataHartsel = access'.wdataHartsel

/-- Equal accesses keep the states equal. -/
theorem sameControl_next (hsame : SameControl r r') (i : Inputs cfg)
    (hrequest : SameRequest access access') :
    SameControl (next r (i.onBus access)) (next r' (i.onBus access')) := by
  have hwrites (address : BitVec 12) : (i.onBus access).slave.writes address =
      (i.onBus access').slave.writes address := by
    show (access.req && access.we && access.offset == address) = _
    rw [hrequest.req, hrequest.we, hrequest.offset]
    rfl
  have hhartsel : (i.onBus access).slave.wdataHartsel = (i.onBus access').slave.wdataHartsel :=
    hrequest.wdataHartsel
  have hvalid : (i.onBus access).slave.wdataHartselValid =
      (i.onBus access').slave.wdataHartselValid := by
    unfold SlaveAccess.wdataHartselValid
    rw [hhartsel]
  constructor
  · show (hartCtrlQueue r (i.onBus access)).state = (hartCtrlQueue r' (i.onBus access')).state
    unfold hartCtrlQueue stateBranch idleBranch Inputs.selectedHalts
    simp only [hsame.state, hsame.halted, hsame.resuming, hwrites, hhartsel]
    rfl
  · show selectable &&& haltedNext r (i.onBus access) =
      selectable &&& haltedNext r' (i.onBus access')
    unfold haltedNext
    simp only [hsame.halted, hwrites, hhartsel, hvalid]
    rfl
  · show selectable &&& resumingNext r (i.onBus access) =
      selectable &&& resumingNext r' (i.onBus access')
    unfold resumingNext
    simp only [hsame.resuming, hwrites, hhartsel, hvalid]
    rfl

/-- The debug memory alone as a clocked machine. -/
def machine (cfg : Config) : ClockedMachine (Regs cfg) (Inputs cfg) where
  reset := Regs.reset cfg
  step := next

/-- Under equal accesses from reset on, the instances on two buses stay in equal states. -/
theorem sameControl_run (i : ℕ → Inputs cfg)
    {accesses : ℕ → SlaveAccess (cfg.onBus width hwidth selectable)}
    {accesses' : ℕ → SlaveAccess (cfg.onBus width' hwidth' selectable)}
    (hrequests : ∀ time, SameRequest (accesses time) (accesses' time)) (time : ℕ) :
    SameControl ((machine _).states (fun time ↦ (i time).onBus (accesses time)) time)
      ((machine _).states (fun time ↦ (i time).onBus (accesses' time)) time) := by
  have hreset : SameControl (machine (cfg.onBus width hwidth selectable)).reset
      (machine (cfg.onBus width' hwidth' selectable)).reset := ⟨rfl, rfl, rfl⟩
  have hstep (time : ℕ)
      (hsame : SameControl ((machine _).states (fun time ↦ (i time).onBus (accesses time)) time)
        ((machine _).states (fun time ↦ (i time).onBus (accesses' time)) time)) :
      SameControl ((machine _).states (fun time ↦ (i time).onBus (accesses time)) (time + 1))
        ((machine _).states (fun time ↦ (i time).onBus (accesses' time)) (time + 1)) :=
    sameControl_next hsame (i time) (hrequests time)
  exact ClockedMachine.lockstep_states hreset hstep time

end EqualAccesses

/-! ### Wide and narrow accesses -/

section Widths

variable {selectable selectable' : BitVec cfg.nrHarts}

/-- The narrow bus shows the half of the row that the address has selected. -/
theorem rdataOut_narrow (r : Regs (cfg.narrow selectable)) :
    r.rdataOut = r.wordMux.extractLsb' (if r.wordEnable32 then 32 else 0) 32 := by
  have hnarrow : ¬ (cfg.narrow selectable).busWidth = 64 := by
    show ¬ 32 = 64
    decide
  rw [Regs.rdataOut, if_neg hnarrow]
  split_ifs
  · exact BitVec.setWidth_eq _
  · exact BitVec.setWidth_eq _

/-- The wide bus shows the whole row. -/
theorem rdataOut_wide (r : Regs (cfg.wide selectable)) : r.rdataOut = r.wordMux := by
  rw [Regs.rdataOut, if_pos rfl]
  exact BitVec.setWidth_eq _

theorem append_halves (row : BitVec 64) :
    row.extractLsb' 32 32 ++ row.extractLsb' 0 32 = row := by
  apply BitVec.eq_of_getLsbD_eq
  intro index hindex
  rw [BitVec.getLsbD_append, BitVec.getLsbD_extractLsb', BitVec.getLsbD_extractLsb']
  split_ifs with hlow
  · simp [hlow]
  · rw [show 32 + (index - 32) = index by omega]
    simp [show index - 32 < 32 by omega]

/-- An aligned read of the wide bus returns the words that two reads of the narrow one return. -/
theorem rdataOut_next_wide (heven : cfg.dataCount % 2 = 0) (i : Inputs cfg)
    {lowerRegs upperRegs : Regs (cfg.narrow selectable)} {wideRegs : Regs (cfg.wide selectable')}
    {lower upper : SlaveAccess (cfg.narrow selectable)}
    {double : SlaveAccess (cfg.wide selectable')}
    (hlower : SameControl lowerRegs wideRegs) (hupper : SameControl upperRegs wideRegs)
    (hlowerReads : lower.reads = true) (hupperReads : upper.reads = true)
    (hdoubleReads : double.reads = true) (hdouble : double.addr = lower.addr.setWidth 64)
    (hnext : upper.addr = lower.addr + 4) (haligned : lower.addr.toNat % 8 = 0)
    (range : ReadRange) (hrange : range.Contains cfg lower.offset) :
    (next wideRegs (i.onBus double)).rdataOut =
      (next upperRegs (i.onBus upper)).rdataOut ++ (next lowerRegs (i.onBus lower)).rdataOut := by
  have hsum : upper.addr.toNat = (lower.addr.toNat + 4) % 2 ^ 32 := by
    rw [hnext]
    exact BitVec.toNat_add _ _
  have hlowerOffset : lower.offset.toNat = lower.addr.toNat % 2 ^ 12 := BitVec.toNat_setWidth _ _
  have hupperOffset : upper.offset = lower.offset + 4 := by
    apply BitVec.eq_of_toNat_eq
    rw [BitVec.toNat_add, show (4 : BitVec 12).toNat = 4 from rfl, hlowerOffset,
      SlaveAccess.offset, BitVec.toNat_setWidth, hsum]
    omega
  have hdoubleOffset : double.offset = lower.offset := by
    rw [SlaveAccess.offset, hdouble]
    exact BitVec.setWidth_setWidth_of_le _ (show 12 ≤ 64 by decide)
  -- All three accesses fall into one row of the range.
  have hrow : upper.offset.toNat / 8 = lower.offset.toNat / 8 := by
    rw [hupperOffset, BitVec.toNat_add, show (4 : BitVec 12).toNat = 4 from rfl, hlowerOffset]
    omega
  have hlowerMux := wordMux_next_range (r := lowerRegs) (i := i.onBus lower) hlowerReads range
    hrange
  have hupperMux := wordMux_next_range (r := upperRegs) (i := i.onBus upper) hupperReads range
    (by
      show range.Contains cfg upper.offset
      rw [hupperOffset]
      exact contains_add_four heven (by omega) hrange)
  have hdoubleMux := wordMux_next_range (r := wideRegs) (i := i.onBus double) hdoubleReads range
    (by
      show range.Contains cfg double.offset
      rw [hdoubleOffset]
      exact hrange)
  have hlowerHalf : (next lowerRegs (i.onBus lower)).wordEnable32 = false := by
    show lower.addr.getLsbD 2 = false
    rw [BitVec.getLsbD, Nat.testBit_eq_decide_div_mod_eq]
    exact decide_eq_false (by omega)
  have hupperHalf : (next upperRegs (i.onBus upper)).wordEnable32 = true := by
    show upper.addr.getLsbD 2 = true
    rw [BitVec.getLsbD, Nat.testBit_eq_decide_div_mod_eq, hsum]
    exact decide_eq_true (by omega)
  rw [row_onBus] at hlowerMux hupperMux hdoubleMux
  rw [rdataOut_wide, rdataOut_narrow, rdataOut_narrow, hlowerHalf, hupperHalf, hlowerMux,
    hupperMux, hdoubleMux, hlower.state, hupper.state]
  show range.row wideRegs.state i (double.offset.toNat / 8) =
    (range.row wideRegs.state i (upper.offset.toNat / 8)).extractLsb' 32 32 ++
      (range.row wideRegs.state i (lower.offset.toNat / 8)).extractLsb' 0 32
  rw [hrow, hdoubleOffset, append_halves]

/-- The store of one word of a wide value at its place, with its byte enables. -/
def wordStore (selectable : BitVec cfg.nrHarts) (address : BitVec 32) (be : BitVec 8)
    (value : BitVec 64) (word : ℕ) : SlaveAccess (cfg.narrow selectable) :=
  DmTop.storeAt (address + BitVec.ofNat 32 (4 * word)) (be.extractLsb' (4 * word) _)
    (value.extractLsb' (8 * (4 * word)) 32)

/-- The inputs in the cycle after a narrow store, with the data registers that it leaves. -/
def Inputs.after (i : Inputs cfg) (access : SlaveAccess (cfg.narrow selectable)) : Inputs cfg :=
  { i with data := (dataOut (i.onBus access) :) }

/-- The store of a wide value. -/
def doubleStore (selectable : BitVec cfg.nrHarts) (address : BitVec 32) (be : BitVec 8)
    (value : BitVec 64) : SlaveAccess (cfg.wide selectable) :=
  DmTop.storeAt (address.setWidth 64) (be.setWidth _) value

/-- A byte that a store to one of the data registers leaves. -/
theorem dataByte_dataOut_of_register {i : Inputs cfg} (hreq : i.slave.req = true)
    (hwe : i.slave.we = true) (word : ℕ) (hword : word < cfg.dataCount)
    (hoffset : i.slave.offset.toNat = 0x380 + 4 * word) {index : ℕ}
    (hindex : index < 4 * cfg.dataCount) :
    dataByte (dataOut i) index =
      if 4 * word ≤ index ∧ index < 4 * word + busBytes cfg ∧
          i.slave.be.getLsbD (index - 4 * word) = true then
        byteAt i.slave.wdata (index - 4 * word)
      else dataByte i.data index := by
  have hregister : dataRegister i.slave.offset = word := by
    unfold dataRegister
    omega
  rw [dataByte_dataOut_of_store hreq hwe (inDataWindow_iff.mpr (by omega)) hindex, hregister]

section Stores

variable (i : Inputs cfg) {address : BitVec 32} (haddress : address.setWidth 12 = dataBaseAddr)
  (be : BitVec 8) (value : BitVec 64) {index : ℕ} (hindex : index < 4 * cfg.dataCount)
include haddress hindex

/-- A narrow store replaces the enabled bytes of its word. -/
theorem dataByte_wordStore {word : ℕ} (hword : word < 2) :
    dataByte (dataOut (i.onBus (wordStore selectable address be value word))) index =
      if index / 4 = word ∧ be.getLsbD index = true then byteAt value index
      else dataByte i.data index := by
  have hcount := cfg.two_le_dataCount
  have hbytes : busBytes (cfg.narrow selectable) = 4 := show 32 / 8 = 4 by decide
  have hbe (lane : ℕ) : (wordStore selectable address be value word).be.getLsbD lane =
      (decide (lane < busBytes (cfg.narrow selectable)) && be.getLsbD (4 * word + lane)) := by
    show (be.extractLsb' (4 * word) _).getLsbD lane = _
    rw [BitVec.getLsbD_extractLsb']
    rfl
  have hwdata {lane : ℕ} (hlane : lane < 4) :
      byteAt (wordStore selectable address be value word).wdata lane =
        byteAt value (4 * word + lane) := by
    show byteAt (value.extractLsb' (8 * (4 * word)) 32) lane = byteAt value (4 * word + lane)
    rw [byteAt_extractLsb' value (4 * word) lane 32 (by omega)]
  have hoffset : (wordStore selectable address be value word).offset.toNat =
      0x380 + 4 * word := by
    have hbase : address.toNat % 2 ^ 12 = 0x380 := by
      rw [← BitVec.toNat_setWidth, haddress]
      rfl
    show ((address + BitVec.ofNat 32 (4 * word)).setWidth 12).toNat = _
    rw [BitVec.toNat_setWidth, BitVec.toNat_add, BitVec.toNat_ofNat]
    omega
  have hstored := dataByte_dataOut_of_register
    (i := i.onBus (wordStore selectable address be value word)) rfl rfl word
    (show word < cfg.dataCount by omega) hoffset hindex
  rw [hstored]
  simp only [Inputs.onBus, hbe, hbytes, Bool.and_eq_true, decide_eq_true_eq]
  by_cases hinside : index / 4 = word
  · have hlane : 4 * word + (index - 4 * word) = index := by omega
    rw [hlane, hwdata (by omega), hlane]
    refine if_congr ⟨?_, ?_⟩ rfl rfl
    · rintro ⟨-, -, -, henabled⟩
      exact ⟨hinside, henabled⟩
    · rintro ⟨-, henabled⟩
      exact ⟨by omega, by omega, by omega, henabled⟩
  · rw [if_neg (by omega), if_neg (by omega)]

/-- A wide store replaces the enabled bytes of both words. -/
theorem dataByte_doubleStore :
    dataByte (dataOut (i.onBus (doubleStore selectable address be value))) index =
      if index / 4 < 2 ∧ be.getLsbD index = true then byteAt value index
      else dataByte i.data index := by
  have hcount := cfg.two_le_dataCount
  have hbytes : busBytes (cfg.wide selectable) = 8 := show 64 / 8 = 8 by decide
  have hbe (lane : ℕ) : (doubleStore selectable address be value).be.getLsbD lane =
      (decide (lane < busBytes (cfg.wide selectable)) && be.getLsbD lane) := by
    show (be.setWidth _).getLsbD lane = _
    rw [BitVec.getLsbD_setWidth]
    rfl
  have hoffset : (doubleStore selectable address be value).offset.toNat = 0x380 + 4 * 0 := by
    have hbase : (doubleStore selectable address be value).offset = address.setWidth 12 :=
      BitVec.setWidth_setWidth_of_le _ (show 12 ≤ 64 by decide)
    rw [hbase, haddress]
    rfl
  have hstored := dataByte_dataOut_of_register
    (i := i.onBus (doubleStore selectable address be value)) rfl rfl 0
    (show 0 < cfg.dataCount by omega) hoffset hindex
  rw [hstored]
  simp only [Inputs.onBus, hbe, hbytes, Bool.and_eq_true, decide_eq_true_eq, Nat.mul_zero,
    Nat.sub_zero, Nat.zero_le, Nat.zero_add, true_and]
  refine if_congr ⟨?_, ?_⟩ rfl rfl
  · rintro ⟨hlane, -, henabled⟩
    exact ⟨by omega, henabled⟩
  · rintro ⟨hlane, henabled⟩
    exact ⟨by omega, by omega, henabled⟩

end Stores

/-- A wide store to the first data registers leaves what the stores of its two words leave, in
either order. -/
theorem dataOut_doubleStore (i : Inputs cfg) {address : BitVec 32}
    (haddress : address.setWidth 12 = dataBaseAddr) (be : BitVec 8) (value : BitVec 64)
    {first second : ℕ} (hwords : first = 0 ∧ second = 1 ∨ first = 1 ∧ second = 0) :
    dataOut (i.onBus (doubleStore selectable' address be value)) =
      dataOut ((i.after (wordStore selectable address be value first)).onBus
        (wordStore selectable address be value second)) := by
  refine dataByte_ext fun index hindex ↦ ?_
  have hfirst : first < 2 := by omega
  have hsecond : second < 2 := by omega
  refine (dataByte_doubleStore i haddress be value hindex).trans ?_
  refine Eq.trans ?_ (dataByte_wordStore (i.after (wordStore selectable address be value first))
    haddress be value hindex hsecond).symm
  have hstored : dataByte (i.after (wordStore selectable address be value first)).data index = _ :=
    dataByte_wordStore i haddress be value hindex hfirst
  rw [hstored]
  by_cases henabled : be.getLsbD index = true
  · simp only [henabled, and_true]
    split_ifs <;> first | rfl | omega
  · rw [if_neg fun hlane ↦ henabled hlane.2, if_neg fun hlane ↦ henabled hlane.2,
      if_neg fun hlane ↦ henabled hlane.2]

/-- The instances on the two buses are the same memory: in equal states a wide read returns what
the reads of both words return, and a wide store to the data leaves what the stores of both words
leave. The registers that latched earlier accesses, and the other inputs of the accesses, are
arbitrary. -/
structure SameMemory (cfg : Config) (selectable selectable' : BitVec cfg.nrHarts) : Prop where
  reads : ∀ (i : Inputs cfg) (lowerRegs upperRegs : Regs (cfg.narrow selectable))
    (wideRegs : Regs (cfg.wide selectable')) (lower upper : SlaveAccess (cfg.narrow selectable))
    (double : SlaveAccess (cfg.wide selectable')) (range : ReadRange),
    SameControl lowerRegs wideRegs → SameControl upperRegs wideRegs →
      lower.reads = true → upper.reads = true → double.reads = true →
      double.addr = lower.addr.setWidth 64 → upper.addr = lower.addr + 4 →
      lower.addr.toNat % 8 = 0 → range.Contains cfg lower.offset →
      (next wideRegs (i.onBus double)).rdataOut =
        (next upperRegs (i.onBus upper)).rdataOut ++ (next lowerRegs (i.onBus lower)).rdataOut
  writes : ∀ (i : Inputs cfg) (address : BitVec 32) (be : BitVec 8) (value : BitVec 64)
    (first second : ℕ), address.setWidth 12 = dataBaseAddr →
      first = 0 ∧ second = 1 ∨ first = 1 ∧ second = 0 →
      dataOut (i.onBus (doubleStore selectable' address be value)) =
        dataOut ((i.after (wordStore selectable address be value first)).onBus
          (wordStore selectable address be value second))

/-- The package has two data registers, which fill one row. -/
theorem sameMemory (cfg : Config) (heven : cfg.dataCount % 2 = 0)
    (selectable selectable' : BitVec cfg.nrHarts) : SameMemory cfg selectable selectable' where
  reads := fun i _ _ _ _ _ _ range hlower hupper hlowerReads hupperReads hdoubleReads hdouble hnext
      haligned hrange ↦
    rdataOut_next_wide heven i hlower hupper hlowerReads hupperReads hdoubleReads hdouble hnext
      haligned range hrange
  writes := fun i _ be value _ _ haddress hwords ↦
    dataOut_doubleStore i haddress be value hwords

theorem sameMemory_twoHarts : SameMemory DmTop.twoHarts 0b11 0b01 :=
  sameMemory DmTop.twoHarts (by decide) 0b11 0b01

end Widths

end DmMem

end RiscvDebug
