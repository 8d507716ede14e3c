import RiscvDebug.DebugModule.AbstractCommandRom
import RiscvDebug.DebugModule.DebugRom

/-!
# The debug memory

The module `dm_mem`: the four-state control of commands and resumes (`hartCtrlQueue`), the
halted and resume-acknowledge bits, and the memory the harts see. Its processes become one
function each, and `next` gathers the registers of the next cycle.
-/

set_option autoImplicit false
set_option relaxedAutoImplicit false

namespace RiscvDebug.DmMem

open Foundations

/-! ### Registers, inputs and addresses -/

/-- The states of the hart control. -/
inductive State
  | idle
  | go
  | resume
  | cmdExecuting
deriving DecidableEq, Repr

/-- The registers of `dm_mem`, that of the ROM included. -/
structure Regs (cfg : Config) where
  state : State
  halted : BitVec cfg.nrHarts
  resuming : BitVec cfg.nrHarts
  rdata : BitVec 64
  fwdRom : Bool
  wordEnable32 : Bool
  romAddr : ℕ
deriving DecidableEq

/-- One access of the bus the harts reach the debug memory through. -/
structure SlaveAccess (cfg : Config) where
  req : Bool
  we : Bool
  addr : BitVec cfg.busWidth
  be : BitVec (cfg.busWidth / 8)
  wdata : BitVec cfg.busWidth
deriving DecidableEq

/-- The inputs of `dm_mem` in one cycle. -/
structure Inputs (cfg : Config) where
  ndmreset : Bool
  hartsel : BitVec 20
  haltreq : BitVec cfg.nrHarts
  resumereq : BitVec cfg.nrHarts
  clearResumeack : Bool
  progbuf : Vector (BitVec 32) progBufSize
  data : Vector (BitVec 32) cfg.dataCount
  cmdValid : Bool
  cmd : Command
  slave : SlaveAccess cfg

/-- The registers after the asynchronous reset. -/
def Regs.reset (cfg : Config) : Regs cfg where
  state := .idle
  halted := 0
  resuming := 0
  rdata := 0
  fwdRom := false
  wordEnable32 := false
  romAddr := 0

def whereToAddr : BitVec 12 := 0x300
def flagsBaseAddr : BitVec 12 := 0x400
def flagsEndAddr : BitVec 12 := 0x7ff
def haltedAddr : BitVec 12 := 0x100
def goingAddr : BitVec 12 := 0x108
def resumingAddr : BitVec 12 := 0x110
def exceptionAddr : BitVec 12 := 0x118
def dataBaseAddr : BitVec 12 := dataAddr
/-- `DataEndAddr`. -/
def dataEndAddr (cfg : Config) : BitVec 12 := dataAddr + BitVec.ofNat 12 (4 * cfg.dataCount - 1)
def progBufBaseAddr : BitVec 12 := dataAddr - BitVec.ofNat 12 (4 * progBufSize)
def progBufEndAddr : BitVec 12 := dataAddr - 1
def abstractCmdBaseAddr : BitVec 12 := progBufBaseAddr - 40
def abstractCmdEndAddr : BitVec 12 := progBufBaseAddr - 1

variable {cfg : Config}

/-- The offset of an access in the debug memory, the low `DbgAddressBits` of its address. -/
def SlaveAccess.offset (a : SlaveAccess cfg) : BitVec 12 := a.addr.setWidth 12

/-- `wdata_hartsel`. -/
def SlaveAccess.wdataHartsel (a : SlaveAccess cfg) : ℕ := cfg.hartIndex a.wdata

/-- `wdata_hartsel_valid`. -/
def SlaveAccess.wdataHartselValid (a : SlaveAccess cfg) : Bool :=
  decide (a.wdataHartsel ≤ cfg.nrHarts - 1)

/-- A write to one of the control addresses. -/
def SlaveAccess.writes (a : SlaveAccess cfg) (address : BitVec 12) : Bool :=
  a.req && a.we && a.offset == address

/-- A read of the debug memory. -/
def SlaveAccess.reads (a : SlaveAccess cfg) : Bool := a.req && !a.we

/-- `hartsel`, the index of the selected hart. -/
def Inputs.selected (i : Inputs cfg) : ℕ := cfg.hartIndex i.hartsel

/-- `hartsel_valid`. -/
def Inputs.selectedValid (i : Inputs cfg) : Bool := decide (i.selected ≤ cfg.nrHarts - 1)

/-- `halted_aligned[hartsel]`: the selected hart writes Halted in this cycle. -/
def Inputs.selectedHalts (i : Inputs cfg) : Bool :=
  i.slave.writes haltedAddr && i.slave.wdataHartsel == i.selected

/-! ### The hart control -/

/-- The signals `p_hart_ctrl_queue` assigns. -/
structure CtrlSignals where
  state : State
  go : Bool
  resume : Bool
  cmdbusy : Bool
  cmderrorValid : Bool
  cmderror : BitVec 3

/-- The branch of the state Idle: a command starts, or is refused when the hart is not halted; a
resume request of a halted hart goes first. -/
def idleBranch (r : Regs cfg) (i : Inputs cfg) : CtrlSignals :=
  let c : CtrlSignals :=
    { state := .idle, go := false, resume := false, cmdbusy := false
      cmderrorValid := false, cmderror := cmdErrNone }
  let c :=
    if i.cmdValid && r.halted.getLsbD i.selected && !cfg.unsupportedCommand i.cmd then
      { c with state := .go }
    else if i.cmdValid then { c with cmderrorValid := true, cmderror := cmdErrorHaltResume }
    else c
  if i.resumereq.getLsbD i.selected && !r.resuming.getLsbD i.selected &&
      !i.haltreq.getLsbD i.selected && r.halted.getLsbD i.selected then
    { c with state := .resume }
  else c

/-- The branches of the four states. -/
def stateBranch (r : Regs cfg) (i : Inputs cfg) : CtrlSignals :=
  match r.state with
  | .idle => idleBranch r i
  | .go =>
    { state := if i.slave.writes goingAddr then .cmdExecuting else .go
      go := true, resume := false, cmdbusy := true
      cmderrorValid := false, cmderror := cmdErrNone }
  | .resume =>
    { state := if r.resuming.getLsbD i.selected then .idle else .resume
      go := false, resume := true, cmdbusy := true
      cmderrorValid := false, cmderror := cmdErrNone }
  | .cmdExecuting =>
    { state := if i.selectedHalts then .idle else .cmdExecuting
      go := false, resume := false, cmdbusy := true
      cmderrorValid := false, cmderror := cmdErrNone }

/-- The process `p_hart_ctrl_queue`. -/
def hartCtrlQueue (r : Regs cfg) (i : Inputs cfg) : CtrlSignals :=
  let c := stateBranch r i
  let c :=
    if cfg.unsupportedCommand i.cmd && i.cmdValid then
      { c with cmderrorValid := true, cmderror := cmdErrNotSupported }
    else c
  let c :=
    if i.slave.writes exceptionAddr then
      { c with cmderrorValid := true, cmderror := cmdErrorException }
    else c
  if i.ndmreset then { c with state := .idle, go := false, resume := false } else c

/-! ### Writes of the harts -/

/-- The process `p_data_write`: the bytes a hart stores are merged into the data registers. -/
def dataBits (i : Inputs cfg) : Vector (BitVec 32) cfg.dataCount :=
  let dataRegIdx := (i.slave.offset.toNat / 4 - dataBaseAddr.toNat / 4) % 2 ^ cfg.dataIndexWidth
  (List.range (cfg.busWidth / 8)).foldl
    (fun bits byteIdx ↦
      if i.slave.be.getLsbD byteIdx && dataRegIdx + byteIdx / 4 < cfg.dataCount then
        let word := bits[dataRegIdx + byteIdx / 4]?.getD 0
        bits.setIfInBounds (dataRegIdx + byteIdx / 4)
          (setByte word (byteIdx % 4) (i.slave.wdata.extractLsb' (byteIdx * 8) 8))
      else bits)
    i.data

/-- `data_valid_o`: a hart writes the data window. -/
def dataValid (i : Inputs cfg) : Bool :=
  i.slave.req && i.slave.we && dataBaseAddr ≤ i.slave.offset && i.slave.offset ≤ dataEndAddr cfg

/-- `data_o`. -/
def dataOut (i : Inputs cfg) : Vector (BitVec 32) cfg.dataCount :=
  if dataValid i then dataBits i else i.data

/-- The process `p_resuming`. A write to Resuming takes precedence over the clear request. -/
def resumingNext (r : Regs cfg) (i : Inputs cfg) : BitVec cfg.nrHarts :=
  let resuming :=
    if i.clearResumeack && i.selectedValid then setBit r.resuming i.selected false else r.resuming
  let resuming :=
    if i.slave.writes resumingAddr && i.slave.wdataHartselValid then
      setBit resuming i.slave.wdataHartsel true
    else resuming
  if i.ndmreset then 0 else resuming

/-- `halted_d`: a write to Halted sets the bit of the writer, a write to Resuming clears it. -/
def haltedNext (r : Regs cfg) (i : Inputs cfg) : BitVec cfg.nrHarts :=
  let halted :=
    if i.slave.writes haltedAddr && i.slave.wdataHartselValid then
      setBit r.halted i.slave.wdataHartsel true
    else if i.slave.writes resumingAddr && i.slave.wdataHartselValid then
      setBit r.halted i.slave.wdataHartsel false
    else r.halted
  if i.ndmreset then 0 else halted

/-! ### Reads of the harts -/

/-- The word at WhereTo: a jump to the resume entry, to the program buffer or to the generated
command. -/
def whereToRdata (r : Regs cfg) (i : Inputs cfg) : BitVec 64 :=
  let ar := AcArCmd.ofBits i.cmd.control
  let rdata :=
    if i.resumereq.getLsbD i.slave.wdataHartsel then
      0#32 ++ jal 0 ((resumeAddress.setWidth 12).setWidth 21 - whereToAddr.setWidth 21)
    else r.rdata
  if (hartCtrlQueue r i).cmdbusy then
    if i.cmd.cmdtype = accessRegister ∧ !ar.transfer ∧ ar.postexec then
      0#32 ++ jal 0 (progBufBaseAddr.setWidth 21 - whereToAddr.setWidth 21)
    else 0#32 ++ jal 0 (abstractCmdBaseAddr.setWidth 21 - whereToAddr.setWidth 21)
  else rdata

/-- One data register as an index of the source reads it. -/
def dataWord (i : Inputs cfg) (index : ℕ) : BitVec 32 :=
  i.data[index % 2 ^ cfg.dataIndexWidth]?.getD 0

/-- The flag byte of the selected hart in its lane, all other bytes zero. -/
def flagsRdata (r : Regs cfg) (i : Inputs cfg) : BitVec 64 :=
  let c := hartCtrlQueue r i
  let hartsel := BitVec.ofNat 12 i.selected
  if (i.slave.offset >>> 3 <<< 3) - flagsBaseAddr = hartsel &&& 0xff8#12 then
    (0#6 ++ bit c.resume ++ bit c.go).setWidth 64 <<< (8 * (hartsel &&& 7#12).toNat)
  else 0

/-- `rdata_d`, the process `p_rw_logic` on a read. -/
def rdataNext (r : Regs cfg) (i : Inputs cfg) : BitVec 64 :=
  let offset := i.slave.offset
  let row := offset.toNat / 8
  if i.slave.reads then
    if offset = whereToAddr then whereToRdata r i
    else if dataBaseAddr ≤ offset ∧ offset ≤ dataEndAddr cfg then
      dataWord i (2 * (row - dataBaseAddr.toNat / 8) + 1) ++
        dataWord i (2 * (row - dataBaseAddr.toNat / 8))
    else if progBufBaseAddr ≤ offset ∧ offset ≤ progBufEndAddr then
      let index := (row - progBufBaseAddr.toNat / 8) % 2 ^ clog2 progBufSize
      i.progbuf[2 * index + 1]?.getD 0 ++ i.progbuf[2 * index]?.getD 0
    else if abstractCmdBaseAddr ≤ offset ∧ offset ≤ abstractCmdEndAddr then
      (cfg.abstractCmd i.cmd).entry ((row - abstractCmdBaseAddr.toNat / 8) % 2 ^ 3)
    else if flagsBaseAddr ≤ offset ∧ offset ≤ flagsEndAddr then flagsRdata r i
    else r.rdata
  else r.rdata

/-! ### The registers of the next cycle and the read data -/

/-- The registers of the next cycle. -/
def next (r : Regs cfg) (i : Inputs cfg) : Regs cfg where
  state := (hartCtrlQueue r i).state
  halted := cfg.selectableHarts &&& haltedNext r i
  resuming := cfg.selectableHarts &&& resumingNext r i
  rdata := rdataNext r i
  fwdRom := decide (haltAddress.setWidth 12 ≤ i.slave.offset)
  wordEnable32 := i.slave.addr.getLsbD 2
  romAddr := cfg.romAddrNext r.romAddr i.slave.req (i.slave.addr.setWidth 64)

/-- `word_mux`, the 64-bit word a read in the previous cycle returns. -/
def Regs.wordMux (r : Regs cfg) : BitVec 64 := if r.fwdRom then cfg.romRdata r.romAddr else r.rdata

/-- `rdata_o`. -/
def Regs.rdataOut (r : Regs cfg) : BitVec cfg.busWidth :=
  if cfg.busWidth = 64 then r.wordMux.setWidth cfg.busWidth
  else if r.wordEnable32 then (r.wordMux.extractLsb' 32 32).setWidth cfg.busWidth
  else (r.wordMux.extractLsb' 0 32).setWidth cfg.busWidth

end RiscvDebug.DmMem
