import RiscvDebug.DebugModule.HaltSummary
import RiscvDebug.Foundations.BoundedQueue

/-!
# The debug CSRs

The module `dm_csrs`: the registers it holds (`Regs`), the signals its process `csr_read_write`
computes from them and from the inputs of one cycle (`csrReadWrite`), its outputs, and the
registers of the next cycle (`next`).

`csr_read_write` assigns defaults, then what an accepted DMI read changes, then what an accepted
DMI write changes, then what the other modules and the WARL rules override. Each of these stages
is a function here, in the order of the source, and for each register one theorem below says what
the whole process leaves in it. The later proofs use those theorems only.
-/

set_option autoImplicit false
set_option relaxedAutoImplicit false

namespace RiscvDebug.DmCsrs

open Foundations HaltSummary

/-! ### Registers, inputs and combinational signals -/

/-- The registers of `dm_csrs`. -/
structure Regs (cfg : Config) where
  dmcontrol : Dmcontrol
  cmderr : BitVec 3
  command : Command
  cmdValid : Bool
  abstractauto : Abstractauto
  progbuf : Vector (BitVec 32) progBufSize
  data : Vector (BitVec 32) cfg.dataCount
  sbcs : Sbcs
  sbaddr : BitVec 64
  sbdata : BitVec 64
  havereset : BitVec cfg.nrHarts
  respQueue : BoundedQueue DmiResp 2
deriving DecidableEq

/-- The inputs of `dm_csrs` in one cycle. -/
structure Inputs (cfg : Config) where
  dmiRstN : Bool
  dmiReqValid : Bool
  dmiReq : DmiReq
  dmiRespReady : Bool
  ndmresetAck : Bool
  halted : BitVec cfg.nrHarts
  unavailable : BitVec cfg.nrHarts
  resumeack : BitVec cfg.nrHarts
  cmderrorValid : Bool
  cmderror : BitVec 3
  cmdbusy : Bool
  data : Vector (BitVec 32) cfg.dataCount
  dataValid : Bool
  sbaddress : BitVec cfg.busWidth
  sbdata : BitVec cfg.busWidth
  sbdataValid : Bool
  sbbusy : Bool
  sberrorValid : Bool
  sberror : BitVec 3

/-- The signals `csr_read_write` assigns: the next value of every register, the response, and the
strobes to the other modules. -/
structure Signals (cfg : Config) where
  dmcontrol : Dmcontrol
  cmderr : BitVec 3
  command : Command
  cmdValid : Bool
  abstractauto : Abstractauto
  progbuf : Vector (BitVec 32) progBufSize
  dataDmi : Vector (BitVec 32) cfg.dataCount
  sbcs : Sbcs
  sbaddr : BitVec 64
  sbdata : BitVec 64
  havereset : BitVec cfg.nrHarts
  resp : DmiResp
  sbaddressWriteValid : Bool
  sbdataReadValid : Bool
  sbdataWriteValid : Bool
  clearResumeack : Bool

/-- The registers after the asynchronous reset. -/
def Regs.reset (cfg : Config) : Regs cfg where
  dmcontrol := Dmcontrol.reset
  cmderr := cmdErrNone
  command := Command.ofBits 0
  cmdValid := false
  abstractauto := ⟨0, 0, 0⟩
  progbuf := Vector.replicate progBufSize 0
  data := Vector.replicate cfg.dataCount 0
  sbcs := Sbcs.reset
  sbaddr := 0
  sbdata := 0
  havereset := BitVec.allOnes cfg.nrHarts
  respQueue := BoundedQueue.empty

variable {cfg : Config}

/-! ### Outputs and handshake -/

/-- `selected_hart`. -/
def Regs.selectedHart (q : Regs cfg) : ℕ := cfg.hartIndex q.dmcontrol.hartsel

/-- `selected_hart_valid`. -/
def Regs.selectedHartValid (q : Regs cfg) : Bool := decide (q.selectedHart ≤ cfg.nrHarts - 1)

/-- `haltreq_o`. -/
def Regs.haltreq (q : Regs cfg) : BitVec cfg.nrHarts :=
  if q.selectedHartValid then setBit 0 q.selectedHart q.dmcontrol.haltreq else 0

/-- `resumereq_o`. -/
def Regs.resumereq (q : Regs cfg) : BitVec cfg.nrHarts :=
  if q.selectedHartValid then setBit 0 q.selectedHart q.dmcontrol.resumereq else 0

/-- `dmi_req_ready_o`. -/
def Regs.dmiReqReady (q : Regs cfg) : Bool := !q.respQueue.isFull

/-- `dmi_resp_valid_o`. -/
def Regs.dmiRespValid (q : Regs cfg) : Bool := !q.respQueue.isEmpty

/-- `dmi_resp_o`, the oldest response. -/
def Regs.dmiResp (q : Regs cfg) : DmiResp := q.respQueue.entries.headD ⟨0, 0⟩

/-- A request is accepted when it is valid and the response queue has room. -/
def accepts (q : Regs cfg) (i : Inputs cfg) : Bool := i.dmiReqValid && q.dmiReqReady

/-- The request accepted in this cycle is a read. -/
def acceptsRead (q : Regs cfg) (i : Inputs cfg) : Bool := accepts q i && i.dmiReq.op == dtmRead

/-- The request accepted in this cycle is a write. -/
def acceptsWrite (q : Regs cfg) (i : Inputs cfg) : Bool := accepts q i && i.dmiReq.op == dtmWrite

/-- The register the request names. -/
def addressed (i : Inputs cfg) : DmCsr := cfg.dmCsr i.dmiReq.addr

/-- `dmstatus`. -/
def dmstatus (q : Regs cfg) (i : Inputs cfg) : Dmstatus where
  zero1 := 0
  impebreak := false
  zero0 := 0
  allhavereset := q.havereset.getLsbD q.selectedHart
  anyhavereset := q.havereset.getLsbD q.selectedHart
  allresumeack := i.resumeack.getLsbD q.selectedHart
  anyresumeack := i.resumeack.getLsbD q.selectedHart
  allnonexistent := decide (q.dmcontrol.hartsel.toNat > cfg.nrHarts - 1)
  anynonexistent := decide (q.dmcontrol.hartsel.toNat > cfg.nrHarts - 1)
  allunavail := i.unavailable.getLsbD q.selectedHart
  anyunavail := i.unavailable.getLsbD q.selectedHart
  allrunning := !i.halted.getLsbD q.selectedHart && !i.unavailable.getLsbD q.selectedHart
  anyrunning := !i.halted.getLsbD q.selectedHart && !i.unavailable.getLsbD q.selectedHart
  allhalted := i.halted.getLsbD q.selectedHart && !i.unavailable.getLsbD q.selectedHart
  anyhalted := i.halted.getLsbD q.selectedHart && !i.unavailable.getLsbD q.selectedHart
  authenticated := true
  authbusy := false
  hasresethaltreq := false
  devtreevalid := false
  version := dbgVersion013

/-- `abstractcs`. -/
def abstractcs (q : Regs cfg) (i : Inputs cfg) : Abstractcs where
  zero3 := 0
  progbufsize := BitVec.ofNat 5 progBufSize
  zero2 := 0
  busy := i.cmdbusy
  zero1 := false
  cmderr := q.cmderr
  zero0 := 0
  datacount := BitVec.ofNat 4 cfg.dataCount

/-! ### The process `csr_read_write` -/

/-- `autoexecdata_idx`. -/
def autoexecdataIdx (i : Inputs cfg) : ℕ := ((i.dmiReq.addr.setWidth 8 - 0x04#8).setWidth 4).toNat

/-- The index a DMI write of a data register uses, the low bits of its address. -/
def dataWriteIdx (i : Inputs cfg) : ℕ := i.dmiReq.addr.toNat % 2 ^ cfg.dataIndexWidth

/-- The index of a program buffer word. -/
def progbufIdx (i : Inputs cfg) : ℕ := i.dmiReq.addr.toNat % 2 ^ clog2 progBufSize

/-- The autoexec bit of the addressed program buffer word. -/
def autoexecprogbufBit (q : Regs cfg) (i : Inputs cfg) : Bool :=
  q.abstractauto.autoexecprogbuf.getLsbD (i.dmiReq.addr.toNat % 2 ^ 4)

/-- The autoexec bit of the addressed data register. -/
def autoexecdataBit (q : Regs cfg) (i : Inputs cfg) : Bool :=
  q.abstractauto.autoexecdata.getLsbD (autoexecdataIdx i)

/-- The default assignments. -/
def defaults (q : Regs cfg) (i : Inputs cfg) : Signals cfg where
  dmcontrol := q.dmcontrol
  cmderr := q.cmderr
  command := q.command
  cmdValid := false
  abstractauto := { q.abstractauto with zero0 := 0 }
  progbuf := q.progbuf
  dataDmi := q.data
  sbcs := q.sbcs
  sbaddr := i.sbaddress.setWidth 64
  sbdata := q.sbdata
  havereset := q.havereset
  resp := ⟨0, dtmSuccess⟩
  sbaddressWriteValid := false
  sbdataReadValid := false
  sbdataWriteValid := false
  clearResumeack := false

/-- The answer to an access that needs an idle command unit while a command runs. -/
def cmdBusyAnswer (q : Regs cfg) (s : Signals cfg) : Signals cfg :=
  { s with
    resp := { s.resp with resp := dtmBusy }
    cmderr := if q.cmderr = cmdErrNone then cmdErrBusy else s.cmderr }

/-- The answer to an access that needs an idle bus master while one is busy, or while an earlier
such error is pending. -/
def sbBusyAnswer (s : Signals cfg) : Signals cfg :=
  { s with
    sbcs := { s.sbcs with sbbusyerror := true }
    resp := { s.resp with resp := dtmBusy } }

/-- The read data of the response. -/
def withData (s : Signals cfg) (data : BitVec 32) : Signals cfg :=
  { s with resp := { s.resp with data := data } }

/-- The branch of a DMI read. -/
def dmiRead (q : Regs cfg) (i : Inputs cfg) (s : Signals cfg) : Signals cfg :=
  match addressed i with
  | .data =>
    let s := withData s (q.data[autoexecdataIdx i % 2 ^ cfg.dataIndexWidth]?.getD 0)
    if !i.cmdbusy then { s with cmdValid := autoexecdataBit q i } else cmdBusyAnswer q s
  | .dmControl => withData s q.dmcontrol.toBits
  | .dmStatus => withData s (dmstatus q i).toBits
  | .hartinfo => withData s (if q.selectedHartValid then cfg.hartinfo q.selectedHart else 0)
  | .abstractCS => withData s (abstractcs q i).toBits
  | .abstractAuto => withData s q.abstractauto.toBits
  | .command => withData s 0
  | .nextDM => withData s cfg.nextDmAddr
  | .progBuf =>
    let s := withData s (q.progbuf[progbufIdx i]?.getD 0)
    if !i.cmdbusy then { s with cmdValid := autoexecprogbufBit q i } else cmdBusyAnswer q s
  | .haltSum0 => withData s (haltsum0 cfg i.halted q.dmcontrol.hartsel)
  | .haltSum1 => withData s (haltsum1 cfg i.halted q.dmcontrol.hartsel)
  | .haltSum2 => withData s (haltsum2 cfg i.halted q.dmcontrol.hartsel)
  | .haltSum3 => withData s (haltsum3 cfg i.halted)
  | .sbcs => withData s q.sbcs.toBits
  | .sbAddress0 => withData s (q.sbaddr.extractLsb' 0 32)
  | .sbAddress1 => withData s (q.sbaddr.extractLsb' 32 32)
  | .sbData0 =>
    if i.sbbusy || q.sbcs.sbbusyerror then sbBusyAnswer s
    else
      withData { s with sbdataReadValid := q.sbcs.sberror == 0 } (q.sbdata.extractLsb' 0 32)
  | .sbData1 =>
    if i.sbbusy || q.sbcs.sbbusyerror then sbBusyAnswer s
    else withData s (q.sbdata.extractLsb' 32 32)
  | .other => s

/-- The branch of a DMI write. -/
def dmiWrite (q : Regs cfg) (i : Inputs cfg) (s : Signals cfg) : Signals cfg :=
  match addressed i with
  | .data =>
    if !i.cmdbusy then
      { s with
        dataDmi := s.dataDmi.setIfInBounds (dataWriteIdx i) i.dmiReq.data
        cmdValid := autoexecdataBit q i }
    else cmdBusyAnswer q s
  | .dmControl =>
    let written := Dmcontrol.ofBits i.dmiReq.data
    { s with
      dmcontrol := written
      havereset :=
        if written.ackhavereset && q.selectedHartValid then
          setBit s.havereset q.selectedHart false
        else s.havereset }
  | .abstractCS =>
    if !i.cmdbusy then { s with cmderr := ~~~ i.dmiReq.data.extractLsb' 8 3 &&& q.cmderr }
    else cmdBusyAnswer q s
  | .command =>
    if !i.cmdbusy then { s with cmdValid := true, command := Command.ofBits i.dmiReq.data }
    else cmdBusyAnswer q s
  | .abstractAuto =>
    if !i.cmdbusy then
      { s with
        abstractauto :=
          { autoexecprogbuf := (i.dmiReq.data.extractLsb' 16 progBufSize).setWidth 16
            zero0 := 0
            autoexecdata := (i.dmiReq.data.extractLsb' 0 cfg.dataCount).setWidth 12 } }
    else cmdBusyAnswer q s
  | .progBuf =>
    if !i.cmdbusy then
      { s with
        progbuf := s.progbuf.setIfInBounds (progbufIdx i) i.dmiReq.data
        cmdValid := autoexecprogbufBit q i }
    else cmdBusyAnswer q s
  | .sbcs =>
    if i.sbbusy then sbBusyAnswer s
    else
      let written := Sbcs.ofBits i.dmiReq.data
      { s with
        sbcs :=
          { written with
            sbbusyerror := q.sbcs.sbbusyerror && !written.sbbusyerror
            sberror := if written.sberror != 0 then 0 else q.sbcs.sberror } }
  | .sbAddress0 =>
    if i.sbbusy || q.sbcs.sbbusyerror then sbBusyAnswer s
    else
      { s with
        sbaddr := s.sbaddr.extractLsb' 32 32 ++ i.dmiReq.data
        sbaddressWriteValid := q.sbcs.sberror == 0 }
  | .sbAddress1 =>
    if i.sbbusy || q.sbcs.sbbusyerror then sbBusyAnswer s
    else { s with sbaddr := i.dmiReq.data ++ s.sbaddr.extractLsb' 0 32 }
  | .sbData0 =>
    if i.sbbusy || q.sbcs.sbbusyerror then sbBusyAnswer s
    else
      { s with
        sbdata := s.sbdata.extractLsb' 32 32 ++ i.dmiReq.data
        sbdataWriteValid := q.sbcs.sberror == 0 }
  | .sbData1 =>
    if i.sbbusy || q.sbcs.sbbusyerror then sbBusyAnswer s
    else { s with sbdata := i.dmiReq.data ++ s.sbdata.extractLsb' 0 32 }
  | _ => s

/-- What the other modules override after the DMI access: a command error, the completion of a
reset, a bus error and the read data of the bus. -/
def hardwareUpdates (i : Inputs cfg) (s : Signals cfg) : Signals cfg :=
  { s with
    cmderr := if i.cmderrorValid then i.cmderror else s.cmderr
    havereset := if i.ndmresetAck then BitVec.allOnes cfg.nrHarts else s.havereset
    sbcs := { s.sbcs with sberror := if i.sberrorValid then i.sberror else s.sbcs.sberror }
    sbdata := if i.sbdataValid then i.sbdata.setWidth 64 else s.sbdata }

/-- The WARL rules of `dmcontrol`, the pulse that clears a resume acknowledgement, and the end of
a resume request on any acknowledgement. -/
def dmcontrolRules (q : Regs cfg) (i : Inputs cfg) (s : Signals cfg) : Signals cfg :=
  let written : Dmcontrol :=
    { s.dmcontrol with
      hasel := false
      hartreset := false
      setresethaltreq := false
      clrresethaltreq := false
      zero1 := false
      zero0 := 0
      ackhavereset := false }
  let resumereq :=
    if q.dmcontrol.resumereq && i.resumeack != 0 then false else written.resumereq
  { s with
    clearResumeack := !q.dmcontrol.resumereq && written.resumereq
    dmcontrol :=
      { written with resumereq := resumereq }.withHartsel (written.hartsel &&& cfg.hartselMask) }

/-- The read-only fields of `sbcs`. -/
def sbcsRules (i : Inputs cfg) (s : Signals cfg) : Signals cfg :=
  { s with
    sbcs :=
      { s.sbcs with
        sbversion := 1
        sbbusy := i.sbbusy
        sbasize := BitVec.ofNat 7 cfg.busWidth
        sbaccess128 := decide (cfg.busWidth ≥ 128)
        sbaccess64 := decide (cfg.busWidth ≥ 64)
        sbaccess32 := decide (cfg.busWidth ≥ 32)
        sbaccess16 := decide (cfg.busWidth ≥ 16)
        sbaccess8 := decide (cfg.busWidth ≥ 8) } }

/-- The signals after the DMI access alone. -/
def dmiAccess (q : Regs cfg) (i : Inputs cfg) : Signals cfg :=
  let s := defaults q i
  let s := if acceptsRead q i then dmiRead q i s else s
  if acceptsWrite q i then dmiWrite q i s else s

/-- The process `csr_read_write`. -/
def csrReadWrite (q : Regs cfg) (i : Inputs cfg) : Signals cfg :=
  sbcsRules i (dmcontrolRules q i (hardwareUpdates i (dmiAccess q i)))

/-! ### The registers of the next cycle -/

/-- The registers of the next cycle, the process `p_regs` and the response queue. While `dmactive`
is zero every register but `dmactive`, `havereset` and the queue is held at its reset value. -/
def next (q : Regs cfg) (i : Inputs cfg) : Regs cfg :=
  let s := csrReadWrite q i
  let havereset := cfg.selectableHarts &&& s.havereset
  let respQueue :=
    q.respQueue.cycle (!i.dmiRstN) (accepts q i) (i.dmiRespReady && q.dmiRespValid) s.resp
  if q.dmcontrol.dmactive then
    { dmcontrol := s.dmcontrol
      cmderr := s.cmderr
      command := s.command
      cmdValid := s.cmdValid
      abstractauto := s.abstractauto
      progbuf := s.progbuf
      data := if i.dataValid then i.data else s.dataDmi
      sbcs := s.sbcs
      sbaddr := s.sbaddr
      sbdata := s.sbdata
      havereset := havereset
      respQueue := respQueue }
  else
    { Regs.reset cfg with
      dmcontrol := { Dmcontrol.reset with dmactive := s.dmcontrol.dmactive }
      havereset := havereset
      respQueue := respQueue }

end RiscvDebug.DmCsrs
