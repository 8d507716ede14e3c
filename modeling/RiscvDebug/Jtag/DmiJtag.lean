import RiscvDebug.Foundations.ClockedMachine
import RiscvDebug.Jtag.DmiJtagTap

/-!
# The JTAG debug transport module

The module `dmi_jtag` on the side of TCK: the registers `dtmcs` and `dmi` that scans reach, the
five-state machine of DMI transactions, and the sticky error. The clock domain crossing is outside:
whether it takes a request, and the response it hands over, are inputs. One step is one rising edge
of TCK; `trst` resets every register at that edge.
-/

set_option autoImplicit false
set_option relaxedAutoImplicit false

namespace RiscvDebug.DmiJtag

open Foundations DmiJtagTap

/-! ### Registers and inputs -/

/-- `dmi_error_e`. -/
inductive DmiError
  | noError
  | reservedError
  | opFailed
  | busy
deriving DecidableEq, Repr

/-- The encoding of the errors, in `dtmcs.dmistat` and in the two lowest bits of `dmi`. -/
def DmiError.bits : DmiError → BitVec 2
  | .noError => 0
  | .reservedError => 1
  | .opFailed => 2
  | .busy => 3

/-- `state_e`. -/
inductive State
  | idle
  | read
  | waitReadValid
  | write
  | waitWriteValid
deriving DecidableEq, Repr

/-- `dmi_t`, the fields of the register that DMI scans reach. -/
structure Dmi where
  address : BitVec 7
  data : BitVec 32
  op : BitVec 2
deriving DecidableEq, Repr

def Dmi.bits (dmi : Dmi) : BitVec 41 := dmi.address ++ dmi.data ++ dmi.op

def Dmi.ofBits (bits : BitVec 41) : Dmi where
  address := bits.extractLsb' 34 7
  data := bits.extractLsb' 2 32
  op := bits.extractLsb' 0 2

/-- The fields of `dtmcs_t` that a scan writes. -/
def dmihardreset (dtmcs : BitVec 32) : Bool := dtmcs.getLsbD 17
def dmireset (dtmcs : BitVec 32) : Bool := dtmcs.getLsbD 16

/-- The registers that TCK's rising edge changes. -/
structure Regs where
  tap : DmiJtagTap.Regs
  dtmcs : BitVec 32
  dr : BitVec 41
  state : State
  address : BitVec 7
  data : BitVec 32
  error : DmiError
deriving DecidableEq, Repr

/-- The inputs in one cycle of TCK. -/
structure Inputs where
  /-- The reset pin is active. -/
  trst : Bool
  pins : DmiJtagTap.Inputs
  reqReady : Bool
  respValid : Bool
  resp : DmiResp
deriving DecidableEq, Repr

/-- The registers after `trst_ni`. -/
def Regs.reset (idcodeValue : BitVec 32) : Regs where
  tap := DmiJtagTap.Regs.reset idcodeValue
  dtmcs := 0
  dr := 0
  state := .idle
  address := 0
  data := 0
  error := .noError

/-! ### Strobes -/

namespace Regs

variable (r : Regs)

/-- A Capture-DR of the register `dmi`. -/
def capturesDmi : Bool := r.tap.captureDr && r.tap.dmiSelect

/-- An Update-DR of the register `dmi`. -/
def updatesDmi : Bool := r.tap.updateDr && r.tap.dmiSelect

/-- An Update-DR of `dtmcs`. -/
def updatesDtmcs : Bool := r.tap.dtmcsSelect && r.tap.updateDr

/-- `dmi_clear`. -/
def dmiClear : Bool := r.tap.testLogicReset || (r.updatesDtmcs && dmihardreset r.dtmcs)

/-- The state of an outstanding read, in which the data are not valid. -/
def reading : Bool := r.state == .read || r.state == .waitReadValid

/-- `dmi_req`. -/
def dmiReq : DmiReq where
  addr := r.address
  op := if r.state = .write then dtmWrite else dtmRead
  data := r.data

/-- `dmi_req_valid`. -/
def dmiReqValid : Bool := !r.dmiClear && (r.state == .read || r.state == .write)

end Regs

/-- `dmi_resp_ready`. -/
def dmiRespReady : Bool := true

section Next

variable (r : Regs) (i : Inputs)

/-! ### The transaction state machine -/

/-- The variables that the branches of `p_fsm` assign. -/
structure Fsm where
  state : State
  address : BitVec 7
  data : BitVec 32
  errorDmiBusy : Bool
  errorDmiOpFailed : Bool
deriving DecidableEq, Repr

/-- The defaults of `p_fsm`. -/
def Fsm.default : Fsm where
  state := r.state
  address := r.address
  data := r.data
  errorDmiBusy := false
  errorDmiOpFailed := false

/-- The branch `Idle`: a scan of the register `dmi` starts a transaction when no error is sticky. -/
def idleBranch : Fsm :=
  let f := Fsm.default r
  let dmi := Dmi.ofBits r.dr
  if r.tap.dmiSelect && r.tap.updateDr && r.error == .noError then
    let f := { f with address := dmi.address, data := dmi.data }
    if dmi.op = dtmRead then { f with state := .read }
    else if dmi.op = dtmWrite then { f with state := .write }
    else f
  else f

/-- The branch `WaitReadValid`: the response ends a read. -/
def waitReadBranch : Fsm :=
  let f := Fsm.default r
  if i.respValid then
    let f :=
      if i.resp.resp = dtmSuccess then { f with data := i.resp.data }
      else if i.resp.resp = dtmErr then { f with data := 0xDEADBEEF, errorDmiOpFailed := true }
      else if i.resp.resp = dtmBusy then { f with data := 0xB051B051, errorDmiBusy := true }
      else { f with data := 0xBAADC0DE }
    { f with state := .idle }
  else f

/-- The branch `WaitWriteValid`: the response ends a write. -/
def waitWriteBranch : Fsm :=
  let f := Fsm.default r
  if i.respValid then
    let f :=
      if i.resp.resp = dtmErr then { f with errorDmiOpFailed := true }
      else if i.resp.resp = dtmBusy then { f with errorDmiBusy := true }
      else f
    { f with state := .idle }
  else f

/-- The branches of `p_fsm`. -/
def stateBranch : Fsm :=
  match r.state with
  | .idle => idleBranch r
  | .read => if i.reqReady then { Fsm.default r with state := .waitReadValid } else Fsm.default r
  | .waitReadValid => waitReadBranch r i
  | .write => if i.reqReady then { Fsm.default r with state := .waitWriteValid } else Fsm.default r
  | .waitWriteValid => waitWriteBranch r i

/-- The branches of `p_fsm` with the busy errors of overlapping scans. -/
def fsm : Fsm :=
  let f := stateBranch r i
  let f := if r.tap.updateDr && r.state != .idle then { f with errorDmiBusy := true } else f
  if r.tap.captureDr && r.reading then { f with errorDmiBusy := true } else f

/-- `error_dmi_busy`. -/
def errorDmiBusy : Bool := !r.dmiClear && (fsm r i).errorDmiBusy

/-- `state_d`. -/
def stateNext : State := if r.dmiClear then .idle else (fsm r i).state

/-- `address_d`. -/
def addressNext : BitVec 7 := if r.dmiClear then 0 else (fsm r i).address

/-- `data_d`. -/
def dataNext : BitVec 32 := if r.dmiClear then 0 else (fsm r i).data

/-- `error_d`: the first error sticks until it is cleared. -/
def errorNext : DmiError :=
  if r.dmiClear then .noError
  else
    let error := if (fsm r i).errorDmiBusy && r.error == .noError then .busy else r.error
    let error := if (fsm r i).errorDmiOpFailed && r.error == .noError then .opFailed else error
    if r.tap.updateDr && dmireset r.dtmcs && r.tap.dtmcsSelect then .noError else error

/-! ### The scan registers -/

/-- `dr_d`, the process `p_shift`. -/
def drNext : BitVec 41 :=
  if r.dmiClear then 0
  else
    let dr :=
      if r.tap.captureDr && r.tap.dmiSelect then
        if r.error == .noError && !errorDmiBusy r i then
          (Dmi.mk r.address r.data DmiError.noError.bits).bits
        else if r.error == .busy || errorDmiBusy r i then
          (Dmi.mk r.address r.data DmiError.busy.bits).bits
        else r.dr
      else r.dr
    if r.tap.shiftDr && r.tap.dmiSelect then BitVec.ofBool i.pins.tdi ++ r.dr.extractLsb' 1 40
    else dr

/-- What a Capture-DR loads into `dtmcs`: `idle` is 1, `abits` is 7 and `version` is 1. -/
def dtmcsCaptured : BitVec 32 :=
  0#14 ++ 0#1 ++ 0#1 ++ 0#1 ++ 1#3 ++ r.error.bits ++ 7#6 ++ 1#4

/-- `dtmcs_d`. -/
def dtmcsNext : BitVec 32 :=
  let dtmcs := if r.tap.captureDr && r.tap.dtmcsSelect then dtmcsCaptured r else r.dtmcs
  if r.tap.shiftDr && r.tap.dtmcsSelect then BitVec.ofBool i.pins.tdi ++ r.dtmcs.extractLsb' 1 31
  else dtmcs

/-- The registers after a rising edge of TCK. -/
def next (idcodeValue : BitVec 32) : Regs :=
  if i.trst then Regs.reset idcodeValue
  else
    { tap := DmiJtagTap.next idcodeValue r.tap i.pins
      dtmcs := dtmcsNext r i
      dr := drNext r i
      state := stateNext r i
      address := addressNext r i
      data := dataNext r i
      error := errorNext r i }

end Next

/-- `td_o` after the falling edge of TCK. -/
def tdo (r : Regs) : Bool := tdoMux r.tap (r.dtmcs.getLsbD 0) (r.dr.getLsbD 0)

/-! ### Runs -/

/-- The transport module as a clocked machine. -/
def machine (idcodeValue : BitVec 32) : ClockedMachine Regs Inputs where
  reset := Regs.reset idcodeValue
  step := fun r i ↦ next r i idcodeValue

/-- The registers at the start of every cycle of the run driven by a stream of inputs. -/
def run (idcodeValue : BitVec 32) (inputs : ℕ → Inputs) (time : ℕ) : Regs :=
  (machine idcodeValue).states inputs time

theorem run_succ (idcodeValue : BitVec 32) (inputs : ℕ → Inputs) (time : ℕ) :
    run idcodeValue inputs (time + 1) =
      next (run idcodeValue inputs time) (inputs time) idcodeValue :=
  ClockedMachine.states_succ _ inputs time

end RiscvDebug.DmiJtag
