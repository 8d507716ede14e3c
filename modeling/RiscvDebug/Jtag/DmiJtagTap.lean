import RiscvDebug.Package

/-!
# The test access port

The module `dmi_jtag_tap`: the state machine that TMS drives, the instruction register, the IDCODE
and BYPASS registers, and the strobes for the data registers outside the module. One step is one
rising edge of TCK; TDO and its enable follow on the falling edge, from the registers of after the
rising one (`tdoMux`, `tdoOe`).
-/

set_option autoImplicit false
set_option relaxedAutoImplicit false

namespace RiscvDebug.DmiJtagTap

/-! ### States and instructions -/

/-- `tap_state_e`. -/
inductive TapState
  | testLogicReset
  | runTestIdle
  | selectDrScan
  | captureDr
  | shiftDr
  | exit1Dr
  | pauseDr
  | exit2Dr
  | updateDr
  | selectIrScan
  | captureIr
  | shiftIr
  | exit1Ir
  | pauseIr
  | exit2Ir
  | updateIr
deriving DecidableEq, Repr

/-- `IrLength`. -/
abbrev irLength : ℕ := 5

/-! The instructions, `ir_reg_e`. -/

def idcode : BitVec irLength := 0x1
def dtmcsr : BitVec irLength := 0x10
def dmiAccess : BitVec irLength := 0x11
def bypass1 : BitVec irLength := 0x1f

/-- The registers of the module that TCK's rising edge changes. -/
structure Regs where
  tapState : TapState
  irShift : BitVec irLength
  ir : BitVec irLength
  idcodeReg : BitVec 32
  bypassReg : Bool
deriving DecidableEq, Repr

/-- The pins in one cycle of TCK. -/
structure Inputs where
  tms : Bool
  tdi : Bool
deriving DecidableEq, Repr

/-- The registers after `trst_ni`. -/
def Regs.reset (idcodeValue : BitVec 32) : Regs where
  tapState := .testLogicReset
  irShift := 0
  ir := idcode
  idcodeReg := idcodeValue
  bypassReg := false

/-! ### The state machine -/

/-- `tap_state_d`, the process `p_tap_fsm`. -/
def TapState.next (tms : Bool) : TapState → TapState
  | .testLogicReset => if tms then .testLogicReset else .runTestIdle
  | .runTestIdle => if tms then .selectDrScan else .runTestIdle
  | .selectDrScan => if tms then .selectIrScan else .captureDr
  | .captureDr => if tms then .exit1Dr else .shiftDr
  | .shiftDr => if tms then .exit1Dr else .shiftDr
  | .exit1Dr => if tms then .updateDr else .pauseDr
  | .pauseDr => if tms then .exit2Dr else .pauseDr
  | .exit2Dr => if tms then .updateDr else .shiftDr
  | .updateDr => if tms then .selectDrScan else .runTestIdle
  | .selectIrScan => if tms then .testLogicReset else .captureIr
  | .captureIr => if tms then .exit1Ir else .shiftIr
  | .shiftIr => if tms then .exit1Ir else .shiftIr
  | .exit1Ir => if tms then .updateIr else .pauseIr
  | .pauseIr => if tms then .exit2Ir else .pauseIr
  | .exit2Ir => if tms then .updateIr else .shiftIr
  | .updateIr => if tms then .selectDrScan else .runTestIdle

namespace Regs

variable (r : Regs)

def testLogicReset : Bool := r.tapState == .testLogicReset
def captureDr : Bool := r.tapState == .captureDr
def shiftDr : Bool := r.tapState == .shiftDr
def updateDr : Bool := r.tapState == .updateDr
def captureIr : Bool := r.tapState == .captureIr
def shiftIr : Bool := r.tapState == .shiftIr
def updateIr : Bool := r.tapState == .updateIr

/-! The register that the instruction selects, the process `p_data_reg_sel`. -/

def dmiSelect : Bool := r.ir == dmiAccess
def dtmcsSelect : Bool := r.ir == dtmcsr
def idcodeSelect : Bool := r.ir == idcode
/-- Every other instruction selects BYPASS. -/
def bypassSelect : Bool := !r.dmiSelect && !r.dtmcsSelect && !r.idcodeSelect

end Regs

/-! ### Registers of the next cycle -/

section Next

variable (idcodeValue : BitVec 32) (r : Regs) (i : Inputs)

/-- `jtag_ir_shift_d`. -/
def irShiftNext : BitVec irLength :=
  let irShift := if r.shiftIr then BitVec.ofBool i.tdi ++ r.irShift.extractLsb' 1 4 else r.irShift
  let irShift := if r.captureIr then 0b0101 else irShift
  if r.testLogicReset then 0 else irShift

/-- `jtag_ir_d`. -/
def irNext : BitVec irLength :=
  let ir := if r.updateIr then r.irShift else r.ir
  if r.testLogicReset then idcode else ir

/-- `idcode_d`. -/
def idcodeNext : BitVec 32 :=
  let idcodeReg := if r.captureDr && r.idcodeSelect then idcodeValue else r.idcodeReg
  let idcodeReg :=
    if r.shiftDr && r.idcodeSelect then BitVec.ofBool i.tdi ++ r.idcodeReg.extractLsb' 1 31
    else idcodeReg
  if r.testLogicReset then idcodeValue else idcodeReg

/-- `bypass_d`. -/
def bypassNext : Bool :=
  let bypassReg := if r.captureDr && r.bypassSelect then false else r.bypassReg
  let bypassReg := if r.shiftDr && r.bypassSelect then i.tdi else bypassReg
  if r.testLogicReset then false else bypassReg

/-- The registers after a rising edge of TCK. -/
def next : Regs where
  tapState := r.tapState.next i.tms
  irShift := irShiftNext r i
  ir := irNext r
  idcodeReg := idcodeNext idcodeValue r i
  bypassReg := bypassNext r i

end Next

/-! ### Outputs -/

/-- `tdo_mux`, the process `p_out_sel`, with the lowest bits of the registers outside. -/
def tdoMux (r : Regs) (dtmcsTdo dmiTdo : Bool) : Bool :=
  if r.shiftIr then r.irShift.getLsbD 0
  else if r.ir = idcode then r.idcodeReg.getLsbD 0
  else if r.ir = dtmcsr then dtmcsTdo
  else if r.ir = dmiAccess then dmiTdo
  else r.bypassReg

/-- `tdo_oe_o`. -/
def tdoOe (r : Regs) : Bool := r.shiftIr || r.shiftDr

end RiscvDebug.DmiJtagTap
