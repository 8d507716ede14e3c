import RiscvDebug.Foundations.BitVectors

/-!
# The debug-module package and the module parameters

The constants, packed structures and instruction encoders of the package `dm`, and the parameters
of `dm_top`. A packed structure is a record of its fields with its bit layout (`ofBits`, `toBits`).
`dm::DataCount` is a field of the configuration, since the modules are written for a generic
number of data registers; the package sets it to two.
-/

set_option autoImplicit false
set_option relaxedAutoImplicit false

namespace RiscvDebug

open Foundations

/-! ### Parameters -/

/-- The parameters of `dm_top`, with its static inputs and the package constant `DataCount`. The
bounds are those of the documentation and of the elaboration-time assertions. -/
structure Config where
  nrHarts : ℕ
  busWidth : ℕ
  dmBaseAddress : BitVec 32
  selectableHarts : BitVec nrHarts
  readByteEnable : Bool
  maxRegisterAccessWidth : ℕ
  dataCount : ℕ
  nextDmAddr : BitVec 32
  hartinfo : ℕ → BitVec 32
  nrHarts_pos : 0 < nrHarts
  nrHarts_le : nrHarts ≤ 2 ^ 20
  busWidth_eq : busWidth = 32 ∨ busWidth = 64
  maxRegisterAccessWidth_eq : maxRegisterAccessWidth = 32 ∨ maxRegisterAccessWidth = 64
  two_le_dataCount : 2 ≤ dataCount
  dataCount_le : dataCount ≤ 12

namespace Config

theorem width_32 : 32 = 32 ∨ 32 = 64 := Or.inl rfl

theorem width_64 : 64 = 32 ∨ 64 = 64 := Or.inr rfl

variable (cfg : Config)

/-- `HartSelLen`, the number of bits that select a hart. -/
def hartSelLen : ℕ := if cfg.nrHarts = 1 then 1 else clog2 cfg.nrHarts

/-- `DataIndexWidth`, the number of bits that select a data register. -/
def dataIndexWidth : ℕ := clog2 cfg.dataCount

/-- `BeIdxWidth`, the number of bits that select a byte lane of the bus. -/
def beIdxWidth : ℕ := clog2 (cfg.busWidth / 8)

/-- `MaxAar`, the first value of `aarsize` that is too wide. -/
def maxAar : ℕ := if cfg.maxRegisterAccessWidth = 64 then 4 else 3

/-- `HasSndScratch`: away from the zero page the ROM needs a second scratch register. -/
def hasSndScratch : Bool := cfg.dmBaseAddress != 0

/-- `LoadBaseAddr`, the register generated code addresses the debug memory with. -/
def loadBaseAddr : BitVec 5 := if cfg.dmBaseAddress = 0 then 0 else 10

/-- The hart index in the low `HartSelLen` bits of a vector. -/
def hartIndex {width : ℕ} (bits : BitVec width) : ℕ := bits.toNat % 2 ^ cfg.hartSelLen

/-- The bits of a written `hartsel` that the WARL mask keeps. -/
def hartselMask : BitVec 20 := BitVec.ofNat 20 (2 ^ clog2 cfg.nrHarts - 1)

/-- An address of the bus, widened to the 64-bit address register, comes back as it was. -/
theorem setWidth_setWidth_busWidth (address : BitVec cfg.busWidth) :
    (address.setWidth 64).setWidth cfg.busWidth = address := by
  have hwidth : cfg.busWidth ≤ 64 := by
    rcases cfg.busWidth_eq with hwidth | hwidth <;> omega
  rw [BitVec.setWidth_setWidth_of_le address hwidth, BitVec.setWidth_eq]

end Config

/-! ### Constants -/

/-- `DbgVersion013`. -/
def dbgVersion013 : BitVec 4 := 2
/-- `ProgBufSize`, in 32-bit words. -/
def progBufSize : ℕ := 8
/-- `HaltAddress`, the entry point of a hart that halts. -/
def haltAddress : BitVec 64 := 0x800
/-- `ResumeAddress`. -/
def resumeAddress : BitVec 64 := haltAddress + 8
/-- `ExceptionAddress`, the entry point of a hart that traps in debug mode. -/
def exceptionAddress : BitVec 64 := haltAddress + 16
/-- `DataAddr`, where the abstract data are shadowed in the debug memory. -/
def dataAddr : BitVec 12 := 0x380

/-! ### Debug module interface -/

def dtmNop : BitVec 2 := 0
def dtmRead : BitVec 2 := 1
def dtmWrite : BitVec 2 := 2

def dtmSuccess : BitVec 2 := 0
def dtmErr : BitVec 2 := 2
def dtmBusy : BitVec 2 := 3

/-- `dmi_req_t`. -/
structure DmiReq where
  addr : BitVec 7
  op : BitVec 2
  data : BitVec 32
deriving DecidableEq, Repr

/-- `dmi_resp_t`. -/
structure DmiResp where
  data : BitVec 32
  resp : BitVec 2
deriving DecidableEq, Repr

/-- The registers of `dm_csr_e` that `csr_read_write` distinguishes; the data registers and the
program buffer words are ranges. -/
inductive DmCsr
  | data
  | dmControl
  | dmStatus
  | hartinfo
  | haltSum1
  | abstractCS
  | command
  | abstractAuto
  | nextDM
  | progBuf
  | haltSum2
  | haltSum3
  | sbcs
  | sbAddress0
  | sbAddress1
  | sbData0
  | sbData1
  | haltSum0
  | other
deriving DecidableEq, Repr

/-- The register a DMI address names. `DataEnd` is `Data0 + DataCount - 1` and `ProgBufEnd` is
`ProgBuf0 + ProgBufSize - 1`. -/
def Config.dmCsr (cfg : Config) (addr : BitVec 7) : DmCsr :=
  if 0x04 ≤ addr.toNat ∧ addr.toNat ≤ 0x04 + cfg.dataCount - 1 then .data
  else if addr = 0x10 then .dmControl
  else if addr = 0x11 then .dmStatus
  else if addr = 0x12 then .hartinfo
  else if addr = 0x13 then .haltSum1
  else if addr = 0x16 then .abstractCS
  else if addr = 0x17 then .command
  else if addr = 0x18 then .abstractAuto
  else if addr = 0x1d then .nextDM
  else if 0x20 ≤ addr.toNat ∧ addr.toNat ≤ 0x20 + progBufSize - 1 then .progBuf
  else if addr = 0x34 then .haltSum2
  else if addr = 0x35 then .haltSum3
  else if addr = 0x38 then .sbcs
  else if addr = 0x39 then .sbAddress0
  else if addr = 0x3a then .sbAddress1
  else if addr = 0x3c then .sbData0
  else if addr = 0x3d then .sbData1
  else if addr = 0x40 then .haltSum0
  else .other

/-! ### Packed structures -/

/-- `dmstatus_t`. -/
structure Dmstatus where
  zero1 : BitVec 9
  impebreak : Bool
  zero0 : BitVec 2
  allhavereset : Bool
  anyhavereset : Bool
  allresumeack : Bool
  anyresumeack : Bool
  allnonexistent : Bool
  anynonexistent : Bool
  allunavail : Bool
  anyunavail : Bool
  allrunning : Bool
  anyrunning : Bool
  allhalted : Bool
  anyhalted : Bool
  authenticated : Bool
  authbusy : Bool
  hasresethaltreq : Bool
  devtreevalid : Bool
  version : BitVec 4
deriving DecidableEq, Repr

/-- A single bit as a vector. -/
abbrev bit (value : Bool) : BitVec 1 := BitVec.ofBool value

def Dmstatus.toBits (s : Dmstatus) : BitVec 32 :=
  s.zero1 ++ bit s.impebreak ++ s.zero0 ++ bit s.allhavereset ++ bit s.anyhavereset ++
    bit s.allresumeack ++ bit s.anyresumeack ++ bit s.allnonexistent ++ bit s.anynonexistent ++
    bit s.allunavail ++ bit s.anyunavail ++ bit s.allrunning ++ bit s.anyrunning ++
    bit s.allhalted ++ bit s.anyhalted ++ bit s.authenticated ++ bit s.authbusy ++
    bit s.hasresethaltreq ++ bit s.devtreevalid ++ s.version

/-- `dmcontrol_t`. -/
structure Dmcontrol where
  haltreq : Bool
  resumereq : Bool
  hartreset : Bool
  ackhavereset : Bool
  zero1 : Bool
  hasel : Bool
  hartsello : BitVec 10
  hartselhi : BitVec 10
  zero0 : BitVec 2
  setresethaltreq : Bool
  clrresethaltreq : Bool
  ndmreset : Bool
  dmactive : Bool
deriving DecidableEq, Repr

namespace Dmcontrol

def ofBits (w : BitVec 32) : Dmcontrol where
  haltreq := w.getLsbD 31
  resumereq := w.getLsbD 30
  hartreset := w.getLsbD 29
  ackhavereset := w.getLsbD 28
  zero1 := w.getLsbD 27
  hasel := w.getLsbD 26
  hartsello := w.extractLsb' 16 10
  hartselhi := w.extractLsb' 6 10
  zero0 := w.extractLsb' 4 2
  setresethaltreq := w.getLsbD 3
  clrresethaltreq := w.getLsbD 2
  ndmreset := w.getLsbD 1
  dmactive := w.getLsbD 0

def toBits (c : Dmcontrol) : BitVec 32 :=
  bit c.haltreq ++ bit c.resumereq ++ bit c.hartreset ++ bit c.ackhavereset ++ bit c.zero1 ++
    bit c.hasel ++ c.hartsello ++ c.hartselhi ++ c.zero0 ++ bit c.setresethaltreq ++
    bit c.clrresethaltreq ++ bit c.ndmreset ++ bit c.dmactive

/-- The register after reset, all zero. -/
def reset : Dmcontrol := ofBits 0

/-- The hart selection `{hartselhi, hartsello}`. -/
def hartsel (c : Dmcontrol) : BitVec 20 := c.hartselhi ++ c.hartsello

/-- The register with another hart selection. -/
def withHartsel (c : Dmcontrol) (selection : BitVec 20) : Dmcontrol :=
  { c with hartselhi := selection.extractLsb' 10 10, hartsello := selection.extractLsb' 0 10 }

@[simp] theorem hartsel_withHartsel (c : Dmcontrol) (selection : BitVec 20) :
    (c.withHartsel selection).hartsel = selection := by
  apply BitVec.eq_of_getLsbD_eq
  intro index hindex
  simp only [hartsel, withHartsel, BitVec.getLsbD_append, BitVec.getLsbD_extractLsb']
  by_cases hlow : index < 10
  · simp [hlow]
  · simp [hlow, show index - 10 < 10 by omega, show 10 + (index - 10) = index by omega]

end Dmcontrol

/-- `abstractcs_t`. -/
structure Abstractcs where
  zero3 : BitVec 3
  progbufsize : BitVec 5
  zero2 : BitVec 11
  busy : Bool
  zero1 : Bool
  cmderr : BitVec 3
  zero0 : BitVec 4
  datacount : BitVec 4
deriving DecidableEq, Repr

def Abstractcs.toBits (c : Abstractcs) : BitVec 32 :=
  c.zero3 ++ c.progbufsize ++ c.zero2 ++ bit c.busy ++ bit c.zero1 ++ c.cmderr ++ c.zero0 ++
    c.datacount

/-! The command errors, `cmderr_e`. -/

def cmdErrNone : BitVec 3 := 0
def cmdErrBusy : BitVec 3 := 1
def cmdErrNotSupported : BitVec 3 := 2
def cmdErrorException : BitVec 3 := 3
def cmdErrorHaltResume : BitVec 3 := 4

/-- `command_t`. -/
structure Command where
  cmdtype : BitVec 8
  control : BitVec 24
deriving DecidableEq, Repr

def Command.ofBits (w : BitVec 32) : Command where
  cmdtype := w.extractLsb' 24 8
  control := w.extractLsb' 0 24

/-- `AccessRegister` of `cmd_e`, the only command type that is implemented. -/
def accessRegister : BitVec 8 := 0

/-- `abstractauto_t`. -/
structure Abstractauto where
  autoexecprogbuf : BitVec 16
  zero0 : BitVec 4
  autoexecdata : BitVec 12
deriving DecidableEq, Repr

def Abstractauto.toBits (a : Abstractauto) : BitVec 32 :=
  a.autoexecprogbuf ++ a.zero0 ++ a.autoexecdata

/-- `ac_ar_cmd_t`, the control field of an Access Register command. -/
structure AcArCmd where
  zero1 : Bool
  aarsize : BitVec 3
  aarpostincrement : Bool
  postexec : Bool
  transfer : Bool
  write : Bool
  regno : BitVec 16
deriving DecidableEq, Repr

def AcArCmd.ofBits (w : BitVec 24) : AcArCmd where
  zero1 := w.getLsbD 23
  aarsize := w.extractLsb' 20 3
  aarpostincrement := w.getLsbD 19
  postexec := w.getLsbD 18
  transfer := w.getLsbD 17
  write := w.getLsbD 16
  regno := w.extractLsb' 0 16

/-- `sbcs_t`. -/
structure Sbcs where
  sbversion : BitVec 3
  zero0 : BitVec 6
  sbbusyerror : Bool
  sbbusy : Bool
  sbreadonaddr : Bool
  sbaccess : BitVec 3
  sbautoincrement : Bool
  sbreadondata : Bool
  sberror : BitVec 3
  sbasize : BitVec 7
  sbaccess128 : Bool
  sbaccess64 : Bool
  sbaccess32 : Bool
  sbaccess16 : Bool
  sbaccess8 : Bool
deriving DecidableEq, Repr

namespace Sbcs

def ofBits (w : BitVec 32) : Sbcs where
  sbversion := w.extractLsb' 29 3
  zero0 := w.extractLsb' 23 6
  sbbusyerror := w.getLsbD 22
  sbbusy := w.getLsbD 21
  sbreadonaddr := w.getLsbD 20
  sbaccess := w.extractLsb' 17 3
  sbautoincrement := w.getLsbD 16
  sbreadondata := w.getLsbD 15
  sberror := w.extractLsb' 12 3
  sbasize := w.extractLsb' 5 7
  sbaccess128 := w.getLsbD 4
  sbaccess64 := w.getLsbD 3
  sbaccess32 := w.getLsbD 2
  sbaccess16 := w.getLsbD 1
  sbaccess8 := w.getLsbD 0

def toBits (c : Sbcs) : BitVec 32 :=
  c.sbversion ++ c.zero0 ++ bit c.sbbusyerror ++ bit c.sbbusy ++ bit c.sbreadonaddr ++ c.sbaccess ++
    bit c.sbautoincrement ++ bit c.sbreadondata ++ c.sberror ++ c.sbasize ++ bit c.sbaccess128 ++
    bit c.sbaccess64 ++ bit c.sbaccess32 ++ bit c.sbaccess16 ++ bit c.sbaccess8

/-- The register after reset: every field zero but `sbaccess`. -/
def reset : Sbcs := { ofBits 0 with sbaccess := 2 }

end Sbcs

/-! ### Instruction encoders -/

/-- `jal`. -/
def jal (rd : BitVec 5) (imm : BitVec 21) : BitVec 32 :=
  bit (imm.getLsbD 20) ++ imm.extractLsb' 1 10 ++ bit (imm.getLsbD 11) ++ imm.extractLsb' 12 8 ++
    rd ++ 0x6f#7

/-- `slli`. -/
def slli (rd rs1 : BitVec 5) (shamt : BitVec 6) : BitVec 32 :=
  0#6 ++ shamt ++ rs1 ++ 1#3 ++ rd ++ 0x13#7

/-- `srli`. -/
def srli (rd rs1 : BitVec 5) (shamt : BitVec 6) : BitVec 32 :=
  0#6 ++ shamt ++ rs1 ++ 5#3 ++ rd ++ 0x13#7

/-- `load`. -/
def load (size : BitVec 3) (dest base : BitVec 5) (offset : BitVec 12) : BitVec 32 :=
  offset ++ base ++ size ++ dest ++ 0x03#7

/-- `auipc`. The immediate is permuted as that of a jump. -/
def auipc (rd : BitVec 5) (imm : BitVec 21) : BitVec 32 :=
  bit (imm.getLsbD 20) ++ imm.extractLsb' 1 10 ++ bit (imm.getLsbD 11) ++ imm.extractLsb' 12 8 ++
    rd ++ 0x17#7

/-- `store`. -/
def store (size : BitVec 3) (src base : BitVec 5) (offset : BitVec 12) : BitVec 32 :=
  offset.extractLsb' 5 7 ++ src ++ base ++ size ++ offset.extractLsb' 0 5 ++ 0x23#7

/-- `float_load`. -/
def floatLoad (size : BitVec 3) (dest base : BitVec 5) (offset : BitVec 12) : BitVec 32 :=
  offset ++ base ++ size ++ dest ++ 0x07#7

/-- `float_store`. -/
def floatStore (size : BitVec 3) (src base : BitVec 5) (offset : BitVec 12) : BitVec 32 :=
  offset.extractLsb' 5 7 ++ src ++ base ++ size ++ offset.extractLsb' 0 5 ++ 0x27#7

/-- `csrw`, a CSRRW that discards the old value. -/
def csrw (csr : BitVec 12) (rs1 : BitVec 5) : BitVec 32 :=
  csr ++ rs1 ++ 1#3 ++ 0#5 ++ 0x73#7

/-- `csrr`, a CSRRS that sets no bit. -/
def csrr (csr : BitVec 12) (dest : BitVec 5) : BitVec 32 :=
  csr ++ 0#5 ++ 2#3 ++ dest ++ 0x73#7

/-- `ebreak`. -/
def ebreak : BitVec 32 := 0x00100073
/-- `nop`. -/
def nop : BitVec 32 := 0x00000013
/-- `illegal`. -/
def illegal : BitVec 32 := 0x00000000

/-- `CSR_DSCRATCH0`. -/
def csrDscratch0 : BitVec 12 := 0x7b2
/-- `CSR_DSCRATCH1`. -/
def csrDscratch1 : BitVec 12 := 0x7b3

end RiscvDebug
