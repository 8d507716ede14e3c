import RiscvDebug.Foundations.BoundedRun
import RiscvDebug.Hart.AccessRegister

/-!
# The code of the debug ROM

The two images of the debug ROM as instructions, with the labels of `debug_rom.S`
(`romDecode_romWord`), and their execution by a hart that fetches them from the debug memory. A
session records the stores of the hart and its loads of the flag bytes, whose values an arbitrary
sequence provides. It ends at `dret` or at WhereTo; instructions of the ROM do not trap.
-/

set_option autoImplicit false
set_option relaxedAutoImplicit false

namespace RiscvDebug.Hart

open Foundations DmMem

/-! ### Instructions -/

/-- The instructions of the ROM: those of generated code and a few more. -/
inductive RomInstruction
  | generated (instruction : Instruction)
  | fence
  | andi (rd rs1 : BitVec 5) (imm : BitVec 12)
  | add (rd rs1 rs2 : BitVec 5)
  | bne (rs1 rs2 : BitVec 5) (imm : BitVec 13)
  | lbu (rd rs1 : BitVec 5) (imm : BitVec 12)
  | sw (rs2 rs1 : BitVec 5) (imm : BitVec 12)
  | dret
deriving DecidableEq, Repr

def funct7 (w : BitVec 32) : BitVec 7 := w.extractLsb' 25 7

def immB (w : BitVec 32) : BitVec 13 :=
  w.extractLsb' 31 1 ++ w.extractLsb' 7 1 ++ w.extractLsb' 25 6 ++ w.extractLsb' 8 4 ++ 0#1

/-- The instruction of a word of the ROM. -/
def romDecode (w : BitVec 32) : Option RomInstruction :=
  if opcode w = 0x0f ∧ funct3 w = 0 then some .fence
  else if opcode w = 0x13 ∧ funct3 w = 7 then some (.andi (rd w) (rs1 w) (immI w))
  else if opcode w = 0x33 ∧ funct3 w = 0 ∧ funct7 w = 0 then some (.add (rd w) (rs1 w) (rs2 w))
  else if opcode w = 0x63 ∧ funct3 w = 1 then some (.bne (rs1 w) (rs2 w) (immB w))
  else if opcode w = 0x03 ∧ funct3 w = 4 then some (.lbu (rd w) (rs1 w) (immI w))
  else if opcode w = 0x23 ∧ funct3 w = 2 then some (.sw (rs2 w) (rs1 w) (immS w))
  else if w = 0x7b200073 then some .dret
  else (decode w).map .generated

/-! ### The listing -/

def csrMhartid : BitVec 12 := 0xf14

/-- The labels of the ROM that jumps and branches name, as indices of 32-bit words. -/
inductive Label
  | resume
  | entryCode
  | entryLoop
  | exceptionCode
  | going
  | resumeCode
deriving DecidableEq, Repr

/-- Where a label stands, in the ROM for two scratch registers or in the other one. -/
def Label.index (twoScratch : Bool) : Label → ℕ
  | .resume => 2
  | .entryCode => 6
  | .entryLoop => if twoScratch then 12 else 8
  | .exceptionCode => if twoScratch then 24 else 18
  | .going => if twoScratch then 31 else 21
  | .resumeCode => if twoScratch then 35 else 24

section Listing

variable (twoScratch : Bool)

/-- The register that holds the base address of the debug module. -/
def romBase : BitVec 5 := if twoScratch then 10 else 0

/-- An instruction that only the ROM for two scratch registers has. -/
def sndScratch (instructions : List RomInstruction) : List RomInstruction :=
  if twoScratch then instructions else []

def romNop : RomInstruction := .generated nopInstruction
def romCsrr (rd : BitVec 5) (csr : BitVec 12) : RomInstruction := .generated (.csrrs rd 0 csr)
def romCsrw (csr : BitVec 12) (rs1 : BitVec 5) : RomInstruction := .generated (.csrrw 0 rs1 csr)

/-- The distance between two offsets in the debug memory. -/
def romDistance (width : ℕ) (source target : BitVec 12) : BitVec width :=
  BitVec.ofInt width (target.toNat - source.toNat)

/-- A jump from a word to a label. -/
def romJump (source : ℕ) (target : Label) : RomInstruction :=
  .generated (.jal 0 (romDistance 21 (romOffset source) (romOffset (target.index twoScratch))))

/-- A branch from a word to a label, taken when s0 is not zero. -/
def romBranch (source : ℕ) (target : Label) : RomInstruction :=
  .bne 8 0 (romDistance 13 (romOffset source) (romOffset (target.index twoScratch)))

/-- Brings the base address into a0. -/
def romLoadBase : List RomInstruction :=
  [.generated (.auipc 10 0), .generated (.srli 10 10 12), .generated (.slli 10 10 12)]

/-- The three entries, and after `_entry` the saving of the registers. -/
def entryCode : List RomInstruction :=
  [.fence, romCsrw csrDscratch0 8] ++ sndScratch twoScratch (romCsrw csrDscratch1 10 :: romLoadBase)

/-- Loads the flag byte of the hart whose index is in s0 and masks it. -/
def pollCode (mask : BitVec 12) : List RomInstruction :=
  sndScratch twoScratch [.add 8 8 10] ++ [.lbu 8 8 flagsBaseAddr, .andi 8 8 mask]

/-- The part of `entry_loop` after its first instruction, up to the test of the Go flag. -/
def pollGoCode : List RomInstruction :=
  .sw 8 (romBase twoScratch) haltedAddr :: pollCode twoScratch 1

/-- The part of `entry_loop` up to the test of the Resume flag. -/
def pollResumeCode : List RomInstruction := romCsrr 8 csrMhartid :: pollCode twoScratch 2

/-- Brings a0 and s0 back from the scratch registers. -/
def restoreCode : List RomInstruction :=
  sndScratch twoScratch [romCsrr 10 csrDscratch1] ++ [romCsrr 8 csrDscratch0]

/-- `_exception`. -/
def exceptionCode : List RomInstruction :=
  sndScratch twoScratch romLoadBase ++ .sw 0 (romBase twoScratch) exceptionAddr ::
    restoreCode twoScratch ++ [.generated .ebreak]

/-- `going`, up to its jump. -/
def goingCode : List RomInstruction :=
  .sw 0 (romBase twoScratch) goingAddr :: restoreCode twoScratch

/-- `_resume`, up to its `dret`. -/
def resumeCode : List RomInstruction :=
  romCsrr 8 csrMhartid :: .sw 8 (romBase twoScratch) resumingAddr :: restoreCode twoScratch

/-- The word of the branch to `going`. -/
def goTest : ℕ := Label.entryLoop.index twoScratch + (pollGoCode twoScratch).length + 1

/-- The word of the branch to `resume`. -/
def resumeTest : ℕ := goTest twoScratch + (pollResumeCode twoScratch).length + 1

/-- The word of the jump to WhereTo. -/
def whereToJump : ℕ := Label.going.index twoScratch + (goingCode twoScratch).length

/-- The word of the `dret`. -/
def resumeEnd : ℕ := Label.resumeCode.index twoScratch + (resumeCode twoScratch).length

/-- The jump to `whereto`. -/
def romJumpWhereTo : RomInstruction :=
  .generated (.jal 0 (romDistance 21 (romOffset (whereToJump twoScratch)) whereToAddr))

/-- The instructions of the ROM. -/
def romListing : List RomInstruction :=
  [romJump twoScratch 0 .entryCode, romNop, romJump twoScratch 2 .resumeCode, romNop,
    romJump twoScratch 4 .exceptionCode, romNop] ++
  entryCode twoScratch ++
  romCsrr 8 csrMhartid :: pollGoCode twoScratch ++
  romBranch twoScratch (goTest twoScratch) .going :: pollResumeCode twoScratch ++
  [romBranch twoScratch (resumeTest twoScratch) .resume,
    romJump twoScratch (resumeTest twoScratch + 1) .entryLoop] ++
  exceptionCode twoScratch ++ goingCode twoScratch ++ romJumpWhereTo twoScratch ::
  resumeCode twoScratch ++ [.dret]

/-- The words of an image decode to the listing. -/
theorem romDecode_image :
    ∀ index < (romListing twoScratch).length,
      romDecode (((if twoScratch then debugRomWords else debugRomOneScratchWords)[index / 2]?.getD
        0).extractLsb' (32 * (index % 2)) 32) = (romListing twoScratch)[index]? := by
  cases twoScratch <;> decide +kernel

end Listing

variable {cfg : Config} {xlen flen : ℕ}

theorem length_romListing (cfg : Config) :
    (romListing cfg.hasSndScratch).length = 2 * cfg.romWords.length := by
  rw [Config.romWords]
  cases cfg.hasSndScratch <;> rfl

/-- The words of the ROM decode to the listing. -/
theorem romDecode_romWord {index : ℕ} (hindex : index < (romListing cfg.hasSndScratch).length) :
    romDecode (romWord cfg index) = (romListing cfg.hasSndScratch)[index]? :=
  romDecode_image cfg.hasSndScratch index hindex

/-! ### Execution -/

/-- An access of the ROM to the debug memory: a store of a word, or a load of a flag byte. -/
inductive Access
  | store (offset : BitVec 12) (value : BitVec 32)
  | poll (offset : BitVec 12)
deriving DecidableEq, Repr

/-- A load of a flag byte. -/
def Access.isPoll : Access → Bool
  | .store _ _ => false
  | .poll _ => true

/-- A hart in the ROM, with its accesses so far and the number of times it has entered
`entry_loop`. -/
structure Session (cfg : Config) (xlen flen : ℕ) where
  machine : Machine cfg xlen flen
  accesses : List Access
  iterations : ℕ

/-- How a hart leaves the ROM. -/
inductive RomExit (cfg : Config) (xlen flen : ℕ)
  /-- By the jump to WhereTo. -/
  | whereTo (s : Session cfg xlen flen)
  /-- By `dret`. -/
  | dret (s : Session cfg xlen flen)
  /-- At a word that is no instruction of the ROM, or at an access that it does not make. -/
  | stuck

namespace Session

variable (s : Session cfg xlen flen)

/-- The number of flag bytes loaded so far. -/
def polls : ℕ := s.accesses.countP Access.isPoll

def withMachine (machine : Machine cfg xlen flen) : Session cfg xlen flen :=
  { s with machine := machine }

def withAccess (access : Access) : Session cfg xlen flen :=
  { s with accesses := s.accesses ++ [access] }

end Session

/-- The address of a word of the ROM. -/
def romAddress (cfg : Config) (xlen index : ℕ) : BitVec xlen :=
  dmBase cfg xlen + (romOffset index).setWidth xlen

/-- The address of `entry_loop`. -/
def entryLoopAddress (cfg : Config) (xlen : ℕ) : BitVec xlen :=
  romAddress cfg xlen (Label.entryLoop.index cfg.hasSndScratch)

/-- The address of WhereTo. -/
def whereToAddress (cfg : Config) (xlen : ℕ) : BitVec xlen :=
  dmBase cfg xlen + whereToAddr.setWidth xlen

/-- The session as the next instruction sees it: at `entry_loop` a further iteration begins. -/
def Session.counted (s : Session cfg xlen flen) : Session cfg xlen flen :=
  if s.machine.pc = entryLoopAddress cfg xlen then { s with iterations := s.iterations + 1 } else s

namespace Environment

variable (e : Environment cfg xlen flen) (flags : ℕ → BitVec 8) (s : Session cfg xlen flen)

/-- The instruction of the ROM at the program counter. -/
def romFetch (m : Machine cfg xlen flen) : Option RomInstruction :=
  (debugOffset cfg m.pc).bind fun offset ↦
    romDecode (readWord e.memory e.inputs m.data offset)

/-- The effect of an instruction of the ROM. The loads return the next one of the flag bytes. -/
def romExecute : RomInstruction → Option (Session cfg xlen flen)
  | .generated instruction => (e.execute s.machine instruction).map s.withMachine
  | .fence => some (s.withMachine s.machine.advance)
  | .andi rd rs1 imm =>
    some (s.withMachine
      (s.machine.setGpr rd (s.machine.gprs.read rs1 &&& imm.signExtend xlen)).advance)
  | .add rd rs1 rs2 =>
    some (s.withMachine
      (s.machine.setGpr rd (s.machine.gprs.read rs1 + s.machine.gprs.read rs2)).advance)
  | .bne rs1 rs2 imm =>
    some (s.withMachine
      (if s.machine.gprs.read rs1 = s.machine.gprs.read rs2 then s.machine.advance
        else s.machine.withPc (s.machine.pc + imm.signExtend xlen)))
  | .lbu rd rs1 imm =>
    (debugOffset cfg (s.machine.gprs.read rs1 + imm.signExtend xlen)).bind fun offset ↦
      if flagsBaseAddr ≤ offset ∧ offset ≤ flagsEndAddr then
        some ((s.withMachine
          (s.machine.setGpr rd ((flags s.polls).setWidth xlen)).advance).withAccess (.poll offset))
      else none
  | .sw rs2 rs1 imm =>
    (debugOffset cfg (s.machine.gprs.read rs1 + imm.signExtend xlen)).bind fun offset ↦
      let value := (s.machine.gprs.read rs2).setWidth 32
      some ((s.withMachine
        (s.machine.setData (writeWord e.inputs s.machine.data offset value)).advance).withAccess
          (.store offset value))
  | .dret => none

/-- What the fetched instruction leads to. -/
def romDispatch : Option RomInstruction → StepResult (Session cfg xlen flen) (RomExit cfg xlen flen)
  | some .dret => .done (.dret s)
  | some instruction =>
    match e.romExecute flags s instruction with
    | some after => .next after
    | none => .done .stuck
  | none => .done .stuck

/-- One step of a hart in the ROM. -/
def romStep : StepResult (Session cfg xlen flen) (RomExit cfg xlen flen) :=
  if s.machine.pc = whereToAddress cfg xlen then .done (.whereTo s)
  else e.romDispatch flags s.counted (e.romFetch s.machine)

end Environment

/-! ### Addresses of the ROM -/

section Addresses

variable (hxlen : xlen = 32 ∨ xlen = 64) (haligned : cfg.dmBaseAddress.toNat % 4096 = 0)
include hxlen haligned

theorem romAddress_toNat {index : ℕ} (hindex : index < 512) :
    (romAddress cfg xlen index).toNat = cfg.dmBaseAddress.toNat + 0x800 + 4 * index := by
  rw [romAddress, dmBase_add_toNat hxlen haligned, romOffset_toNat hindex, Nat.add_assoc]

theorem romAddress_succ {index : ℕ} (hindex : index + 1 < 512) :
    romAddress cfg xlen index + 4 = romAddress cfg xlen (index + 1) := by
  have hhere := romAddress_toNat hxlen haligned (show index < 512 by omega)
  have hnext := romAddress_toNat hxlen haligned hindex
  have hlt := (romAddress cfg xlen (index + 1)).isLt
  have hfour : (4 : BitVec xlen).toNat = 4 := by rcases hxlen with rfl | rfl <;> rfl
  rw [← BitVec.toNat_inj, BitVec.toNat_add, hfour, Nat.mod_eq_of_lt (by omega)]
  omega

theorem romAddress_injective {index index' : ℕ} (hindex : index < 512) (hindex' : index' < 512) :
    romAddress cfg xlen index = romAddress cfg xlen index' ↔ index = index' := by
  rw [← BitVec.toNat_inj, romAddress_toNat hxlen haligned hindex,
    romAddress_toNat hxlen haligned hindex']
  omega

theorem romAddress_ne_whereToAddress {index : ℕ} (hindex : index < 512) :
    romAddress cfg xlen index ≠ whereToAddress cfg xlen := by
  intro heq
  have hwhere : (whereToAddress cfg xlen).toNat = cfg.dmBaseAddress.toNat + 0x300 :=
    dmBase_add_toNat hxlen haligned whereToAddr
  rw [← heq, romAddress_toNat hxlen haligned hindex] at hwhere
  omega

theorem dmBase_add_eq_ofInt (offset : BitVec 12) :
    dmBase cfg xlen + offset.setWidth xlen =
      BitVec.ofInt xlen (cfg.dmBaseAddress.toNat + offset.toNat : ℕ) := by
  rw [BitVec.ofInt_natCast, ← dmBase_add_toNat hxlen haligned offset, BitVec.ofNat_toNat,
    BitVec.setWidth_eq]

/-- A relative jump in the debug memory. -/
theorem dmBase_add_romDistance {width : ℕ} (hwidth : 13 ≤ width) (hnarrow : width ≤ 32)
    (source target : BitVec 12) :
    dmBase cfg xlen + source.setWidth xlen + (romDistance width source target).signExtend xlen =
      dmBase cfg xlen + target.setWidth xlen := by
  have hpow : 2 ^ 13 ≤ 2 ^ width := Nat.pow_le_pow_right (by decide) hwidth
  have hsource := source.isLt
  have htarget := target.isLt
  have hdistance : (romDistance width source target).toInt = target.toNat - source.toNat := by
    rw [romDistance, BitVec.toInt_ofInt, Int.bmod_eq_of_le (by omega) (by omega)]
  have hextend : (romDistance width source target).signExtend xlen =
      BitVec.ofInt xlen (target.toNat - source.toNat) := by
    rw [← hdistance, ← BitVec.toInt_signExtend_of_le (show width ≤ xlen by omega),
      BitVec.ofInt_toInt]
  rw [hextend, dmBase_add_eq_ofInt hxlen haligned, dmBase_add_eq_ofInt hxlen haligned,
    ← BitVec.ofInt_add]
  congr 1
  push_cast
  ring

/-- A fetch from the ROM. -/
theorem romFetch_eq (e : Environment cfg xlen flen) {m : Machine cfg xlen flen} {index : ℕ}
    (hindex : index < (romListing cfg.hasSndScratch).length)
    (hpc : m.pc = romAddress cfg xlen index) :
    e.romFetch m = (romListing cfg.hasSndScratch)[index]? := by
  rw [Environment.romFetch, hpc, romAddress, debugOffset_add hxlen haligned, Option.bind_some,
    readWord_rom e.memory e.inputs m.data (by rwa [length_romListing] at hindex),
    romDecode_romWord hindex]

end Addresses

end RiscvDebug.Hart
