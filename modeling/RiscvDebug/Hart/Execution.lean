import RiscvDebug.DebugModule.HartWords
import RiscvDebug.Hart.Instructions

/-!
# Execution of generated code

A hart with 32 or 64-bit integer registers, floating-point registers and control and status
registers, which fetches from the debug memory and accesses it by loads and stores. Fetches, loads
and stores go through the registers and lanes of `dm_mem`. Which instructions trap is left open;
the control and status registers are plain storage. `run_straight` reduces a run of straight code
up to its `ebreak` to the execution of the list of its instructions.
-/

set_option autoImplicit false
set_option relaxedAutoImplicit false

namespace RiscvDebug.Hart

open Foundations DmMem

/-! ### Registers -/

/-- The integer registers. Register zero reads as zero. -/
@[ext] structure IntegerRegisters (xlen : ℕ) where
  read : BitVec 5 → BitVec xlen
  read_zero : read 0 = 0

namespace IntegerRegisters

variable {xlen : ℕ} (registers : IntegerRegisters xlen) (rd : BitVec 5)

/-- A write of an integer register, without effect on register zero. -/
def write (value : BitVec xlen) : IntegerRegisters xlen where
  read := fun number ↦
    if number = 0 then 0 else if number = rd then value else registers.read number
  read_zero := if_pos rfl

theorem read_write (value : BitVec xlen) (number : BitVec 5) :
    (registers.write rd value).read number =
      if number = rd ∧ number ≠ 0 then value else registers.read number := by
  show (if number = 0 then 0 else if number = rd then value else registers.read number) = _
  by_cases hzero : number = 0
  · rw [if_pos hzero, if_neg fun hboth ↦ hboth.2 hzero, hzero, registers.read_zero]
  · rw [if_neg hzero]
    simp only [ne_eq, hzero, not_false_eq_true, and_true]

@[simp] theorem read_write_self {value : BitVec xlen} (hrd : rd ≠ 0) :
    (registers.write rd value).read rd = value := by
  rw [read_write, if_pos ⟨rfl, hrd⟩]

@[simp] theorem read_write_of_ne {number : BitVec 5} {value : BitVec xlen} (hother : number ≠ rd) :
    (registers.write rd value).read number = registers.read number := by
  rw [read_write, if_neg fun hboth ↦ hother hboth.1]

@[simp] theorem write_zero (value : BitVec xlen) : registers.write 0#5 value = registers := by
  ext number : 2
  rw [read_write, if_neg fun hboth ↦ hboth.2 hboth.1]

@[simp] theorem write_write (first second : BitVec xlen) :
    (registers.write rd first).write rd second = registers.write rd second := by
  ext number : 2
  rw [read_write, read_write, read_write]
  split_ifs <;> rfl

@[simp] theorem write_read : registers.write rd (registers.read rd) = registers := by
  ext number : 2
  rw [read_write]
  split_ifs with hboth
  · exact congrArg registers.read hboth.1.symm
  · rfl

end IntegerRegisters

/-- A hart that executes generated code, with the data registers it shares with the debugger. -/
structure Machine (cfg : Config) (xlen flen : ℕ) where
  pc : BitVec xlen
  gprs : IntegerRegisters xlen
  fprs : BitVec 5 → BitVec flen
  csrs : BitVec 12 → BitVec xlen
  data : Vector (BitVec 32) cfg.dataCount

/-- What a hart executes generated code in: the debug memory, whose command and program buffer do
not change meanwhile, and the instructions that trap. -/
structure Environment (cfg : Config) (xlen flen : ℕ) where
  memory : DmMem.Regs cfg
  inputs : DmMem.Inputs cfg
  traps : Machine cfg xlen flen → Instruction → Bool

variable {cfg : Config} {xlen flen : ℕ}

namespace Machine

variable (m : Machine cfg xlen flen)

/-- On to the next instruction. -/
def advance : Machine cfg xlen flen := { m with pc := m.pc + 4 }

/-- The same registers at another instruction. -/
def withPc (pc : BitVec xlen) : Machine cfg xlen flen := { m with pc := pc }

def setGpr (rd : BitVec 5) (value : BitVec xlen) : Machine cfg xlen flen :=
  { m with gprs := m.gprs.write rd value }

def setFpr (rd : BitVec 5) (value : BitVec flen) : Machine cfg xlen flen :=
  { m with fprs := Function.update m.fprs rd value }

def setCsr (csr : BitVec 12) (value : BitVec xlen) : Machine cfg xlen flen :=
  { m with csrs := Function.update m.csrs csr value }

def setData (data : Vector (BitVec 32) cfg.dataCount) : Machine cfg xlen flen :=
  { m with data := data }

section Fields

variable (pc : BitVec xlen) (number : BitVec 5) (csr : BitVec 12) (value : BitVec xlen)
  (float : BitVec flen) (data : Vector (BitVec 32) cfg.dataCount)

@[simp] theorem withPc_gprs : (m.withPc pc).gprs = m.gprs := rfl
@[simp] theorem withPc_fprs : (m.withPc pc).fprs = m.fprs := rfl
@[simp] theorem withPc_csrs : (m.withPc pc).csrs = m.csrs := rfl
@[simp] theorem withPc_data : (m.withPc pc).data = m.data := rfl
@[simp] theorem setGpr_gprs : (m.setGpr number value).gprs = m.gprs.write number value := rfl
@[simp] theorem setGpr_fprs : (m.setGpr number value).fprs = m.fprs := rfl
@[simp] theorem setGpr_csrs : (m.setGpr number value).csrs = m.csrs := rfl
@[simp] theorem setGpr_data : (m.setGpr number value).data = m.data := rfl
@[simp] theorem setFpr_gprs : (m.setFpr number float).gprs = m.gprs := rfl
@[simp] theorem setFpr_fprs :
    (m.setFpr number float).fprs = Function.update m.fprs number float := rfl
@[simp] theorem setFpr_csrs : (m.setFpr number float).csrs = m.csrs := rfl
@[simp] theorem setFpr_data : (m.setFpr number float).data = m.data := rfl
@[simp] theorem setCsr_gprs : (m.setCsr csr value).gprs = m.gprs := rfl
@[simp] theorem setCsr_fprs : (m.setCsr csr value).fprs = m.fprs := rfl
@[simp] theorem setCsr_csrs : (m.setCsr csr value).csrs = Function.update m.csrs csr value := rfl
@[simp] theorem setCsr_data : (m.setCsr csr value).data = m.data := rfl
@[simp] theorem setData_gprs : (m.setData data).gprs = m.gprs := rfl
@[simp] theorem setData_fprs : (m.setData data).fprs = m.fprs := rfl
@[simp] theorem setData_csrs : (m.setData data).csrs = m.csrs := rfl
@[simp] theorem setData_data : (m.setData data).data = data := rfl

end Fields

end Machine

/-! ### Memory -/

/-- The base address of the debug module as the hart sees it. -/
def dmBase (cfg : Config) (xlen : ℕ) : BitVec xlen := cfg.dmBaseAddress.setWidth xlen

/-- The offset of an address in the debug memory, and none for an address outside its page. -/
def debugOffset (cfg : Config) (address : BitVec xlen) : Option (BitVec 12) :=
  if address >>> 12 = dmBase cfg xlen >>> 12 then some (address.setWidth 12) else none

/-- A single-precision value in a wider register, with ones above it. -/
def boxed (flen : ℕ) (value : BitVec 32) : BitVec flen :=
  value.setWidth flen ||| BitVec.allOnes flen <<< 32

namespace Environment

variable (e : Environment cfg xlen flen) (m : Machine cfg xlen flen)

/-- LB, LH, LW and LD. -/
def load (size : BitVec 3) (address : BitVec xlen) : Option (BitVec xlen) :=
  (debugOffset cfg address).bind fun offset ↦
    if size = 0 then some (((readWord e.memory e.inputs m.data offset).setWidth 8).signExtend xlen)
    else if size = 1 then
      some (((readWord e.memory e.inputs m.data offset).setWidth 16).signExtend xlen)
    else if size = 2 then some ((readWord e.memory e.inputs m.data offset).signExtend xlen)
    else if size = 3 ∧ xlen = 64 then
      some ((readDouble e.memory e.inputs m.data offset).setWidth xlen)
    else none

/-- FLW and FLD. -/
def floatLoad (size : BitVec 3) (address : BitVec xlen) : Option (BitVec flen) :=
  (debugOffset cfg address).bind fun offset ↦
    if size = 2 then some (boxed flen (readWord e.memory e.inputs m.data offset))
    else if size = 3 ∧ flen = 64 then
      some ((readDouble e.memory e.inputs m.data offset).setWidth flen)
    else none

/-- SB, SH, SW, SD, FSW and FSD, of a register with the given number of bits. -/
def store {width : ℕ} (size : BitVec 3) (address : BitVec xlen) (value : BitVec width) :
    Option (Vector (BitVec 32) cfg.dataCount) :=
  (debugOffset cfg address).bind fun offset ↦
    if size = 0 then
      some (dataOut (e.inputs.withAccess m.data (writeAccess cfg offset 1 (value.setWidth 64))))
    else if size = 1 then
      some (dataOut (e.inputs.withAccess m.data (writeAccess cfg offset 2 (value.setWidth 64))))
    else if size = 2 then some (writeWord e.inputs m.data offset (value.setWidth 32))
    else if size = 3 ∧ width = 64 then
      some (writeDouble e.inputs m.data offset (value.setWidth 64))
    else none

/-! ### Instructions -/

/-- The instruction at the program counter. -/
def fetch : Option Instruction :=
  (debugOffset cfg m.pc).bind fun offset ↦
    decode (readWord e.memory e.inputs m.data offset)

/-- The effect of an instruction, and none for one that the hart does not have. -/
def execute : Instruction → Option (Machine cfg xlen flen)
  | .addi rd rs1 imm => some (m.setGpr rd (m.gprs.read rs1 + imm.signExtend xlen)).advance
  | .slli rd rs1 shamt =>
    if shamt.toNat < xlen then some (m.setGpr rd (m.gprs.read rs1 <<< shamt.toNat)).advance
    else none
  | .srli rd rs1 shamt =>
    if shamt.toNat < xlen then some (m.setGpr rd (m.gprs.read rs1 >>> shamt.toNat)).advance
    else none
  | .auipc rd imm => some (m.setGpr rd (m.pc + (imm ++ 0#12).signExtend xlen)).advance
  | .jal rd imm => some { m.setGpr rd (m.pc + 4) with pc := m.pc + imm.signExtend xlen }
  | .load size rd rs1 imm =>
    (e.load m size (m.gprs.read rs1 + imm.signExtend xlen)).map fun value ↦
      (m.setGpr rd value).advance
  | .floatLoad size rd rs1 imm =>
    (e.floatLoad m size (m.gprs.read rs1 + imm.signExtend xlen)).map fun value ↦
      (m.setFpr rd value).advance
  | .store size rs2 rs1 imm =>
    (e.store m size (m.gprs.read rs1 + imm.signExtend xlen) (m.gprs.read rs2)).map fun data ↦
      (m.setData data).advance
  | .floatStore size rs2 rs1 imm =>
    if size = 2 ∨ size = 3 then
      (e.store m size (m.gprs.read rs1 + imm.signExtend xlen) (m.fprs rs2)).map fun data ↦
        (m.setData data).advance
    else none
  | .csrrw rd rs1 csr =>
    some ((m.setCsr csr (m.gprs.read rs1)).setGpr rd (m.csrs csr)).advance
  | .csrrs rd rs1 csr =>
    -- the set form does not write the register when it names x0
    let written := if rs1 = 0 then m else m.setCsr csr (m.csrs csr ||| m.gprs.read rs1)
    some (written.setGpr rd (m.csrs csr)).advance
  | .ebreak => none

end Environment

/-- How a run of generated code ends. -/
inductive Outcome (cfg : Config) (xlen flen : ℕ)
  /-- At an `ebreak`. -/
  | halted (m : Machine cfg xlen flen)
  /-- At an instruction that traps. -/
  | trapped
  /-- At a word that is no instruction of the hart, or at an access outside the debug memory. -/
  | stuck
  | unfinished

/-- A run of a bounded number of instructions. -/
def Environment.run (e : Environment cfg xlen flen) :
    ℕ → Machine cfg xlen flen → Outcome cfg xlen flen
  | 0, _ => .unfinished
  | fuel + 1, m =>
    match e.fetch m with
    | none => .stuck
    | some .ebreak => .halted m
    | some instruction =>
      if e.traps m instruction then .trapped
      else
        match e.execute m instruction with
        | none => .stuck
        | some after => e.run fuel after

/-! ### Addresses -/

section Addresses

variable (hxlen : xlen = 32 ∨ xlen = 64) (haligned : cfg.dmBaseAddress.toNat % 4096 = 0)
include hxlen haligned

theorem dmBase_toNat : (dmBase cfg xlen).toNat = cfg.dmBaseAddress.toNat := by
  have hlt := cfg.dmBaseAddress.isLt
  have hwide : 2 ^ 32 ≤ 2 ^ xlen := by rcases hxlen with rfl | rfl <;> decide
  rw [dmBase, BitVec.toNat_setWidth, Nat.mod_eq_of_lt (by omega)]

theorem dmBase_add_toNat (offset : BitVec 12) :
    (dmBase cfg xlen + offset.setWidth xlen).toNat =
      cfg.dmBaseAddress.toNat + offset.toNat := by
  have hlt := cfg.dmBaseAddress.isLt
  have hoffset := offset.isLt
  have hwide : 2 ^ 32 ≤ 2 ^ xlen := by rcases hxlen with rfl | rfl <;> decide
  rw [BitVec.toNat_add, dmBase_toNat hxlen haligned, BitVec.toNat_setWidth,
    Nat.mod_eq_of_lt (show offset.toNat < 2 ^ xlen by omega), Nat.mod_eq_of_lt (by omega)]

/-- The addresses of the debug memory. -/
theorem debugOffset_add (offset : BitVec 12) :
    debugOffset cfg (dmBase cfg xlen + offset.setWidth xlen) = some offset := by
  have haddress := dmBase_add_toNat hxlen haligned offset
  have hoffset := offset.isLt
  have hpage : (dmBase cfg xlen + offset.setWidth xlen) >>> 12 = dmBase cfg xlen >>> 12 := by
    rw [← BitVec.toNat_inj, BitVec.toNat_ushiftRight, BitVec.toNat_ushiftRight, haddress,
      dmBase_toNat hxlen haligned, Nat.shiftRight_eq_div_pow, Nat.shiftRight_eq_div_pow]
    omega
  rw [debugOffset, if_pos hpage]
  congr 1
  rw [← BitVec.toNat_inj, BitVec.toNat_setWidth, haddress]
  omega

/-- Clearing the low bits of an address in the debug memory leaves the base address. -/
theorem shift_codeAddress (offset : BitVec 12) :
    (dmBase cfg xlen + offset.setWidth xlen) >>> 12 <<< 12 = dmBase cfg xlen := by
  have haddress := dmBase_add_toNat hxlen haligned offset
  have hoffset := offset.isLt
  have hlt := (dmBase cfg xlen).isLt
  have hbase := dmBase_toNat hxlen haligned
  rw [← BitVec.toNat_inj, BitVec.toNat_shiftLeft, BitVec.toNat_ushiftRight, haddress,
    Nat.shiftRight_eq_div_pow, Nat.shiftLeft_eq, hbase,
    show (cfg.dmBaseAddress.toNat + offset.toNat) / 2 ^ 12 * 2 ^ 12 = cfg.dmBaseAddress.toNat by
      omega, Nat.mod_eq_of_lt (by omega)]

end Addresses

/-! ### Straight code -/

/-- The address of a word of the generated command. -/
def codeAddress (cfg : Config) (xlen index : ℕ) : BitVec xlen :=
  dmBase cfg xlen + (commandOffset index).setWidth xlen

/-- The words of the generated command follow each other, and those of the program buffer them. -/
theorem codeAddress_succ (hxlen : xlen = 32 ∨ xlen = 64) {index : ℕ} (hindex : index + 1 ≤ 18) :
    codeAddress cfg xlen index + 4 = codeAddress cfg xlen (index + 1) := by
  have hoffset := commandOffset_toNat (show index ≤ 18 by omega)
  have hoffset' := commandOffset_toNat hindex
  have hwide : 2 ^ 32 ≤ 2 ^ xlen := by rcases hxlen with rfl | rfl <;> decide
  have hnext : (commandOffset index).setWidth xlen + 4 =
      (commandOffset (index + 1)).setWidth xlen := by
    have hfour : (4 : BitVec xlen).toNat = 4 := by
      rcases hxlen with rfl | rfl <;> rfl
    rw [← BitVec.toNat_inj, BitVec.toNat_add, BitVec.toNat_setWidth, BitVec.toNat_setWidth, hfour,
      Nat.mod_eq_of_lt (show (commandOffset index).toNat < 2 ^ xlen by omega),
      Nat.mod_eq_of_lt (show (commandOffset (index + 1)).toNat < 2 ^ xlen by omega),
      Nat.mod_eq_of_lt (by omega)]
    omega
  rw [codeAddress, BitVec.add_assoc, hnext, codeAddress]

/-- A fetch from the generated command decodes its word. -/
theorem fetch_codeAddress (hxlen : xlen = 32 ∨ xlen = 64)
    (haligned : cfg.dmBaseAddress.toNat % 4096 = 0) (e : Environment cfg xlen flen)
    {m : Machine cfg xlen flen} {index : ℕ} (hindex : index < 10)
    (hpc : m.pc = codeAddress cfg xlen index) :
    e.fetch m = decode ((cfg.abstractCmd e.inputs.cmd).words[index]?.getD 0) := by
  rw [Environment.fetch, hpc, codeAddress, debugOffset_add hxlen haligned, Option.bind_some,
    readWord_abstractCmd e.memory e.inputs m.data hindex]

/-- The instructions after which execution goes on at the next word. -/
def Instruction.isStraight : Instruction → Bool
  | .jal _ _ | .ebreak => false
  | _ => true

/-- Straight code advances the program counter by one word. -/
theorem pc_of_isStraight {e : Environment cfg xlen flen} {m after : Machine cfg xlen flen}
    {instruction : Instruction} (hstraight : instruction.isStraight = true)
    (hexecute : e.execute m instruction = some after) : after.pc = m.pc + 4 := by
  cases instruction with
  | jal | ebreak => exact absurd hstraight Bool.false_ne_true
  | addi | auipc | csrrw =>
    rw [← Option.some_inj.mp hexecute]
    rfl
  | csrrs rd rs1 csr =>
    rw [← Option.some_inj.mp hexecute]
    by_cases hzero : rs1 = 0
    · simp only [if_pos hzero]
      rfl
    · simp only [if_neg hzero]
      rfl
  | slli | srli =>
    simp only [Environment.execute] at hexecute
    split_ifs at hexecute
    rw [← Option.some_inj.mp hexecute]
    rfl
  | load | floatLoad | store =>
    simp only [Environment.execute, Option.map_eq_some_iff] at hexecute
    obtain ⟨value, -, rfl⟩ := hexecute
    rfl
  | floatStore =>
    simp only [Environment.execute] at hexecute
    split_ifs at hexecute
    obtain ⟨value, -, rfl⟩ := Option.map_eq_some_iff.mp hexecute
    rfl

/-- Code that stands at an index of some words has its rest at the next index. -/
theorem tail_of_code (words : ℕ → Option Instruction) {instruction : Instruction}
    {rest : List Instruction} {index count : ℕ}
    (hcode : ∀ position < count + 1, words (index + position) = (instruction :: rest)[position]?) :
    ∀ position < count, words (index + 1 + position) = rest[position]? := by
  intro position hposition
  rw [Nat.add_assoc, Nat.add_comm 1 position]
  exact hcode (position + 1) (Nat.succ_lt_succ hposition)

/-- A run of straight code up to its `ebreak` executes its instructions one after the other, unless
one of them traps. -/
theorem run_straight (hxlen : xlen = 32 ∨ xlen = 64)
    (haligned : cfg.dmBaseAddress.toNat % 4096 = 0) (e : Environment cfg xlen flen)
    {code : List Instruction} {index : ℕ} {m final : Machine cfg xlen flen}
    (hpc : m.pc = codeAddress cfg xlen index) (hfits : index + code.length < 10)
    (hcode : ∀ position < code.length + 1,
      decode ((cfg.abstractCmd e.inputs.cmd).words[index + position]?.getD 0) =
        (code ++ [.ebreak])[position]?)
    (hstraight : ∀ instruction ∈ code, instruction.isStraight = true)
    (hexecute : code.foldlM e.execute m = some final) :
    e.run (code.length + 1) m = .trapped ∨ e.run (code.length + 1) m = .halted final := by
  -- The induction is on the code; its first word is the one at the program counter.
  induction code generalizing index m with
  | nil =>
    right
    have hend := hcode 0 (by simp)
    rw [Nat.add_zero, ← fetch_codeAddress hxlen haligned e (by simpa using hfits) hpc] at hend
    obtain rfl : m = final := Option.some_inj.mp hexecute
    rw [List.length_nil, Environment.run, hend]
    rfl
  | cons instruction rest ih =>
    have hfirst := hcode 0 (by simp)
    rw [Nat.add_zero, ← fetch_codeAddress hxlen haligned e (by omega) hpc] at hfirst
    rw [List.foldlM_cons, Option.bind_eq_bind, Option.bind_eq_some_iff] at hexecute
    obtain ⟨after, hafter, hrest⟩ := hexecute
    have hplain := hstraight instruction (List.mem_cons_self)
    rw [List.length_cons] at hfits hcode ⊢
    have hpc' : after.pc = codeAddress cfg xlen (index + 1) := by
      rw [pc_of_isStraight hplain hafter, hpc, codeAddress_succ hxlen (by omega)]
    have hnext := ih hpc' (by omega)
      (tail_of_code (fun index ↦ decode ((cfg.abstractCmd e.inputs.cmd).words[index]?.getD 0))
        hcode)
      (fun other hother ↦ hstraight other (List.mem_cons_of_mem _ hother)) hrest
    have hrun : e.run (rest.length + 1 + 1) m =
        if e.traps m instruction then .trapped else e.run (rest.length + 1) after := by
      rw [Environment.run, hfirst]
      cases instruction with
      | ebreak => exact absurd hplain Bool.false_ne_true
      | _ => simp [hafter]
    rw [hrun]
    split_ifs
    · exact Or.inl rfl
    · exact hnext

end RiscvDebug.Hart
