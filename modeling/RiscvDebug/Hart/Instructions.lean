import RiscvDebug.Package

/-!
# The instructions of the generated code

The instructions that the debug module generates, decoded from their words by the formats of the
base instruction set: `decode` reads the fields that the instruction set defines, and knows
nothing of the encoders of the package. One theorem for each encoder says that its word decodes to
the instruction of its name.
-/

set_option autoImplicit false
set_option relaxedAutoImplicit false

namespace RiscvDebug.Hart

open Foundations BitVec

/-! ### Instructions and their fields -/

/-- The instructions that generated code consists of. -/
inductive Instruction
  | addi (rd rs1 : BitVec 5) (imm : BitVec 12)
  | slli (rd rs1 : BitVec 5) (shamt : BitVec 6)
  | srli (rd rs1 : BitVec 5) (shamt : BitVec 6)
  | auipc (rd : BitVec 5) (imm : BitVec 20)
  | jal (rd : BitVec 5) (imm : BitVec 21)
  | load (size : BitVec 3) (rd rs1 : BitVec 5) (imm : BitVec 12)
  | store (size : BitVec 3) (rs2 rs1 : BitVec 5) (imm : BitVec 12)
  | floatLoad (size : BitVec 3) (rd rs1 : BitVec 5) (imm : BitVec 12)
  | floatStore (size : BitVec 3) (rs2 rs1 : BitVec 5) (imm : BitVec 12)
  | csrrw (rd rs1 : BitVec 5) (csr : BitVec 12)
  | csrrs (rd rs1 : BitVec 5) (csr : BitVec 12)
  | ebreak
deriving DecidableEq, Repr

section Fields

variable (w : BitVec 32)

def opcode : BitVec 7 := w.extractLsb' 0 7
def rd : BitVec 5 := w.extractLsb' 7 5
def funct3 : BitVec 3 := w.extractLsb' 12 3
def rs1 : BitVec 5 := w.extractLsb' 15 5
def rs2 : BitVec 5 := w.extractLsb' 20 5
/-- The upper six bits of a shift, zero in the logical shifts. -/
def funct6 : BitVec 6 := w.extractLsb' 26 6
def shamt : BitVec 6 := w.extractLsb' 20 6
def immI : BitVec 12 := w.extractLsb' 20 12
def immS : BitVec 12 := w.extractLsb' 25 7 ++ w.extractLsb' 7 5
def immU : BitVec 20 := w.extractLsb' 12 20
def immJ : BitVec 21 :=
  w.extractLsb' 31 1 ++ w.extractLsb' 12 8 ++ w.extractLsb' 20 1 ++ w.extractLsb' 21 10 ++ 0#1

end Fields

/-- The instruction of a word, and none for a word outside the subset. -/
def decode (w : BitVec 32) : Option Instruction :=
  if opcode w = 0x13 then
    if funct3 w = 0 then some (.addi (rd w) (rs1 w) (immI w))
    else if funct3 w = 1 ∧ funct6 w = 0 then some (.slli (rd w) (rs1 w) (shamt w))
    else if funct3 w = 5 ∧ funct6 w = 0 then some (.srli (rd w) (rs1 w) (shamt w))
    else none
  else if opcode w = 0x17 then some (.auipc (rd w) (immU w))
  else if opcode w = 0x6f then some (.jal (rd w) (immJ w))
  else if opcode w = 0x03 then some (.load (funct3 w) (rd w) (rs1 w) (immI w))
  else if opcode w = 0x23 then some (.store (funct3 w) (rs2 w) (rs1 w) (immS w))
  else if opcode w = 0x07 then some (.floatLoad (funct3 w) (rd w) (rs1 w) (immI w))
  else if opcode w = 0x27 then some (.floatStore (funct3 w) (rs2 w) (rs1 w) (immS w))
  else if opcode w = 0x73 then
    if funct3 w = 1 then some (.csrrw (rd w) (rs1 w) (immI w))
    else if funct3 w = 2 then some (.csrrs (rd w) (rs1 w) (immI w))
    else if w = 0x00100073 then some .ebreak
    else none
  else none

/-! ### The encoders -/

/-- The fields of a word of the I format. -/
structure FieldsI (w : BitVec 32) (imm : BitVec 12) (source : BitVec 5) (f : BitVec 3)
    (dest : BitVec 5) (op : BitVec 7) : Prop where
  opcode : opcode w = op
  rd : rd w = dest
  funct3 : funct3 w = f
  rs1 : rs1 w = source
  immI : immI w = imm

theorem fieldsI (imm : BitVec 12) (source : BitVec 5) (f : BitVec 3) (dest : BitVec 5)
    (op : BitVec 7) : FieldsI (imm ++ source ++ f ++ dest ++ op) imm source f dest op where
  opcode := by
    rw [opcode, extractLsb'_append_eq_of_add_le (by omega), extractLsb'_eq_self]
  rd := by
    rw [rd, extractLsb'_append_eq_of_le (by omega), extractLsb'_append_eq_of_add_le (by omega)]
    exact extractLsb'_eq_self
  funct3 := by
    rw [funct3, extractLsb'_append_eq_of_le (by omega),
      extractLsb'_append_eq_of_le (by omega), extractLsb'_append_eq_of_add_le (by omega)]
    exact extractLsb'_eq_self
  rs1 := by
    rw [rs1, extractLsb'_append_eq_of_le (by omega),
      extractLsb'_append_eq_of_le (by omega), extractLsb'_append_eq_of_le (by omega),
      extractLsb'_append_eq_of_add_le (by omega)]
    exact extractLsb'_eq_self
  immI := by
    rw [immI, extractLsb'_append_eq_of_le (by omega),
      extractLsb'_append_eq_of_le (by omega), extractLsb'_append_eq_of_le (by omega),
      extractLsb'_append_eq_of_le (by omega)]
    exact extractLsb'_eq_self

/-- The fields of a shift, whose immediate holds a function and an amount. -/
theorem fieldsShift (f6 : BitVec 6) (amount : BitVec 6) (source : BitVec 5) (f : BitVec 3)
    (dest : BitVec 5) (op : BitVec 7) :
    funct6 ((f6 ++ amount) ++ source ++ f ++ dest ++ op) = f6 ∧
      shamt ((f6 ++ amount) ++ source ++ f ++ dest ++ op) = amount := by
  constructor
  · rw [funct6, extractLsb'_append_eq_of_le (by omega), extractLsb'_append_eq_of_le (by omega),
      extractLsb'_append_eq_of_le (by omega), extractLsb'_append_eq_of_le (by omega)]
    exact extractLsb'_append_eq_left
  · rw [shamt, extractLsb'_append_eq_of_le (by omega), extractLsb'_append_eq_of_le (by omega),
      extractLsb'_append_eq_of_le (by omega), extractLsb'_append_eq_of_le (by omega)]
    exact extractLsb'_append_eq_right

/-- The fields of a word of the S format, whose immediate is split. -/
structure FieldsS (w : BitVec 32) (imm : BitVec 12) (source base : BitVec 5) (f : BitVec 3)
    (op : BitVec 7) : Prop where
  opcode : opcode w = op
  funct3 : funct3 w = f
  rs1 : rs1 w = base
  rs2 : rs2 w = source
  immS : immS w = imm

theorem fieldsS (imm : BitVec 12) (source base : BitVec 5) (f : BitVec 3) (op : BitVec 7) :
    FieldsS (imm.extractLsb' 5 7 ++ source ++ base ++ f ++ imm.extractLsb' 0 5 ++ op) imm source
      base f op where
  opcode := by
    rw [opcode, extractLsb'_append_eq_of_add_le (by omega), extractLsb'_eq_self]
  funct3 := by
    rw [funct3, extractLsb'_append_eq_of_le (by omega),
      extractLsb'_append_eq_of_le (by omega), extractLsb'_append_eq_of_add_le (by omega)]
    exact extractLsb'_eq_self
  rs1 := by
    rw [rs1, extractLsb'_append_eq_of_le (by omega),
      extractLsb'_append_eq_of_le (by omega), extractLsb'_append_eq_of_le (by omega),
      extractLsb'_append_eq_of_add_le (by omega)]
    exact extractLsb'_eq_self
  rs2 := by
    rw [rs2, extractLsb'_append_eq_of_le (by omega),
      extractLsb'_append_eq_of_le (by omega), extractLsb'_append_eq_of_le (by omega),
      extractLsb'_append_eq_of_le (by omega), extractLsb'_append_eq_of_add_le (by omega)]
    exact extractLsb'_eq_self
  immS := by
    rw [immS, extractLsb'_append_eq_of_le (by omega),
      extractLsb'_append_eq_of_le (by omega), extractLsb'_append_eq_of_le (by omega),
      extractLsb'_append_eq_of_le (by omega), extractLsb'_append_eq_of_le (by omega),
      extractLsb'_append_eq_of_le (by omega), extractLsb'_append_eq_of_add_le (by omega)]
    show (imm.extractLsb' 5 7).extractLsb' 0 7 ++ (imm.extractLsb' 0 5).extractLsb' 0 5 = imm
    rw [extractLsb'_eq_self, extractLsb'_eq_self]
    exact @extractLsb'_append_extractLsb' 7 5 imm

/-- The fields of a word of the U and J formats. -/
theorem fieldsU (imm : BitVec 20) (dest : BitVec 5) (op : BitVec 7) :
    opcode (imm ++ dest ++ op) = op ∧ rd (imm ++ dest ++ op) = dest ∧
      immU (imm ++ dest ++ op) = imm := by
  refine ⟨?_, ?_, ?_⟩
  · rw [opcode, extractLsb'_append_eq_of_add_le (by omega), extractLsb'_eq_self]
  · rw [rd, extractLsb'_append_eq_of_le (by omega), extractLsb'_append_eq_of_add_le (by omega)]
    exact extractLsb'_eq_self
  · rw [immU, extractLsb'_append_eq_of_le (by omega),
      extractLsb'_append_eq_of_le (by omega)]
    exact extractLsb'_eq_self

theorem decode_nop : decode nop = some (.addi 0 0 0) := by decide

theorem decode_ebreak : decode ebreak = some .ebreak := by decide

theorem decode_load (size : BitVec 3) (dest base : BitVec 5) (offset : BitVec 12) :
    decode (load size dest base offset) = some (.load size dest base offset) := by
  obtain ⟨hopcode, hrd, hfunct3, hrs1, himm⟩ := fieldsI offset base size dest 0x03#7
  rw [load, decode, hopcode, hrd, hfunct3, hrs1, himm]
  rfl

theorem decode_floatLoad (size : BitVec 3) (dest base : BitVec 5) (offset : BitVec 12) :
    decode (floatLoad size dest base offset) = some (.floatLoad size dest base offset) := by
  obtain ⟨hopcode, hrd, hfunct3, hrs1, himm⟩ := fieldsI offset base size dest 0x07#7
  rw [floatLoad, decode, hopcode, hrd, hfunct3, hrs1, himm]
  rfl

theorem decode_store (size : BitVec 3) (source base : BitVec 5) (offset : BitVec 12) :
    decode (store size source base offset) = some (.store size source base offset) := by
  obtain ⟨hopcode, hfunct3, hrs1, hrs2, himm⟩ := fieldsS offset source base size 0x23#7
  rw [store, decode, hopcode, hfunct3, hrs1, hrs2, himm]
  rfl

theorem decode_floatStore (size : BitVec 3) (source base : BitVec 5) (offset : BitVec 12) :
    decode (floatStore size source base offset) = some (.floatStore size source base offset) := by
  obtain ⟨hopcode, hfunct3, hrs1, hrs2, himm⟩ := fieldsS offset source base size 0x27#7
  rw [floatStore, decode, hopcode, hfunct3, hrs1, hrs2, himm]
  rfl

theorem decode_csrw (csr : BitVec 12) (source : BitVec 5) :
    decode (csrw csr source) = some (.csrrw 0 source csr) := by
  obtain ⟨hopcode, hrd, hfunct3, hrs1, himm⟩ := fieldsI csr source 1#3 0#5 0x73#7
  rw [csrw, decode, hopcode, hrd, hfunct3, hrs1, himm]
  rfl

theorem decode_csrr (csr : BitVec 12) (dest : BitVec 5) :
    decode (csrr csr dest) = some (.csrrs dest 0 csr) := by
  obtain ⟨hopcode, hrd, hfunct3, hrs1, himm⟩ := fieldsI csr 0#5 2#3 dest 0x73#7
  rw [csrr, decode, hopcode, hrd, hfunct3, hrs1, himm]
  rfl

theorem decode_slli (dest source : BitVec 5) (amount : BitVec 6) :
    decode (slli dest source amount) = some (.slli dest source amount) := by
  obtain ⟨hopcode, hrd, hfunct3, hrs1, -⟩ := fieldsI (0#6 ++ amount) source 1#3 dest 0x13#7
  obtain ⟨hfunct6, hshamt⟩ := fieldsShift 0#6 amount source 1#3 dest 0x13#7
  have hword : slli dest source amount = (0#6 ++ amount) ++ source ++ 1#3 ++ dest ++ 0x13#7 := rfl
  rw [hword, decode, hopcode, hrd, hfunct3, hrs1, hfunct6, hshamt]
  rfl

theorem decode_srli (dest source : BitVec 5) (amount : BitVec 6) :
    decode (srli dest source amount) = some (.srli dest source amount) := by
  obtain ⟨hopcode, hrd, hfunct3, hrs1, -⟩ := fieldsI (0#6 ++ amount) source 5#3 dest 0x13#7
  obtain ⟨hfunct6, hshamt⟩ := fieldsShift 0#6 amount source 5#3 dest 0x13#7
  have hword : srli dest source amount = (0#6 ++ amount) ++ source ++ 5#3 ++ dest ++ 0x13#7 := rfl
  rw [hword, decode, hopcode, hrd, hfunct3, hrs1, hfunct6, hshamt]
  rfl

/-- The encoder permutes the immediate of AUIPC as that of a jump; zero comes back. -/
theorem decode_auipc (dest : BitVec 5) :
    decode (auipc dest 0#21) = some (.auipc dest 0#20) := by
  obtain ⟨hopcode, hrd, himm⟩ := fieldsU 0#20 dest 0x17#7
  have hword : auipc dest 0#21 = 0#20 ++ dest ++ 0x17#7 := by
    rw [auipc]
    rfl
  rw [hword, decode, hopcode, hrd, himm]
  rfl

/-- The address a jump goes to. -/
def jumpTarget (pc : BitVec 12) (w : BitVec 32) : Option (BitVec 12) :=
  match decode w with
  | some (.jal _ imm) => some (pc + imm.setWidth 12)
  | _ => none

end RiscvDebug.Hart
