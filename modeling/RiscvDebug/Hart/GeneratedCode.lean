import RiscvDebug.Hart.Execution

/-!
# The code generated for a command

The ten words that the debug module generates for an Access Register command, read as
instructions, in three parts. `enter` brings the base address into a0 away from the zero page,
`transfer` moves the value, through s0 for the registers that no load reaches, and `leave` restores
a0. The last word is an `ebreak`, or lets the hart run on into the program buffer.
`decode_words` says so for every register number that the generator accepts, and `registerOf` is
the register that it takes the number for.
-/

set_option autoImplicit false
set_option relaxedAutoImplicit false

namespace RiscvDebug.Hart

open Foundations DmMem

variable {cfg : Config}

/-! ### Commands -/

/-- A register that a command names. -/
inductive RegisterName
  | gpr (number : BitVec 5)
  | fpr (number : BitVec 5)
  | csr (number : BitVec 12)
deriving DecidableEq, Repr

/-- The register number in a command. -/
def RegisterName.regno : RegisterName → BitVec 16
  | .gpr number => 0x1000 + number.setWidth 16
  | .fpr number => 0x1020 + number.setWidth 16
  | .csr number => number.setWidth 16

/-- The command moves a value of the given size between the data registers and a register, into it
or out of it. -/
structure AccessesRegister (cfg : Config) (command : Command) (name : RegisterName)
    (size : BitVec 3) (write : Bool) : Prop where
  cmdtype : command.cmdtype = accessRegister
  transfer : (AcArCmd.ofBits command.control).transfer = true
  postexec : (AcArCmd.ofBits command.control).postexec = false
  aarsize : (AcArCmd.ofBits command.control).aarsize = size
  write_eq : (AcArCmd.ofBits command.control).write = write
  regno : (AcArCmd.ofBits command.control).regno = name.regno
  size_lt : size.toNat < cfg.maxAar

/-! ### The generated code -/

/-- NOP. -/
def nopInstruction : Instruction := .addi 0 0 0

/-- The part that saves a0 and loads the base address into it. -/
def enter (cfg : Config) : List Instruction :=
  if cfg.hasSndScratch then
    [.csrrw 0 10 csrDscratch1, .auipc 10 0, .srli 10 10 12, .slli 10 10 12]
  else [nopInstruction, nopInstruction, nopInstruction, nopInstruction]

/-- The part that restores a0. -/
def leave (cfg : Config) : List Instruction :=
  if cfg.hasSndScratch then [.csrrs 10 0 csrDscratch1] else [nopInstruction]

/-- A transfer between the data registers and a control and status register through s0. -/
def throughS0 (cfg : Config) (csr : BitVec 12) (size : BitVec 3) (write : Bool) :
    List Instruction :=
  if write then
    [.csrrw 0 8 csrDscratch0, .load size 8 cfg.loadBaseAddr dataAddr, .csrrw 0 8 csr,
      .csrrs 8 0 csrDscratch0]
  else
    [.csrrw 0 8 csrDscratch0, .csrrs 8 0 csr, .store size 8 cfg.loadBaseAddr dataAddr,
      .csrrs 8 0 csrDscratch0]

/-- The part that moves the value. The value of a borrowed a0 is in the second scratch register. -/
def transfer (cfg : Config) (name : RegisterName) (size : BitVec 3) (write : Bool) :
    List Instruction :=
  match name with
  | .gpr number =>
    if cfg.hasSndScratch ∧ number = 10 then throughS0 cfg csrDscratch1 size write
    else
      [if write then .load size number cfg.loadBaseAddr dataAddr
        else .store size number cfg.loadBaseAddr dataAddr,
        nopInstruction, nopInstruction, nopInstruction]
  | .fpr number =>
    [if write then .floatLoad size number cfg.loadBaseAddr dataAddr
      else .floatStore size number cfg.loadBaseAddr dataAddr,
      nopInstruction, nopInstruction, nopInstruction]
  | .csr number => throughS0 cfg number size write

/-- The code of a command, up to its `ebreak`. -/
def code (cfg : Config) (name : RegisterName) (size : BitVec 3) (write : Bool) :
    List Instruction :=
  enter cfg ++ transfer cfg name size write ++ leave cfg

theorem length_transfer (name : RegisterName) (size : BitVec 3) (write : Bool) :
    (transfer cfg name size write).length = 4 := by
  cases name with
  | gpr number =>
    rw [transfer]
    by_cases hborrowed : cfg.hasSndScratch ∧ number = 10
    · rw [if_pos hborrowed]
      cases write <;> rfl
    · rw [if_neg hborrowed]
      rfl
  | fpr number => rfl
  | csr number => cases write <;> rfl

theorem length_code (name : RegisterName) (size : BitVec 3) (write : Bool) :
    (code cfg name size write).length = 9 := by
  rw [code, List.length_append, List.length_append, length_transfer]
  cases hscratch : cfg.hasSndScratch <;> simp [enter, leave, hscratch]

/-- The code of a command has no jumps. -/
theorem isStraight_code (name : RegisterName) (size : BitVec 3) (write : Bool) :
    ∀ instruction ∈ code cfg name size write, instruction.isStraight = true := by
  have hall : (code cfg name size write).all Instruction.isStraight = true := by
    rw [code, List.all_append, List.all_append, enter, leave]
    cases name <;> cases write <;> simp only [transfer] <;> split_ifs <;> rfl
  exact List.all_eq_true.mp hall

/-! ### Decoding -/

/-- The register that the generator takes a number for: bit 12 tells the control and status
registers from the others, and bit 5 the floating-point registers from the integer ones. -/
def registerOf (regno : BitVec 16) : RegisterName :=
  if regno.getLsbD 12 then
    if regno.getLsbD 5 then .fpr (regno.extractLsb' 0 5) else .gpr (regno.extractLsb' 0 5)
  else .csr (regno.extractLsb' 0 12)

theorem registerOf_regno (name : RegisterName) : registerOf name.regno = name := by
  cases name with
  | gpr number =>
    revert number
    decide
  | fpr number =>
    revert number
    decide
  | csr number =>
    have hkind : (RegisterName.csr number).regno.getLsbD 12 = false := by
      simp [RegisterName.regno]
    rw [registerOf, hkind, if_neg Bool.false_ne_true]
    congr 1
    ext index hindex
    rw [BitVec.getElem_extractLsb', RegisterName.regno, BitVec.getLsbD_setWidth]
    simp [hindex, show index < 16 by omega]

/-- The upper bits of the number of a register are zero. -/
theorem regno_reserved (name : RegisterName) : name.regno.extractLsb' 14 2 = 0 := by
  cases name with
  | gpr number =>
    revert number
    decide
  | fpr number =>
    revert number
    decide
  | csr number =>
    ext index hindex
    rw [BitVec.getElem_extractLsb', RegisterName.regno, BitVec.getLsbD_setWidth,
      BitVec.getLsbD_of_ge number _ (by omega), Bool.and_false]
    simp

/-- The command is one for whose transfer code is generated. -/
structure GeneratesTransfer (cfg : Config) (command : Command) (name : RegisterName)
    (size : BitVec 3) (write postexec : Bool) : Prop where
  cmdtype : command.cmdtype = accessRegister
  transfer : (AcArCmd.ofBits command.control).transfer = true
  postexec_eq : (AcArCmd.ofBits command.control).postexec = postexec
  aarsize : (AcArCmd.ofBits command.control).aarsize = size
  write_eq : (AcArCmd.ofBits command.control).write = write
  reserved : (AcArCmd.ofBits command.control).regno.extractLsb' 14 2 = 0
  name_eq : registerOf (AcArCmd.ofBits command.control).regno = name
  size_lt : size.toNat < cfg.maxAar

theorem AccessesRegister.generates {command : Command} {name : RegisterName} {size : BitVec 3}
    {write : Bool} (haccess : AccessesRegister cfg command name size write) :
    GeneratesTransfer cfg command name size write false where
  cmdtype := haccess.cmdtype
  transfer := haccess.transfer
  postexec_eq := haccess.postexec
  aarsize := haccess.aarsize
  write_eq := haccess.write_eq
  reserved := haccess.regno ▸ regno_reserved name
  name_eq := haccess.regno ▸ registerOf_regno name
  size_lt := haccess.size_lt

/-- The generated command of a transfer, before its last word is decided. -/
def transferCmd (cfg : Config) (ar : AcArCmd) : AbstractCmd :=
  if ar.write then AbstractCmd.writeRegister cfg ar (AbstractCmd.defaults cfg)
  else AbstractCmd.readRegister cfg ar (AbstractCmd.defaults cfg)

@[simp] theorem put_unsupported (c : AbstractCmd) (index : ℕ) (word : BitVec 32) :
    (c.put index word).unsupported = c.unsupported := rfl

theorem leave_unsupported (c : AbstractCmd) : c.leave.unsupported = true := rfl

/-- A transfer is refused for the reserved numbers only. -/
theorem transferCmd_unsupported (cfg : Config) (ar : AcArCmd) :
    (transferCmd cfg ar).unsupported = (ar.regno.extractLsb' 14 2 != 0) := by
  have hdefaults : (AbstractCmd.defaults cfg).unsupported = false := rfl
  unfold transferCmd AbstractCmd.writeRegister AbstractCmd.readRegister
  simp only [apply_ite AbstractCmd.unsupported, put_unsupported, leave_unsupported, hdefaults,
    ite_self]
  cases ar.regno.extractLsb' 14 2 != 0 <;> rfl

/-- The generated command of a transfer that is not too wide. -/
theorem abstractCmd_of_transfer {command : Command} (hcmdtype : command.cmdtype = accessRegister)
    (htransfer : (AcArCmd.ofBits command.control).transfer = true)
    (hsize : (AcArCmd.ofBits command.control).aarsize.toNat < cfg.maxAar) :
    cfg.abstractCmd command =
      if (AcArCmd.ofBits command.control).postexec &&
          (AcArCmd.ofBits command.control).regno.extractLsb' 14 2 == 0 then
        (transferCmd cfg (AcArCmd.ofBits command.control)).put 9 nop
      else transferCmd cfg (AcArCmd.ofBits command.control) := by
  have hunsupported := transferCmd_unsupported cfg (AcArCmd.ofBits command.control)
  have hreserved : ((AcArCmd.ofBits command.control).regno.extractLsb' 14 2 == 0) =
      !(transferCmd cfg (AcArCmd.ofBits command.control)).unsupported := by
    rw [hunsupported, bne, Bool.not_not]
  rw [hreserved, Config.abstractCmd, if_pos hcmdtype, AbstractCmd.accessRegisterBranch]
  unfold transferCmd
  cases hwrite : (AcArCmd.ofBits command.control).write <;> simp [htransfer, hsize]

theorem loadBaseAddr_eq (cfg : Config) :
    cfg.loadBaseAddr = if cfg.hasSndScratch then 10#5 else 0#5 := by
  by_cases hzero : cfg.dmBaseAddress = 0 <;> simp [Config.loadBaseAddr, Config.hasSndScratch, hzero]

section Decoding

variable {ar : AcArCmd} (hreserved : ar.regno.extractLsb' 14 2 = 0)
include hreserved

theorem decode_transferCmd_gpr (hkind : ar.regno.getLsbD 12 = true)
    (hinteger : ar.regno.getLsbD 5 = false) {position : ℕ} (hposition : position < 10) :
    decode ((transferCmd cfg ar).words[position]?.getD 0) =
      (code cfg (.gpr (ar.regno.extractLsb' 0 5)) ar.aarsize ar.write ++ [.ebreak])[position]? := by
  unfold transferCmd AbstractCmd.writeRegister AbstractCmd.readRegister AbstractCmd.namesA0
  simp only [hreserved, hkind, hinteger]
  generalize ar.regno.extractLsb' 0 5 = number
  by_cases hborrowed : cfg.hasSndScratch = true ∧ number = 10
  · obtain ⟨hscratch, rfl⟩ := hborrowed
    cases ar.write <;> interval_cases position <;>
      simp [AbstractCmd.put, AbstractCmd.defaults, code, enter, transfer, leave, throughS0,
        loadBaseAddr_eq, hscratch, decode_auipc, decode_srli, decode_slli, decode_csrw,
        decode_csrr, decode_load, decode_store, decode_ebreak]
  · have hdirect : (cfg.hasSndScratch && true && !false && (number == 10)) = false := by
      simpa using hborrowed
    rw [hdirect, code, transfer, if_neg hborrowed]
    cases hscratch : cfg.hasSndScratch <;> cases ar.write <;> interval_cases position <;>
      simp [AbstractCmd.put, AbstractCmd.defaults, enter, leave, nopInstruction,
        loadBaseAddr_eq, hscratch, decode_auipc, decode_srli, decode_slli, decode_csrw,
        decode_csrr, decode_load, decode_store, decode_nop, decode_ebreak]

theorem decode_transferCmd_fpr (hkind : ar.regno.getLsbD 12 = true)
    (hfloat : ar.regno.getLsbD 5 = true) {position : ℕ} (hposition : position < 10) :
    decode ((transferCmd cfg ar).words[position]?.getD 0) =
      (code cfg (.fpr (ar.regno.extractLsb' 0 5)) ar.aarsize ar.write ++ [.ebreak])[position]? := by
  unfold transferCmd AbstractCmd.writeRegister AbstractCmd.readRegister AbstractCmd.namesA0
  simp only [hreserved, hkind, hfloat]
  cases hscratch : cfg.hasSndScratch <;> cases ar.write <;> interval_cases position <;>
    simp [AbstractCmd.put, AbstractCmd.defaults, code, enter, transfer, leave, nopInstruction,
      loadBaseAddr_eq, hscratch, decode_auipc, decode_srli, decode_slli, decode_csrw, decode_csrr,
      decode_floatLoad, decode_floatStore, decode_nop, decode_ebreak]

theorem decode_transferCmd_csr (hkind : ar.regno.getLsbD 12 = false) {position : ℕ}
    (hposition : position < 10) :
    decode ((transferCmd cfg ar).words[position]?.getD 0) =
      (code cfg (.csr (ar.regno.extractLsb' 0 12)) ar.aarsize ar.write ++
        [.ebreak])[position]? := by
  unfold transferCmd AbstractCmd.writeRegister AbstractCmd.readRegister AbstractCmd.namesA0
  simp only [hreserved, hkind]
  cases hscratch : cfg.hasSndScratch <;> cases ar.write <;> interval_cases position <;>
    simp [AbstractCmd.put, AbstractCmd.defaults, code, enter, transfer, leave, throughS0,
      nopInstruction, loadBaseAddr_eq, hscratch, decode_auipc, decode_srli, decode_slli,
      decode_csrw, decode_csrr, decode_load, decode_store, decode_nop, decode_ebreak]

/-- The words of a transfer decode to its code and an `ebreak`. -/
theorem decode_transferCmd {position : ℕ} (hposition : position < 10) :
    decode ((transferCmd cfg ar).words[position]?.getD 0) =
      (code cfg (registerOf ar.regno) ar.aarsize ar.write ++ [.ebreak])[position]? := by
  unfold registerOf
  cases hkind : ar.regno.getLsbD 12 with
  | false => exact decode_transferCmd_csr hreserved hkind hposition
  | true =>
    cases hfloat : ar.regno.getLsbD 5 with
    | false => exact decode_transferCmd_gpr hreserved hkind hfloat hposition
    | true => exact decode_transferCmd_fpr hreserved hkind hfloat hposition

end Decoding

/-- The last word of a generated command. -/
def lastInstruction (postexec : Bool) : Instruction := if postexec then nopInstruction else .ebreak

/-- The generated words decode to the code of the command and its last word. -/
theorem decode_words {command : Command} {name : RegisterName} {size : BitVec 3}
    {write postexec : Bool} (hgenerates : GeneratesTransfer cfg command name size write postexec)
    {position : ℕ} (hposition : position < 10) :
    decode ((cfg.abstractCmd command).words[position]?.getD 0) =
      (code cfg name size write ++ [lastInstruction postexec])[position]? := by
  obtain ⟨hcmdtype, htransfer, rfl, rfl, rfl, hreserved, rfl, hsize⟩ := hgenerates
  have hword : decode ((transferCmd cfg _).words[position]?.getD 0) = _ :=
    decode_transferCmd hreserved hposition
  have hlength : (code cfg (registerOf (AcArCmd.ofBits command.control).regno)
    (AcArCmd.ofBits command.control).aarsize (AcArCmd.ofBits command.control).write).length = 9 :=
      length_code _ _ _
  rw [abstractCmd_of_transfer hcmdtype htransfer hsize, hreserved, beq_self_eq_true, Bool.and_true]
  unfold lastInstruction
  split_ifs
  · by_cases hlast : position = 9
    · subst hlast
      rw [List.getElem?_append_right (by omega), hlength, AbstractCmd.put,
        Vector.getElem?_setIfInBounds_self_of_lt (by decide)]
      exact decode_nop
    · rw [List.getElem?_append_left (by omega)] at hword ⊢
      rw [← hword, AbstractCmd.put, Vector.getElem?_setIfInBounds_ne (Ne.symm hlast)]
  · exact hword

end RiscvDebug.Hart
