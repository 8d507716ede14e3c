import RiscvDebug.Package

/-!
# The generated abstract command

The process `p_abstract_cmd_rom` of `dm_mem`: the ten instruction words a hart executes for an
abstract command, and whether the command is supported. The eight 64-bit entries of
`abstract_cmd` are sixteen 32-bit words here, entry `k` holding words `2k` and `2k + 1`.
-/

set_option autoImplicit false
set_option relaxedAutoImplicit false

namespace RiscvDebug

/-- `abstract_cmd` and `unsupported_command`. -/
structure AbstractCmd where
  words : Vector (BitVec 32) 16
  unsupported : Bool
deriving DecidableEq

namespace AbstractCmd

/-- One 64-bit entry. -/
def entry (c : AbstractCmd) (index : ℕ) : BitVec 64 :=
  c.words[2 * index + 1]?.getD 0 ++ c.words[2 * index]?.getD 0

/-- One word replaced. -/
def put (c : AbstractCmd) (index : ℕ) (word : BitVec 32) : AbstractCmd :=
  { c with words := c.words.setIfInBounds index word }

variable (cfg : Config)

/-- The default memory: the base address is brought into a0 when there is a second scratch
register, and a0 is restored before the final `ebreak`. -/
def defaults : AbstractCmd where
  unsupported := false
  words :=
    #v[illegal, if cfg.hasSndScratch then auipc 10 0 else nop,
      if cfg.hasSndScratch then srli 10 10 12 else nop,
      if cfg.hasSndScratch then slli 10 10 12 else nop,
      nop, nop, nop, nop,
      if cfg.hasSndScratch then csrr csrDscratch1 10 else nop, ebreak,
      0, 0, 0, 0, 0, 0]

/-- The reserved register numbers and the sizes that are too wide leave at once. -/
def leave (c : AbstractCmd) : AbstractCmd := { c.put 0 ebreak with unsupported := true }

/-- Whether the command names a0 in a configuration that borrows a0. -/
def namesA0 (ar : AcArCmd) : Bool :=
  cfg.hasSndScratch && ar.regno.getLsbD 12 && !ar.regno.getLsbD 5 && ar.regno.extractLsb' 0 5 == 10

/-- A transfer into a register. -/
def writeRegister (ar : AcArCmd) (c : AbstractCmd) : AbstractCmd :=
  let c := c.put 0 (if cfg.hasSndScratch then csrw csrDscratch1 10 else nop)
  if ar.regno.extractLsb' 14 2 != 0 then c.leave
  else if namesA0 cfg ar then
    (((c.put 4 (csrw csrDscratch0 8)).put 5 (load ar.aarsize 8 cfg.loadBaseAddr dataAddr)).put 6
      (csrw csrDscratch1 8)).put 7 (csrr csrDscratch0 8)
  else if ar.regno.getLsbD 12 then
    if ar.regno.getLsbD 5 then
      c.put 4 (floatLoad ar.aarsize (ar.regno.extractLsb' 0 5) cfg.loadBaseAddr dataAddr)
    else c.put 4 (load ar.aarsize (ar.regno.extractLsb' 0 5) cfg.loadBaseAddr dataAddr)
  else
    (((c.put 4 (csrw csrDscratch0 8)).put 5 (load ar.aarsize 8 cfg.loadBaseAddr dataAddr)).put 6
      (csrw (ar.regno.extractLsb' 0 12) 8)).put 7 (csrr csrDscratch0 8)

/-- A transfer out of a register. -/
def readRegister (ar : AcArCmd) (c : AbstractCmd) : AbstractCmd :=
  let c := c.put 0 (if cfg.hasSndScratch then csrw csrDscratch1 cfg.loadBaseAddr else nop)
  if ar.regno.extractLsb' 14 2 != 0 then c.leave
  else if namesA0 cfg ar then
    (((c.put 4 (csrw csrDscratch0 8)).put 5 (csrr csrDscratch1 8)).put 6
      (store ar.aarsize 8 cfg.loadBaseAddr dataAddr)).put 7 (csrr csrDscratch0 8)
  else if ar.regno.getLsbD 12 then
    if ar.regno.getLsbD 5 then
      c.put 4 (floatStore ar.aarsize (ar.regno.extractLsb' 0 5) cfg.loadBaseAddr dataAddr)
    else c.put 4 (store ar.aarsize (ar.regno.extractLsb' 0 5) cfg.loadBaseAddr dataAddr)
  else
    (((c.put 4 (csrw csrDscratch0 8)).put 5 (csrr (ar.regno.extractLsb' 0 12) 8)).put 6
      (store ar.aarsize 8 cfg.loadBaseAddr dataAddr)).put 7 (csrr csrDscratch0 8)

/-- The Access Register branch. -/
def accessRegisterBranch (ar : AcArCmd) (c : AbstractCmd) : AbstractCmd :=
  let c :=
    if ar.aarsize.toNat < cfg.maxAar && ar.transfer && ar.write then writeRegister cfg ar c
    else if ar.aarsize.toNat < cfg.maxAar && ar.transfer && !ar.write then readRegister cfg ar c
    else if ar.aarsize.toNat ≥ cfg.maxAar || ar.aarpostincrement then c.leave
    else c
  -- an unsupported command does not run into the program buffer
  if ar.postexec && !c.unsupported then c.put 9 nop else c

end AbstractCmd

/-- The process `p_abstract_cmd_rom`. -/
def Config.abstractCmd (cfg : Config) (cmd : Command) : AbstractCmd :=
  if cmd.cmdtype = accessRegister then
    AbstractCmd.accessRegisterBranch cfg (AcArCmd.ofBits cmd.control) (AbstractCmd.defaults cfg)
  else (AbstractCmd.defaults cfg).leave

/-- `unsupported_command`. -/
def Config.unsupportedCommand (cfg : Config) (cmd : Command) : Bool :=
  (cfg.abstractCmd cmd).unsupported

end RiscvDebug
