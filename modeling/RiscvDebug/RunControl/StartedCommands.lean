import RiscvDebug.Hart.GeneratedCode
import RiscvDebug.RunControl.CommandErrors
import RiscvDebug.RunControl.CommandStart
import RiscvDebug.RunControl.CommandsWithoutTransfer

/-!
# Which commands are started

A command is to be started only when the module can carry it out: a transfer names a register, has
the size of a word or a double word, and no increment. The generator refuses the sizes that are too
wide and the register numbers from 0x4000 on (`supported_transfer_iff`), and starts other commands
that it cannot carry out. `onlyCarriedOutStarts_iff` finds the commands that are judged rightly in
every reachable state.
-/

set_option autoImplicit false
set_option relaxedAutoImplicit false

namespace RiscvDebug.DmTop

open Foundations Hart

variable {cfg : Config}

/-! ### Register numbers -/

/-- The numbers of registers: those of control and status registers, of integer registers and of
floating-point registers. -/
def isAssigned (regno : BitVec 16) : Prop :=
  regno ≤ 0x0fff ∨ (0x1000 ≤ regno ∧ regno ≤ 0x101f) ∨ (0x1020 ≤ regno ∧ regno ≤ 0x103f)

instance (regno : BitVec 16) : Decidable (isAssigned regno) :=
  inferInstanceAs (Decidable (_ ∨ _))

theorem isAssigned_iff (regno : BitVec 16) : isAssigned regno ↔ regno.toNat < 0x1040 := by
  have hcsrs : (0x0fff : BitVec 16).toNat = 0x0fff := rfl
  have hfirst : (0x1000 : BitVec 16).toNat = 0x1000 := rfl
  have hlast : (0x101f : BitVec 16).toNat = 0x101f := rfl
  have hfirst' : (0x1020 : BitVec 16).toNat = 0x1020 := rfl
  have hlast' : (0x103f : BitVec 16).toNat = 0x103f := rfl
  rw [isAssigned, BitVec.le_def, BitVec.le_def, BitVec.le_def, BitVec.le_def, BitVec.le_def, hcsrs,
    hfirst, hlast, hfirst', hlast']
  omega

/-- The generator takes the number of a register for that register. -/
theorem regno_registerOf {regno : BitVec 16} (hassigned : isAssigned regno) :
    (registerOf regno).regno = regno := by
  rw [isAssigned_iff] at hassigned
  have hkind : regno.getLsbD 12 = decide (regno.toNat / 4096 % 2 = 1) := by
    rw [BitVec.getLsbD, Nat.testBit_eq_decide_div_mod_eq]
  have hfloat : regno.getLsbD 5 = decide (regno.toNat / 32 % 2 = 1) := by
    rw [BitVec.getLsbD, Nat.testBit_eq_decide_div_mod_eq]
  have hgprs : (0x1000 : BitVec 16).toNat = 0x1000 := rfl
  have hfprs : (0x1020 : BitVec 16).toNat = 0x1020 := rfl
  rw [registerOf, hkind, hfloat, ← BitVec.toNat_inj]
  simp only [decide_eq_true_eq]
  split_ifs with hregister hregister'
  · rw [RegisterName.regno, BitVec.toNat_add, BitVec.toNat_setWidth, BitVec.extractLsb'_toNat,
      Nat.shiftRight_zero, hfprs]
    omega
  · rw [RegisterName.regno, BitVec.toNat_add, BitVec.toNat_setWidth, BitVec.extractLsb'_toNat,
      Nat.shiftRight_zero, hgprs]
    omega
  · rw [RegisterName.regno, BitVec.toNat_setWidth, BitVec.extractLsb'_toNat, Nat.shiftRight_zero]
    omega

/-! ### What the generator accepts -/

theorem reserved_iff (regno : BitVec 16) :
    regno.extractLsb' 14 2 = 0 ↔ regno.toNat < 0x4000 := by
  have hlt := regno.isLt
  have hzero : (0 : BitVec 2).toNat = 0 := rfl
  rw [← BitVec.toNat_inj, BitVec.extractLsb'_toNat, Nat.shiftRight_eq_div_pow, hzero]
  omega

/-- A transfer is accepted for every size that is not too wide and for every number below 0x4000. -/
theorem supported_transfer_iff {command : Command} (hcmdtype : command.cmdtype = accessRegister)
    (htransfer : (AcArCmd.ofBits command.control).transfer = true) :
    cfg.unsupportedCommand command = false ↔
      (AcArCmd.ofBits command.control).aarsize.toNat < cfg.maxAar ∧
        (AcArCmd.ofBits command.control).regno.toNat < 0x4000 := by
  by_cases hsize : (AcArCmd.ofBits command.control).aarsize.toNat < cfg.maxAar
  · have hunsupported : cfg.unsupportedCommand command =
        ((AcArCmd.ofBits command.control).regno.extractLsb' 14 2 != 0) := by
      rw [Config.unsupportedCommand, abstractCmd_of_transfer hcmdtype htransfer hsize,
        ← transferCmd_unsupported cfg]
      split_ifs <;> rfl
    rw [hunsupported, bne_eq_false_iff_eq, reserved_iff]
    exact ⟨fun hregno ↦ ⟨hsize, hregno⟩, fun hboth ↦ hboth.2⟩
  · refine iff_of_false ?_ fun hboth ↦ hsize hboth.1
    have hwide : (AcArCmd.ofBits command.control).aarsize.toNat ≥ cfg.maxAar := not_lt.mp hsize
    rw [Config.unsupportedCommand, Config.abstractCmd, if_pos hcmdtype,
      AbstractCmd.accessRegisterBranch]
    simp [hsize, hwide, leave_unsupported]

/-! ### Commands that can be carried out -/

/-- The module can carry the command out: it has no transfer, or a transfer between a register and
one or two data registers, without an increment of the register number. -/
structure CarriedOut (cfg : Config) (command : Command) : Prop where
  cmdtype : command.cmdtype = accessRegister
  operands : (AcArCmd.ofBits command.control).transfer = true →
    (AcArCmd.ofBits command.control).aarpostincrement = false ∧
      ((AcArCmd.ofBits command.control).aarsize = 2 ∨
        ((AcArCmd.ofBits command.control).aarsize = 3 ∧ cfg.maxRegisterAccessWidth = 64)) ∧
      isAssigned (AcArCmd.ofBits command.control).regno

/-- The generator accepts the command although the module cannot carry it out: a transfer of a byte
or a half word, with an increment, or of a number between 0x1040 and 0x3fff. -/
structure Misjudged (cfg : Config) (command : Command) : Prop where
  cmdtype : command.cmdtype = accessRegister
  transfer : (AcArCmd.ofBits command.control).transfer = true
  size_lt : (AcArCmd.ofBits command.control).aarsize.toNat < cfg.maxAar
  regno_lt : (AcArCmd.ofBits command.control).regno.toNat < 0x4000
  operands : (AcArCmd.ofBits command.control).aarsize.toNat < 2 ∨
    (AcArCmd.ofBits command.control).aarpostincrement = true ∨
    0x1040 ≤ (AcArCmd.ofBits command.control).regno.toNat

/-- The sizes of a word and of a double word that fits. -/
theorem size_iff (size : BitVec 3) :
    size = 2 ∨ (size = 3 ∧ cfg.maxRegisterAccessWidth = 64) ↔
      size.toNat < cfg.maxAar ∧ ¬ size.toNat < 2 := by
  have htwo : (2 : BitVec 3).toNat = 2 := rfl
  have hthree : (3 : BitVec 3).toNat = 3 := rfl
  rw [Config.maxAar, ← BitVec.toNat_inj, ← BitVec.toNat_inj, htwo, hthree]
  split_ifs with hwidth
  · simp only [hwidth, and_true]
    omega
  · simp only [hwidth, and_false, or_false]
    omega

theorem misjudged_iff (command : Command) :
    Misjudged cfg command ↔
      cfg.unsupportedCommand command = false ∧ ¬ CarriedOut cfg command := by
  constructor
  · rintro ⟨hcmdtype, htransfer, hsize, hregno, hoperands⟩
    refine ⟨(supported_transfer_iff hcmdtype htransfer).mpr ⟨hsize, hregno⟩, fun hcarried ↦ ?_⟩
    obtain ⟨hincrement, hword, hassigned⟩ := hcarried.operands htransfer
    rcases hoperands with hnarrow | hincremented | hunassigned
    · exact ((size_iff _).mp hword).2 hnarrow
    · exact absurd hincremented (Bool.eq_false_iff.mp hincrement)
    · exact absurd ((isAssigned_iff _).mp hassigned) (not_lt.mpr hunassigned)
  · rintro ⟨hsupported, hnot⟩
    have hcmdtype := cmdtype_of_supported hsupported
    have htransfer : (AcArCmd.ofBits command.control).transfer = true := by
      by_contra hnone
      exact hnot ⟨hcmdtype, fun htransfer ↦ absurd htransfer hnone⟩
    obtain ⟨hsize, hregno⟩ := (supported_transfer_iff hcmdtype htransfer).mp hsupported
    refine ⟨hcmdtype, htransfer, hsize, hregno, ?_⟩
    by_contra hgood
    rw [not_or, not_or, Bool.not_eq_true, not_le] at hgood
    exact hnot ⟨hcmdtype, fun _ ↦
      ⟨hgood.2.1, (size_iff _).mpr ⟨hsize, hgood.1⟩, (isAssigned_iff _).mpr hgood.2.2⟩⟩

/-! ### Triggers -/

/-- The command error of a cycle in which the hart control refuses a command as unsupported. A
signal to Exception goes before it. -/
def refusal (i : Inputs cfg) : BitVec 3 :=
  if i.slave.writes DmMem.exceptionAddr then cmdErrorException else cmdErrNotSupported

/-- A trigger starts only a command that can be carried out, on the register that it names; every
other command is refused, whatever the inputs of the cycle are. -/
structure OnlyCarriedOutStarts (s : Regs cfg) : Prop where
  starts : ∀ i, (next s i).mem.state = .go → CarriedOut cfg s.csrs.command
  accesses : ∀ i, (next s i).mem.state = .go →
    (AcArCmd.ofBits s.csrs.command.control).transfer = true →
    (registerOf (AcArCmd.ofBits s.csrs.command.control).regno).regno =
      (AcArCmd.ofBits s.csrs.command.control).regno
  refuses : ¬ CarriedOut cfg s.csrs.command → ∀ i,
    (next s i).mem.state =
        (if !s.csrs.dmcontrol.ndmreset && resumeTaken s then .resume else .idle) ∧
      reportedError s i = some (refusal i) ∧ (next s i).csrs.cmderr = refusal i

section Trigger

variable {s : Regs cfg} (hidle : s.mem.state = .idle) (hpulse : s.csrs.cmdValid = true)
include hidle hpulse

/-- An unsupported command is refused. -/
theorem refused_of_unsupported (hactive : s.csrs.dmcontrol.dmactive = true)
    (hunsupported : cfg.unsupportedCommand s.csrs.command = true) (i : Inputs cfg) :
    (next s i).mem.state =
        (if !s.csrs.dmcontrol.ndmreset && resumeTaken s then .resume else .idle) ∧
      reportedError s i = some (refusal i) ∧ (next s i).csrs.cmderr = refusal i := by
  have hreported : reportedError s i = some (refusal i) := by
    rw [reportedError, hpulse, hunsupported, refusal, Bool.and_true, if_pos (rfl : true = true)]
    split_ifs <;> rfl
  refine ⟨?_, hreported, ?_⟩
  · rw [state_next_of_idle i hidle, commandTaken, hunsupported, Bool.not_true, Bool.and_false]
    cases s.csrs.dmcontrol.ndmreset <;> cases resumeTaken s <;> rfl
  · rw [cmderr_next i hactive, hreported]
    rfl

omit hpulse in
/-- A command that starts is supported. -/
theorem supported_of_starts {i : Inputs cfg} (hstarts : (next s i).mem.state = .go) :
    cfg.unsupportedCommand s.csrs.command = false := by
  rw [state_next_of_idle i hidle] at hstarts
  split_ifs at hstarts with hndmreset hresume hcommand
  simpa using (Bool.and_eq_true_iff.mp hcommand).2

/-- A supported command is not refused as unsupported. -/
theorem not_refused_of_supported (hsupported : cfg.unsupportedCommand s.csrs.command = false) :
    reportedError s (Inputs.quiet cfg) ≠ some (refusal (Inputs.quiet cfg)) := by
  have hquiet : (Inputs.quiet cfg).slave.writes DmMem.exceptionAddr = false := rfl
  rw [reportedError, refusal, hquiet, hpulse, hsupported, hidle]
  cases s.mem.halted.getLsbD s.selected with
  | true => simp
  | false => exact fun heq ↦ absurd (Option.some_inj.mp heq) (by decide)

end Trigger

/-- The module is active while the command pulse is up. -/
theorem active_of_pulse {inputs : ℕ → Inputs cfg} {time : ℕ}
    (hpulse : (run inputs time).csrs.cmdValid = true) :
    (run inputs time).csrs.dmcontrol.dmactive = true := by
  obtain ⟨before, rfl, htrigger⟩ := trigger_of_pulse hpulse
  obtain ⟨hactive, htriggers⟩ := Bool.and_eq_true_iff.mp htrigger
  rw [run_succ, dmactive_next, writtenDmcontrol_of_not_writes (not_writes_of_triggers htriggers),
    hactive]

/-- In every reachable state a trigger in Idle starts only a command that can be carried out, and
refuses every other one, exactly when its command is none of the misjudged ones. -/
theorem onlyCarriedOutStarts_iff (inputs : ℕ → Inputs cfg) (time : ℕ)
    (hidle : (run inputs time).mem.state = .idle)
    (hpulse : (run inputs time).csrs.cmdValid = true) :
    OnlyCarriedOutStarts (run inputs time) ↔ ¬ Misjudged cfg (run inputs time).csrs.command := by
  rw [misjudged_iff]
  constructor
  · rintro ⟨-, -, hrefuses⟩ ⟨hsupported, hnot⟩
    exact not_refused_of_supported hidle hpulse hsupported (hrefuses hnot (Inputs.quiet cfg)).2.1
  · intro hjudged
    have hstarts (i : Inputs cfg) (hgo : (next (run inputs time) i).mem.state = .go) :
        CarriedOut cfg (run inputs time).csrs.command := by
      by_contra hnot
      exact hjudged ⟨supported_of_starts hidle hgo, hnot⟩
    refine ⟨hstarts, fun i hgo htransfer ↦ ?_, fun hnot i ↦ ?_⟩
    · exact regno_registerOf ((hstarts i hgo).operands htransfer).2.2
    · refine refused_of_unsupported hidle hpulse (active_of_pulse hpulse) ?_ i
      by_contra hsupported
      exact hjudged ⟨by simpa using hsupported, hnot⟩

/-- The number 0x1045 names no register; its command is accepted, starts, and reads x5. -/
theorem readsUnassigned_starts :
    ¬ OnlyCarriedOutStarts (run (commandRun 0x00321045) 4) ∧
      (run (commandRun 0x00321045) 5).mem.state = .go ∧
      GeneratesTransfer farModule (run (commandRun 0x00321045) 4).csrs.command (.gpr 5) 3 false
        false := by
  have hgo : (run (commandRun 0x00321045) 5).mem.state = .go := by decide +kernel
  refine ⟨fun hstarts ↦ ?_, hgo, ⟨by decide +kernel, by decide +kernel, by decide +kernel,
    by decide +kernel, by decide +kernel, by decide +kernel, by decide +kernel,
    by decide +kernel⟩⟩
  have hassigned := ((hstarts.starts _ hgo).operands (by decide +kernel)).2.2
  exact absurd hassigned (by decide +kernel)

/-- A read of x5 starts, and one of the number 0xc005 is refused. -/
theorem readsX5_starts :
    OnlyCarriedOutStarts (run (commandRun 0x00321005) 4) ∧
      OnlyCarriedOutStarts (run (commandRun 0x0032c005) 4) := by
  constructor
  · refine (onlyCarriedOutStarts_iff (commandRun 0x00321005) 4 (by decide +kernel)
      (by decide +kernel)).mpr fun hmisjudged ↦ ?_
    exact absurd hmisjudged.operands (by decide +kernel)
  · refine (onlyCarriedOutStarts_iff (commandRun 0x0032c005) 4 (by decide +kernel)
      (by decide +kernel)).mpr fun hmisjudged ↦ ?_
    exact absurd hmisjudged.regno_lt (by decide +kernel)

end RiscvDebug.DmTop
