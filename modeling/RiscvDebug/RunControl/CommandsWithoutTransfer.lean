import RiscvDebug.Hart.ProgramBuffer
import RiscvDebug.Hart.ScratchWrites

/-!
# Commands without a transfer

A command without a transfer is there to execute the program buffer, and its other operands are to
be ignored. The generator of the code rejects some of them all the same, and when nothing is to be
executed it leaves an illegal word in front of the `ebreak`. `ignoresOperands_iff` finds the
commands that are carried out as they should: those with postexec set and with operands that a
transfer may have.
-/

set_option autoImplicit false
set_option relaxedAutoImplicit false

namespace RiscvDebug.DmTop

open Foundations Hart

variable {cfg : Config}

/-! ### The generated command -/

/-- An Access Register command without a transfer. -/
structure WithoutTransfer (command : Command) : Prop where
  cmdtype : command.cmdtype = accessRegister
  transfer : (AcArCmd.ofBits command.control).transfer = false

section Generated

variable {command : Command} (hcommand : WithoutTransfer command)
include hcommand

/-- The generator looks at the size and at the increment all the same. -/
theorem abstractCmd_of_withoutTransfer :
    cfg.abstractCmd command =
      if (AcArCmd.ofBits command.control).aarsize.toNat ≥ cfg.maxAar ∨
          (AcArCmd.ofBits command.control).aarpostincrement = true then
        (AbstractCmd.defaults cfg).leave
      else if (AcArCmd.ofBits command.control).postexec then (AbstractCmd.defaults cfg).put 9 nop
      else AbstractCmd.defaults cfg := by
  have hdefaults : (AbstractCmd.defaults cfg).unsupported = false := rfl
  rw [Config.abstractCmd, if_pos hcommand.cmdtype, AbstractCmd.accessRegisterBranch,
    hcommand.transfer]
  simp only [Bool.and_false, Bool.false_and, Bool.false_eq_true, if_false, Bool.or_eq_true,
    decide_eq_true_eq]
  split_ifs <;> simp_all [leave_unsupported]

theorem supported_iff :
    cfg.unsupportedCommand command = false ↔
      (AcArCmd.ofBits command.control).aarsize.toNat < cfg.maxAar ∧
        (AcArCmd.ofBits command.control).aarpostincrement = false := by
  rw [Config.unsupportedCommand, abstractCmd_of_withoutTransfer hcommand]
  by_cases hrejected : (AcArCmd.ofBits command.control).aarsize.toNat ≥ cfg.maxAar ∨
      (AcArCmd.ofBits command.control).aarpostincrement = true
  · rw [if_pos hrejected]
    refine iff_of_false (by simp [leave_unsupported]) fun hboth ↦ ?_
    rcases hrejected with hwide | hincrement
    · exact absurd hboth.1 (not_lt.mpr hwide)
    · exact absurd hincrement (Bool.eq_false_iff.mp hboth.2)
  · rw [if_neg hrejected]
    rw [not_or, Bool.not_eq_true] at hrejected
    refine iff_of_true ?_ ⟨not_le.mp hrejected.1, hrejected.2⟩
    split_ifs <;> rfl

/-- Without postexec the first word is an illegal one, where the command is not rejected. -/
theorem first_word (hsupported : cfg.unsupportedCommand command = false)
    (hpostexec : (AcArCmd.ofBits command.control).postexec = false) :
    decode ((cfg.abstractCmd command).words[0]?.getD 0) = none := by
  obtain ⟨hsize, hincrement⟩ := (supported_iff hcommand).mp hsupported
  have hoperands : ¬ ((AcArCmd.ofBits command.control).aarsize.toNat ≥ cfg.maxAar ∨
      (AcArCmd.ofBits command.control).aarpostincrement = true) := by
    simp [hincrement, hsize]
  rw [abstractCmd_of_withoutTransfer hcommand, if_neg hoperands, hpostexec,
    if_neg Bool.false_ne_true]
  show decode illegal = none
  decide

end Generated

/-! ### What becomes of the command -/

/-- A command without a transfer is carried out whatever its other operands are: the hart control
starts it and reports no error of it, and the hart goes from WhereTo to the program buffer with its
registers as they are, or, when the program buffer is not to be executed, comes to an `ebreak`, and
so back to the park loop with no exception, with its registers and the data words as they are. -/
structure IgnoresOperands {xlen flen : ℕ} (s : Regs cfg) (i : Inputs cfg)
    (e : Environment cfg xlen flen) (start : Machine cfg xlen flen) : Prop where
  starts : (next s i).mem.state = .go
  accepted : i.slave.writes DmMem.exceptionAddr = false → reportedError s i = none
  executes : (AcArCmd.ofBits s.csrs.command.control).postexec = true →
    Advances e.codeStep 1 start (start.withPc (codeAddress cfg xlen 10))
  returns : (AcArCmd.ofBits s.csrs.command.control).postexec = false →
    ∃ fuel last, boundedRun e.codeStep fuel start = some (.halted last) ∧
      last.gprs = start.gprs ∧ last.fprs = start.fprs ∧ last.csrs = start.csrs ∧
        last.data = start.data

section Performed

variable {xlen flen : ℕ} (hxlen : xlen = 32 ∨ xlen = 64)
  (haligned : cfg.dmBaseAddress.toNat % 4096 = 0) {s : Regs cfg} {i : Inputs cfg}
  (e : Environment cfg xlen flen) {start : Machine cfg xlen flen}

/-- The command pulse of a command for a halted hart, with nothing that goes before it. -/
structure Pulse (s : Regs cfg) : Prop where
  state_eq : s.mem.state = .idle
  cmdValid : s.csrs.cmdValid = true
  halted : s.mem.halted.getLsbD s.selected = true
  ndmreset_eq : s.csrs.dmcontrol.ndmreset = false
  not_resuming : resumeTaken s = false

theorem Pulse.starts_iff (hpulse : Pulse s) (i : Inputs cfg) :
    (next s i).mem.state = .go ↔ cfg.unsupportedCommand s.csrs.command = false := by
  rw [state_next_of_idle i hpulse.state_eq, hpulse.ndmreset_eq, hpulse.not_resuming, commandTaken,
    hpulse.cmdValid, hpulse.halted]
  cases cfg.unsupportedCommand s.csrs.command with
  | true => exact iff_of_false (by decide) (by decide)
  | false => exact iff_of_true rfl rfl

/-- No error is reported of a supported command. -/
theorem Pulse.reportedError_eq_none (hpulse : Pulse s) {i : Inputs cfg}
    (hexception : i.slave.writes DmMem.exceptionAddr = false)
    (hsupported : cfg.unsupportedCommand s.csrs.command = false) : reportedError s i = none := by
  rw [reportedError, hexception, hsupported, hpulse.halted]
  simp

include hxlen haligned

/-- The illegal word in front of the `ebreak` stops the hart. -/
theorem stuck_of_supported (hcommand : WithoutTransfer e.inputs.cmd)
    (hsupported : cfg.unsupportedCommand e.inputs.cmd = false)
    (hpostexec : (AcArCmd.ofBits e.inputs.cmd.control).postexec = false)
    (hbusy : e.memory.state ≠ .idle) (htraps : ∀ imm, e.traps start (.jal 0 imm) = false)
    (hpc : start.pc = whereToAddress cfg xlen) :
    boundedRun e.codeStep 2 start = some (.stuck (start.withPc (codeAddress cfg xlen 0))) := by
  have hjump := advances_whereTo hxlen haligned e hbusy hcommand.cmdtype htraps hpc
  have hentry : commandEntry e.inputs.cmd = DmMem.abstractCmdBaseAddr := by
    rw [commandEntry, hpostexec, Bool.and_false, if_neg Bool.false_ne_true]
  have hfetch : e.fetch (start.withPc (codeAddress cfg xlen 0)) = none := by
    rw [fetch_codeAddress hxlen haligned e (by decide) rfl,
      first_word hcommand hsupported hpostexec]
  rw [hentry] at hjump
  refine hjump.run_done ?_
  show e.codeStep (start.withPc (codeAddress cfg xlen 0)) = _
  rw [Environment.codeStep, hfetch]

/-- A command without a transfer is carried out as it should exactly when it is to execute the
program buffer and has a size and an increment that a transfer may have. -/
theorem ignoresOperands_iff (hpulse : Pulse s) (hcommand : WithoutTransfer s.csrs.command)
    (hcmd : e.inputs.cmd = s.csrs.command) (hbusy : e.memory.state ≠ .idle)
    (htraps : ∀ imm, e.traps start (.jal 0 imm) = false)
    (hpc : start.pc = whereToAddress cfg xlen) :
    IgnoresOperands s i e start ↔
      (AcArCmd.ofBits s.csrs.command.control).postexec = true ∧
        (AcArCmd.ofBits s.csrs.command.control).aarsize.toNat < cfg.maxAar ∧
        (AcArCmd.ofBits s.csrs.command.control).aarpostincrement = false := by
  rw [← supported_iff hcommand]
  constructor
  · rintro ⟨hstarts, -, -, hreturns⟩
    have hsupported := (hpulse.starts_iff i).mp hstarts
    refine ⟨?_, hsupported⟩
    by_contra hpostexec
    rw [Bool.not_eq_true] at hpostexec
    obtain ⟨fuel, last, hrun, -⟩ := hreturns hpostexec
    rw [← hcmd] at hcommand hsupported hpostexec
    have hstuck := stuck_of_supported hxlen haligned e hcommand hsupported hpostexec hbusy htraps
      hpc
    cases boundedRun_unique hrun hstuck
  · rintro ⟨hpostexec, hsupported⟩
    refine ⟨(hpulse.starts_iff i).mpr hsupported,
      fun hexception ↦ hpulse.reportedError_eq_none hexception hsupported, fun _ ↦ ?_,
      fun hnone ↦ ?_⟩
    · rw [← hcmd] at hcommand hpostexec
      have hentry : commandEntry e.inputs.cmd = DmMem.progBufBaseAddr := by
        rw [commandEntry, hpostexec, hcommand.transfer]
        rfl
      have hjump := advances_whereTo hxlen haligned e hbusy hcommand.cmdtype htraps hpc
      rwa [hentry, progbufPc_eq] at hjump
    · exact absurd hpostexec (Bool.eq_false_iff.mp hnone)

end Performed

/-- The hart halts, and the host issues a command, whose pulse is up in cycle 4. -/
def commandRun (word : BitVec 32) : ℕ → Inputs farModule :=
  script
    [(Inputs.quiet farModule).withRequest ⟨0x10, dtmWrite, 0x00000001⟩,
      Inputs.quiet farModule,
      (Inputs.quiet farModule).withHartWrite DmMem.haltedAddr 0,
      (Inputs.quiet farModule).withRequest ⟨0x17, dtmWrite, word⟩]

/-- The hart executes the command. -/
def executesWord (word : BitVec 32) : Environment farModule 64 64 :=
  { writesA0 with
    memory := { writesA0.memory with state := .cmdExecuting }
    inputs := { writesA0.inputs with cmd := Command.ofBits word } }

/-- The hart at WhereTo. -/
def atWhereTo : Machine farModule 64 64 := savedHart.withPc (whereToAddress farModule 64)

/-- The size of a command without a transfer makes the module reject it, and a command without
postexec comes to the illegal word. -/
theorem withoutTransfer_fails :
    ¬ IgnoresOperands (run (commandRun 0x00740000) 4) (commandRun 0x00740000 4)
        (executesWord 0x00740000) atWhereTo ∧
      ¬ IgnoresOperands (run (commandRun 0x00200000) 4) (commandRun 0x00200000 4)
        (executesWord 0x00200000) atWhereTo := by
  constructor
  · rintro ⟨hstarts, -, -, -⟩
    have hidle : (next (run (commandRun 0x00740000) 4) (commandRun 0x00740000 4)).mem.state =
        .idle := by decide +kernel
    rw [hidle] at hstarts
    cases hstarts
  · rintro ⟨-, -, -, hreturns⟩
    obtain ⟨fuel, last, hrun, -⟩ := hreturns (by decide +kernel)
    have hpc : atWhereTo.pc = whereToAddress farModule 64 := rfl
    have hstuck := stuck_of_supported (Or.inr rfl) (by decide) (executesWord 0x00200000)
      ⟨by decide +kernel, by decide +kernel⟩ (by decide +kernel)
      (by decide +kernel) (by decide) (fun _ ↦ rfl) hpc
    cases boundedRun_unique hrun hstuck

/-- A command without a transfer, with other operands that no transfer has, executes the program
buffer. -/
theorem executesProgbuf_ignores :
    IgnoresOperands (run (commandRun 0x0025ffff) 4) (commandRun 0x0025ffff 4)
      (executesWord 0x0025ffff) atWhereTo :=
  (ignoresOperands_iff (Or.inr rfl) (by decide) (executesWord 0x0025ffff)
    ⟨by decide +kernel, by decide +kernel, by decide +kernel, by decide +kernel,
      by decide +kernel⟩
    ⟨by decide +kernel, by decide +kernel⟩ (by decide +kernel) (by decide) (fun _ ↦ rfl) rfl).mpr
      ⟨by decide +kernel, by decide +kernel, by decide +kernel⟩

end RiscvDebug.DmTop
