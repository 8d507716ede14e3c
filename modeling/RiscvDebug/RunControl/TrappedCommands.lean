import RiscvDebug.Hart.ScratchWrites
import RiscvDebug.Hart.TrappedTransfers
import RiscvDebug.RunControl.CommandErrors
import RiscvDebug.RunControl.CommandStart
import RiscvDebug.RunControl.ResumeRequests

/-!
# Commands that trap

The accesses a hart makes in the ROM, on the bus of the debug module (`Carries`). When they carry
a signal to Exception and the signal to Halted after it, the hart control goes back to Idle and the
command error is that of an exception (`exception_of_carries`). With the handler of the ROM this is
the fate of a transfer whose access traps: `trapped_leavesHart` finds the hart back in the park loop
with its registers as before.
-/

set_option autoImplicit false
set_option relaxedAutoImplicit false

namespace RiscvDebug.DmTop

open Foundations Hart

variable {cfg : Config}

/-! ### The bus -/

/-- The cycle makes an access of a hart. -/
def Inputs.makes (i : Inputs cfg) : Access → Prop
  | .store offset value => i.slave = DmMem.writeAccess cfg offset 4 (value.setWidth 64)
  | .poll offset => i.slave.reads = true ∧ i.slave.offset = offset

/-- The cycle makes none of the signals of a hart. -/
def Inputs.silent (i : Inputs cfg) (hart : ℕ) : Prop :=
  i.slave.writes DmMem.exceptionAddr = false ∧ i.slave.writes DmMem.goingAddr = false ∧
    i.hartWrites DmMem.haltedAddr hart = false ∧ i.hartWrites DmMem.resumingAddr hart = false

/-- Between two cycles the bus carries accesses of a hart, one after the other, and no further
signal of it. -/
def Carries (inputs : ℕ → Inputs cfg) (hart : ℕ) : List Access → ℕ → ℕ → Prop
  | [], first, last =>
    first ≤ last ∧ ∀ time, first ≤ time → time < last → (inputs time).silent hart
  | access :: rest, first, last =>
    ∃ time, first ≤ time ∧ (∀ earlier, first ≤ earlier → earlier < time →
      (inputs earlier).silent hart) ∧ (inputs time).makes access ∧
        Carries inputs hart rest (time + 1) last

theorem Carries.le {inputs : ℕ → Inputs cfg} {hart first last : ℕ} {accesses : List Access}
    (hcarries : Carries inputs hart accesses first last) : first ≤ last := by
  induction accesses generalizing first with
  | nil => exact hcarries.1
  | cons access rest ih =>
    obtain ⟨time, hle, -, -, hrest⟩ := hcarries
    exact hle.trans ((Nat.le_succ time).trans (ih hrest))

theorem writes_of_makes {i : Inputs cfg} {offset : BitVec 12} {value : BitVec 32}
    (hmakes : i.makes (.store offset value)) (address : BitVec 12) :
    i.slave.writes address = (offset == address) := by
  have hslave : i.slave = _ := hmakes
  rw [hslave, DmMem.SlaveAccess.writes, DmMem.offset_writeAccess]
  rfl

/-- The signal to Halted carries the index of the hart. -/
theorem hartWrites_of_makes {i : Inputs cfg} {hart : ℕ} (hhart : hart < 2 ^ cfg.hartSelLen)
    (hmakes : i.makes (.store DmMem.haltedAddr (BitVec.ofNat 32 hart))) :
    i.hartWrites DmMem.haltedAddr hart = true := by
  have hslave : i.slave = _ := hmakes
  have hsmall : 2 ^ cfg.hartSelLen ≤ 2 ^ 20 := by
    refine Nat.pow_le_pow_right (by decide) ?_
    unfold Config.hartSelLen
    split_ifs
    · decide
    · exact clog2_le_of_le_two_pow cfg.nrHarts_le
  have hwide : 2 ^ 32 ≤ 2 ^ cfg.busWidth := by
    rcases cfg.busWidth_eq with hwidth | hwidth <;> rw [hwidth]
    decide
  have hlane : 8 * (DmMem.haltedAddr.toNat % DmMem.busBytes cfg) = 0 := by
    unfold DmMem.busBytes
    rcases cfg.busWidth_eq with hwidth | hwidth <;> rw [hwidth] <;> rfl
  rw [Inputs.hartWrites, writes_of_makes hmakes, beq_self_eq_true, Bool.true_and, hslave,
    beq_iff_eq]
  unfold DmMem.SlaveAccess.wdataHartsel DmMem.writeAccess Config.hartIndex
  rw [hlane, BitVec.shiftLeft_zero, BitVec.toNat_setWidth, BitVec.toNat_setWidth,
    BitVec.toNat_ofNat, Nat.mod_eq_of_lt (show hart < 2 ^ 32 by omega),
    Nat.mod_eq_of_lt (show hart < 2 ^ 64 by omega),
    Nat.mod_eq_of_lt (show hart < 2 ^ cfg.busWidth by omega), Nat.mod_eq_of_lt hhart]

/-! ### The hart control -/

/-- The selected hart executes a command, and the host leaves `dmcontrol` alone. -/
structure ExecutesCommand (inputs : ℕ → Inputs cfg) (hart first last : ℕ) : Prop where
  state_eq : (run inputs first).mem.state = .cmdExecuting
  selected_eq : (run inputs first).selected = hart
  dmactive_eq : (run inputs first).csrs.dmcontrol.dmactive = true
  ndmreset_eq : (run inputs first).csrs.dmcontrol.ndmreset = false
  dmcontrol_kept : ∀ time, first ≤ time → time < last →
    writes (run inputs time) (inputs time) .dmControl = false

section Executes

variable {inputs : ℕ → Inputs cfg} {hart first last time : ℕ}

/-- A cycle without a signal to Halted. -/
theorem ExecutesCommand.succ (hexecutes : ExecutesCommand inputs hart first last)
    (hlt : first < last) (hwrites : (inputs first).hartWrites DmMem.haltedAddr hart = false) :
    ExecutesCommand inputs hart (first + 1) last where
  state_eq := by
    have hstate := state_next_of_cmdExecuting (inputs first) hexecutes.state_eq
    rw [hexecutes.ndmreset_eq, hexecutes.selected_eq, if_neg Bool.false_ne_true] at hstate
    exact hstate.trans (if_neg (Bool.eq_false_iff.mp hwrites))
  selected_eq := by
    rw [run_succ, selected_next_eq, selectedAfter_of_not_writes (runControlValid_run inputs first)
      hexecutes.dmactive_eq (hexecutes.dmcontrol_kept first le_rfl hlt), hexecutes.selected_eq]
  dmactive_eq := by
    rw [run_succ, dmactive_next, writtenDmcontrol_of_not_writes
      (hexecutes.dmcontrol_kept first le_rfl hlt), hexecutes.dmactive_eq]
  ndmreset_eq := by
    rw [run_succ, ndmreset_next, writtenDmcontrol_of_not_writes
      (hexecutes.dmcontrol_kept first le_rfl hlt), hexecutes.ndmreset_eq, Bool.and_false]
  dmcontrol_kept := fun time hfirst ↦
    hexecutes.dmcontrol_kept time ((Nat.le_succ first).trans hfirst)

/-- Without a signal to Halted the command executes on. -/
theorem ExecutesCommand.until (hexecutes : ExecutesCommand inputs hart first last)
    (hfirst : first ≤ time) (hlast : time ≤ last)
    (hwrites : ∀ earlier, first ≤ earlier → earlier < time →
      (inputs earlier).hartWrites DmMem.haltedAddr hart = false) :
    ExecutesCommand inputs hart time last := by
  induction time, hfirst using Nat.le_induction with
  | base => exact hexecutes
  | succ time hle ih =>
    have hbefore := ih (Nat.le_of_succ_le hlast) fun earlier hearlier hlt ↦
      hwrites earlier hearlier (Nat.lt_succ_of_lt hlt)
    exact hbefore.succ hlast (hwrites time hle (Nat.lt_succ_self time))

/-- The signal to Halted ends the command. -/
theorem ExecutesCommand.finished (hexecutes : ExecutesCommand inputs hart first last)
    (hwrites : (inputs first).hartWrites DmMem.haltedAddr hart = true) :
    (run inputs (first + 1)).mem.state = .idle := by
  have hstate := state_next_of_cmdExecuting (inputs first) hexecutes.state_eq
  rw [hexecutes.ndmreset_eq, hexecutes.selected_eq, if_neg Bool.false_ne_true] at hstate
  exact hstate.trans (if_pos hwrites)

/-- A signal to Exception is the command error of the next cycle. -/
theorem ExecutesCommand.cmderr_of_exception (hexecutes : ExecutesCommand inputs hart first last)
    (hwrites : (inputs first).slave.writes DmMem.exceptionAddr = true) :
    (run inputs (first + 1)).csrs.cmderr = cmdErrorException := by
  rw [run_succ, cmderr_next _ hexecutes.dmactive_eq, reportedError, if_pos hwrites]
  rfl

/-- Without a further signal to Exception an executing command keeps an error. -/
theorem ExecutesCommand.cmderr_kept (hexecutes : ExecutesCommand inputs hart first last)
    (hpulse : (run inputs first).csrs.cmdValid = false)
    (herror : (run inputs first).csrs.cmderr = cmdErrorException)
    (hwrites : (inputs first).slave.writes DmMem.exceptionAddr = false) :
    (run inputs (first + 1)).csrs.cmderr = cmdErrorException := by
  have hbusy : (ctrl (run inputs first) (inputs first)).cmdbusy = true := by
    rw [cmdbusy_eq, hexecutes.state_eq]
    rfl
  have hreported : reportedError (run inputs first) (inputs first) = none := by
    rw [reportedError, hwrites, hpulse]
    rfl
  have hraises : raisesBusyError (run inputs first) (inputs first) = false := by
    rw [raisesBusyError, herror]
    exact Bool.and_false _
  have hclears : clearsError (run inputs first) (inputs first) = false := by
    rw [clearsError, hbusy]
    exact Bool.and_false _
  rw [run_succ, cmderr_next _ hexecutes.dmactive_eq, hreported, hraises, remainingError, hclears]
  exact herror

/-- The command pulse is down behind a cycle of an executing command. -/
theorem ExecutesCommand.cmdValid_succ (hexecutes : ExecutesCommand inputs hart first last) :
    (run inputs (first + 1)).csrs.cmdValid = false := by
  rw [run_succ, cmdValid_next]
  by_contra hpulse
  rw [Bool.not_eq_false, Bool.and_eq_true_iff] at hpulse
  have hidle := idle_of_triggers hpulse.2
  rw [hexecutes.state_eq] at hidle
  cases hidle

/-- An error that is there stays until the command ends. -/
theorem ExecutesCommand.cmderr_until (hexecutes : ExecutesCommand inputs hart first last)
    (hpulse : (run inputs first).csrs.cmdValid = false)
    (herror : (run inputs first).csrs.cmderr = cmdErrorException) (hfirst : first ≤ time)
    (hlast : time ≤ last)
    (hsilent : ∀ earlier, first ≤ earlier → earlier < time → (inputs earlier).silent hart) :
    (run inputs time).csrs.cmderr = cmdErrorException ∧
      (run inputs time).csrs.cmdValid = false := by
  induction time, hfirst using Nat.le_induction with
  | base => exact ⟨herror, hpulse⟩
  | succ time hle ih =>
    have hbefore (earlier : ℕ) (hearlier : first ≤ earlier) (hlt : earlier < time) :=
      hsilent earlier hearlier (Nat.lt_succ_of_lt hlt)
    obtain ⟨hkept, hdown⟩ := ih (Nat.le_of_succ_le hlast) hbefore
    have hhere := hexecutes.until hle (Nat.le_of_succ_le hlast) fun earlier hearlier hlt ↦
      (hbefore earlier hearlier hlt).2.2.1
    exact ⟨hhere.cmderr_kept hdown hkept (hsilent time hle (Nat.lt_succ_self time)).1,
      hhere.cmdValid_succ⟩

/-- A hart that signals Exception and then Halted brings the hart control back to Idle, with the
command error of an exception. -/
theorem exception_of_carries (hexecutes : ExecutesCommand inputs hart first last)
    {value : BitVec 32}
    (hcarries : Carries inputs hart [.store DmMem.exceptionAddr value,
      .store DmMem.haltedAddr (BitVec.ofNat 32 hart)] first last) :
    ∃ time, first < time ∧ time ≤ last ∧ (run inputs time).mem.state = .idle ∧
      (run inputs time).csrs.cmderr = cmdErrorException := by
  obtain ⟨signal, hsignal, hbefore, hexception, halted, hhalted, hbetween, hend, hrest⟩ := hcarries
  have hlast := hrest.le
  have hexecuting := hexecutes.until hsignal (by omega) fun earlier hearlier hlt ↦
    (hbefore earlier hearlier hlt).2.2.1
  have hwrites : (inputs signal).slave.writes DmMem.exceptionAddr = true :=
    (writes_of_makes hexception _).trans (beq_self_eq_true _)
  have hother : (inputs signal).hartWrites DmMem.haltedAddr hart = false := by
    rw [Inputs.hartWrites, writes_of_makes hexception]
    rfl
  have hafter := hexecuting.succ (by omega) hother
  obtain ⟨herror, hpulse⟩ := hafter.cmderr_until hexecuting.cmdValid_succ
    (hexecuting.cmderr_of_exception hwrites) hhalted (by omega) hbetween
  have hthere := hafter.until hhalted (by omega) fun earlier hearlier hlt ↦
    (hbetween earlier hearlier hlt).2.2.1
  have hhart : hart < 2 ^ cfg.hartSelLen :=
    hexecutes.selected_eq ▸ Nat.mod_lt _ (Nat.two_pow_pos _)
  have hnone : (inputs halted).slave.writes DmMem.exceptionAddr = false := by
    rw [writes_of_makes hend]
    rfl
  exact ⟨halted + 1, by omega, hlast, hthere.finished (hartWrites_of_makes hhart hend),
    hthere.cmderr_kept hpulse herror hnone⟩

end Executes

/-! ### Trapped transfers -/

/-- A transfer whose access to its register traps, or that traps before it. The handler brings the
hart back to the halt address with its registers and the data words as before, with one signal to
Exception; the hart signals Halted again, and these signals bring the hart control back to Idle with
the command error of an exception. -/
theorem trapped_leavesHart {xlen flen : ℕ} (hxlen : xlen = 32 ∨ xlen = 64)
    (haligned : cfg.dmBaseAddress.toNat % 4096 = 0) (e : Environment cfg xlen flen)
    (flags : ℕ → BitVec 8) {name : RegisterName} {size : BitVec 3} {write : Bool}
    (haccess : AccessesRegister cfg e.inputs.cmd name size write)
    {start last : Machine cfg xlen flen} (hsaved : Saved start)
    (hpc : start.pc = codeAddress cfg xlen 0) {hart : ℕ}
    (hmhartid : start.csrs csrMhartid = BitVec.ofNat xlen hart) {fuel position : ℕ}
    (hrun : boundedRun e.codeStep fuel start = some (.trapped last))
    (hlast : last.pc = codeAddress cfg xlen position)
    (hposition : position ≤ accessPosition cfg name write) :
    (∃ parked, HandlesTrap e flags start last hart parked) ∧
      ∀ (inputs : ℕ → Inputs cfg) (first final : ℕ), ExecutesCommand inputs hart first final →
        Carries inputs hart [.store DmMem.exceptionAddr 0,
          .store DmMem.haltedAddr (BitVec.ofNat 32 hart)] first final →
        ∃ time, first < time ∧ time ≤ final ∧
          (run inputs time).mem.state = .idle ∧
          (run inputs time).csrs.cmderr = cmdErrorException := by
  have hrecoverable := recoverable_of_trapped hxlen haligned e hsaved hpc haccess hrun hlast
    hposition
  exact ⟨⟨_, hrecoverable.handlesTrap hxlen haligned e flags hmhartid⟩,
    fun inputs first final hexecutes hcarries ↦ exception_of_carries hexecutes hcarries⟩

/-- A hart without the control and status register 0x300 executes a read of it. -/
def readsMissing : Environment farModule 64 64 :=
  { writesA0 with
    inputs := { writesA0.inputs with cmd := Command.ofBits 0x00320300 }
    traps := fun _ instruction ↦ instruction == .csrrs 8 0 0x300 }

/-- The hart halts, the host issues the read, and the hart executes it until it has trapped. -/
def readsMissingRun : ℕ → Inputs farModule :=
  script
    [(Inputs.quiet farModule).withRequest ⟨0x10, dtmWrite, 0x00000001⟩,
      Inputs.quiet farModule,
      (Inputs.quiet farModule).withHartWrite DmMem.haltedAddr 0,
      (Inputs.quiet farModule).withRequest ⟨0x17, dtmWrite, 0x00320300⟩,
      Inputs.quiet farModule,
      Inputs.quiet farModule,
      (Inputs.quiet farModule).withHartWrite DmMem.goingAddr 0,
      Inputs.quiet farModule,
      { Inputs.quiet farModule with slave := DmMem.writeAccess farModule DmMem.exceptionAddr 4 0 },
      { Inputs.quiet farModule with slave := DmMem.writeAccess farModule DmMem.haltedAddr 4 0 }]

/-- The read leaves the registers of the hart, and the debug module with the error. -/
theorem readsMissing_leavesHart :
    ∃ last, boundedRun readsMissing.codeStep 10 savedHart = some (.trapped last) ∧
      (∃ parked, HandlesTrap readsMissing (fun _ ↦ 0) savedHart last 0 parked) ∧
      ∃ time, 7 < time ∧ time ≤ 10 ∧ (run readsMissingRun time).mem.state = .idle ∧
        (run readsMissingRun time).csrs.cmderr = cmdErrorException := by
  have htrap : (boundedRun readsMissing.codeStep 10 savedHart).bind CodeExit.trapPc? =
      some (codeAddress farModule 64 5) := by decide +kernel
  obtain ⟨last, hrun, hlast⟩ := exists_trapped htrap
  have haccess : AccessesRegister farModule readsMissing.inputs.cmd (.csr 0x300) 3 false :=
    ⟨by decide, by decide, by decide, by decide, by decide, by decide, by decide⟩
  obtain ⟨hhandles, hends⟩ := trapped_leavesHart (Or.inr rfl) (by decide) readsMissing (fun _ ↦ 0)
    haccess ⟨by decide, fun _ ↦ by decide⟩ rfl (show savedHart.csrs csrMhartid = BitVec.ofNat 64 0
      by decide) hrun hlast (by decide)
  refine ⟨last, hrun, hhandles, hends readsMissingRun 7 10 ?_ ?_⟩
  · exact ⟨by decide +kernel, by decide +kernel, by decide +kernel, by decide +kernel,
      fun time hfirst hlast ↦ by interval_cases time <;> decide +kernel⟩
  · refine ⟨8, by decide, fun earlier hle hlt ↦ ?_, rfl, 9, by decide,
      fun earlier hle hlt ↦ absurd hlt (by omega), rfl, by decide,
      fun earlier hle hlt ↦ absurd hlt (by omega)⟩
    obtain rfl : earlier = 7 := by omega
    exact ⟨by decide +kernel, by decide +kernel, by decide +kernel, by decide +kernel⟩

end RiscvDebug.DmTop
