import RiscvDebug.DebugModule.DmTopCycles
import RiscvDebug.Foundations.Temporal

/-!
# Accesses that are answered busy

An access that an executing command or a busy bus master refuses is answered `DTM_BUSY`
(`resp_eq`). `next_of_refused` compares the cycle with the same cycle without a request: the
registers differ in the response that is queued and in one error flag, and the other modules see
the same outputs. Along a run no request that is accepted while a command executes changes the
registers of the command, and none that is accepted while the bus master is busy changes the
registers of the bus access (`busyRegistersKept`).
-/

set_option autoImplicit false
set_option relaxedAutoImplicit false

namespace RiscvDebug.DmCsrs

open Foundations

variable {cfg : Config}

/-! ### The answer -/

/-- The cycle without its DMI request. -/
def Inputs.withoutRequest (i : Inputs cfg) : Inputs cfg := { i with dmiReqValid := false }

/-- An executing command refuses the access. -/
def refusedByCommand (q : Regs cfg) (i : Inputs cfg) : Bool := needsIdleCommand q i && i.cmdbusy

/-- A busy bus master refuses the access, or an earlier access that it refused does. A write of
`sbcs` is how the host ends the latter. -/
def refusedByBus (q : Regs cfg) (i : Inputs cfg) : Bool :=
  (needsIdleBus q i && (i.sbbusy || q.sbcs.sbbusyerror)) || (writes q i .sbcs && i.sbbusy)

/-- An access of the command unit is none of the bus. -/
theorem refusedByBus_of_refusedByCommand {q : Regs cfg} {i : Inputs cfg}
    (hrefused : refusedByCommand q i = true) : refusedByBus q i = false := by
  unfold refusedByCommand needsIdleCommand at hrefused
  unfold refusedByBus needsIdleBus writes
  cases haddressed : addressed i <;> simp_all

/-- An access is answered busy when it is refused, and with success otherwise. -/
theorem resp_eq (q : Regs cfg) (i : Inputs cfg) :
    (csrReadWrite q i).resp.resp =
      if refusedByCommand q i || refusedByBus q i then dtmBusy else dtmSuccess := by
  show (dmiAccess q i).resp.resp = _
  unfold refusedByCommand refusedByBus needsIdleCommand needsIdleBus
  cases hwrite : acceptsWrite q i with
  | true =>
    rw [dmiAccess_of_write hwrite]
    unfold dmiWrite
    cases haddressed : addressed i <;>
      simp only [writes, hwrite, haddressed, defaults, cmdBusyAnswer, sbBusyAnswer] <;>
      cases i.cmdbusy <;> cases i.sbbusy <;> cases q.sbcs.sbbusyerror <;> simp
  | false =>
    cases hread : acceptsRead q i with
    | false =>
      rw [dmiAccess_of_none hread hwrite]
      cases addressed i <;> simp [defaults, writes, hwrite]
    | true =>
      rw [dmiAccess_of_read hread]
      unfold dmiRead
      cases haddressed : addressed i <;>
        simp only [writes, hwrite, defaults, withData, cmdBusyAnswer, sbBusyAnswer] <;>
        cases i.cmdbusy <;> cases i.sbbusy <;> cases q.sbcs.sbbusyerror <;> simp

/-! ### The registers and the outputs of a refused access -/

/-- An access that an executing command refuses changes the response and the command error. -/
theorem dmiAccess_of_refusedByCommand {q : Regs cfg} {i : Inputs cfg}
    (hrefused : refusedByCommand q i = true) :
    dmiAccess q i =
      { defaults q i with
        resp := (dmiAccess q i).resp
        cmderr := if q.cmderr = cmdErrNone then cmdErrBusy else q.cmderr } := by
  obtain ⟨haccess, hbusy⟩ := Bool.and_eq_true_iff.mp hrefused
  unfold needsIdleCommand at haccess
  cases hwrite : acceptsWrite q i with
  | true =>
    rw [dmiAccess_of_write hwrite]
    unfold dmiWrite
    cases haddressed : addressed i <;> simp [haddressed] at haccess <;>
      simp [hbusy, cmdBusyAnswer, defaults]
  | false =>
    have hread : acceptsRead q i = true := by
      cases haddressed : addressed i <;> simp_all
    rw [dmiAccess_of_read hread]
    unfold dmiRead
    cases haddressed : addressed i <;> simp [haddressed, hwrite] at haccess <;>
      simp [hbusy, cmdBusyAnswer, withData, defaults]

/-- An access that a busy bus master refuses changes the response and the busy error. -/
theorem dmiAccess_of_refusedByBus {q : Regs cfg} {i : Inputs cfg}
    (hrefused : refusedByBus q i = true) :
    dmiAccess q i =
      { defaults q i with
        resp := (dmiAccess q i).resp
        sbcs := { q.sbcs with sbbusyerror := true } } := by
  unfold refusedByBus needsIdleBus at hrefused
  cases hwrite : acceptsWrite q i with
  | true =>
    rw [dmiAccess_of_write hwrite]
    unfold dmiWrite
    cases haddressed : addressed i <;>
      simp [haddressed, writes, hwrite] at hrefused <;>
      simp [hrefused, sbBusyAnswer, defaults]
  | false =>
    have hread : acceptsRead q i = true := by
      cases haddressed : addressed i <;> simp_all [writes]
    rw [dmiAccess_of_read hread]
    unfold dmiRead
    cases haddressed : addressed i <;> simp [haddressed, writes, hwrite, hread] at hrefused <;>
      simp [hrefused, sbBusyAnswer, defaults]

/-- The signals of a refused access, from those of the cycle without it. -/
def refusedSignals (q : Regs cfg) (i : Inputs cfg) : Signals cfg :=
  { csrReadWrite q i.withoutRequest with
    resp := (csrReadWrite q i).resp
    cmderr :=
      if i.cmderrorValid then i.cmderror
      else if refusedByCommand q i && q.cmderr == cmdErrNone then cmdErrBusy
      else q.cmderr
    sbcs :=
      { (csrReadWrite q i.withoutRequest).sbcs with
        sbbusyerror := refusedByBus q i || q.sbcs.sbbusyerror } }

theorem csrReadWrite_of_refused {q : Regs cfg} {i : Inputs cfg}
    (hrefused : (refusedByCommand q i || refusedByBus q i) = true) :
    csrReadWrite q i = refusedSignals q i := by
  rcases Bool.or_eq_true_iff.mp hrefused with hcommand | hbus
  · have hbus := refusedByBus_of_refusedByCommand hcommand
    have haccess := dmiAccess_of_refusedByCommand hcommand
    have herror : (if q.cmderr = cmdErrNone then cmdErrBusy else q.cmderr) =
        if refusedByCommand q i && q.cmderr == cmdErrNone then cmdErrBusy else q.cmderr := by
      rw [hcommand, Bool.true_and]
      by_cases hnone : q.cmderr = cmdErrNone
      · simp [hnone]
      · simp [hnone]
    rw [herror] at haccess
    unfold refusedSignals
    rw [csrReadWrite, haccess, hbus]
    rfl
  · have hcommand : refusedByCommand q i = false := by
      by_contra hcommand
      rw [refusedByBus_of_refusedByCommand (by simpa using hcommand)] at hbus
      exact Bool.false_ne_true hbus
    have haccess := dmiAccess_of_refusedByBus hbus
    unfold refusedSignals
    rw [csrReadWrite, haccess, hbus, hcommand]
    rfl

/-- The outputs of `dm_csrs` to `dm_mem` and `dm_sba`. -/
structure Outputs (cfg : Config) where
  hartsel : BitVec 20
  haltreq : BitVec cfg.nrHarts
  resumereq : BitVec cfg.nrHarts
  clearResumeack : Bool
  cmdValid : Bool
  cmd : Command
  progbuf : Vector (BitVec 32) progBufSize
  data : Vector (BitVec 32) cfg.dataCount
  ndmreset : Bool
  dmactive : Bool
  sbaddress : BitVec cfg.busWidth
  sbaddressWriteValid : Bool
  sbreadonaddr : Bool
  sbautoincrement : Bool
  sbaccess : BitVec 3
  sbreadondata : Bool
  sbdata : BitVec cfg.busWidth
  sbdataReadValid : Bool
  sbdataWriteValid : Bool

/-- The outputs in one cycle. All but four come from the registers. -/
def outputs (q : Regs cfg) (i : Inputs cfg) : Outputs cfg where
  hartsel := q.dmcontrol.hartsel
  haltreq := q.haltreq
  resumereq := q.resumereq
  clearResumeack := (csrReadWrite q i).clearResumeack
  cmdValid := q.cmdValid
  cmd := q.command
  progbuf := q.progbuf
  data := q.data
  ndmreset := q.dmcontrol.ndmreset
  dmactive := q.dmcontrol.dmactive
  sbaddress := q.sbaddr.setWidth cfg.busWidth
  sbaddressWriteValid := (csrReadWrite q i).sbaddressWriteValid
  sbreadonaddr := q.sbcs.sbreadonaddr
  sbautoincrement := q.sbcs.sbautoincrement
  sbaccess := q.sbcs.sbaccess
  sbreadondata := q.sbcs.sbreadondata
  sbdata := q.sbdata.setWidth cfg.busWidth
  sbdataReadValid := (csrReadWrite q i).sbdataReadValid
  sbdataWriteValid := (csrReadWrite q i).sbdataWriteValid

/-- What a refused access leaves behind, against the same cycle without it: the queued response,
and an error flag. A command error that is reported in the cycle goes first. -/
def refusedNext (q : Regs cfg) (i : Inputs cfg) : Regs cfg :=
  { next q i.withoutRequest with
    cmderr :=
      if i.cmderrorValid then i.cmderror
      else if refusedByCommand q i && q.cmderr == cmdErrNone then cmdErrBusy
      else q.cmderr
    sbcs :=
      { (next q i.withoutRequest).sbcs with
        sbbusyerror := refusedByBus q i || q.sbcs.sbbusyerror }
    respQueue :=
      q.respQueue.cycle (!i.dmiRstN) true (i.dmiRespReady && q.dmiRespValid)
        (csrReadWrite q i).resp }

theorem next_of_refused {q : Regs cfg} {i : Inputs cfg} (hactive : q.dmcontrol.dmactive = true)
    (haccepts : accepts q i = true)
    (hrefused : (refusedByCommand q i || refusedByBus q i) = true) :
    next q i = refusedNext q i := by
  have hsignals := csrReadWrite_of_refused hrefused
  unfold refusedNext next
  simp only [hactive, if_true, haccepts]
  rw [hsignals]
  rfl

theorem outputs_of_refused {q : Regs cfg} {i : Inputs cfg}
    (hrefused : (refusedByCommand q i || refusedByBus q i) = true) :
    outputs q i = outputs q i.withoutRequest := by
  unfold outputs
  rw [csrReadWrite_of_refused hrefused]
  rfl

/-! ### The registers of a running command and of a running bus access -/

/-- While a command executes no request changes the command, the program buffer or the masks of
the automatic execution, nor the data, which a hart may store. -/
theorem commandRegisters_of_cmdbusy {q : Regs cfg} {i : Inputs cfg} (hbusy : i.cmdbusy = true) :
    (csrReadWrite q i).command = q.command ∧ (csrReadWrite q i).progbuf = q.progbuf ∧
      (csrReadWrite q i).abstractauto = { q.abstractauto with zero0 := 0 } ∧
      (csrReadWrite q i).dataDmi = q.data := by
  show (dmiAccess q i).command = _ ∧ (dmiAccess q i).progbuf = _ ∧
    (dmiAccess q i).abstractauto = _ ∧ (dmiAccess q i).dataDmi = _
  cases hwrite : acceptsWrite q i with
  | true =>
    rw [dmiAccess_of_write hwrite]
    unfold dmiWrite
    cases addressed i <;> simp only [hbusy, cmdBusyAnswer, sbBusyAnswer, defaults] <;>
      simp <;> split_ifs <;> simp
  | false =>
    rw [dmiAccess_frame hwrite]
    exact ⟨rfl, rfl, rfl, rfl⟩

/-- While the bus master is busy no request changes the address, the data or the control fields of
the access: they follow the bus master. -/
theorem busRegisters_of_sbbusy {q : Regs cfg} {i : Inputs cfg} (hbusy : i.sbbusy = true) :
    (csrReadWrite q i).sbaddr = i.sbaddress.setWidth 64 ∧
      (csrReadWrite q i).sbdata = (if i.sbdataValid then i.sbdata.setWidth 64 else q.sbdata) ∧
      (csrReadWrite q i).sbcs.sbaccess = q.sbcs.sbaccess ∧
      (csrReadWrite q i).sbcs.sbautoincrement = q.sbcs.sbautoincrement ∧
      (csrReadWrite q i).sbcs.sbreadonaddr = q.sbcs.sbreadonaddr ∧
      (csrReadWrite q i).sbcs.sbreadondata = q.sbcs.sbreadondata := by
  have hidle : busIdle q i = false := by rw [busIdle, hbusy]; rfl
  have hsbcs : writtenSbcs q i = q.sbcs := by
    rw [writtenSbcs, hbusy, Bool.not_true, Bool.and_false, if_neg Bool.false_ne_true]
  refine ⟨?_, ?_, ?_⟩
  · rw [sbaddr_eq, hidle, Bool.and_false, Bool.and_false, if_neg Bool.false_ne_true,
      if_neg Bool.false_ne_true]
  · rw [sbdata_eq, hidle, Bool.and_false, Bool.and_false, if_neg Bool.false_ne_true,
      if_neg Bool.false_ne_true]
  · rw [← hsbcs]
    exact sbcs_control_eq q i

end RiscvDebug.DmCsrs

namespace RiscvDebug.DmTop

open Foundations

variable {cfg : Config}

/-! ### Refused accesses along a run -/

/-- What the host cannot change while a command executes: the command word, the program buffer and
the masks of the automatic execution. -/
def commandRegisters (s : Regs cfg) :
    Command × Vector (BitVec 32) progBufSize × BitVec 16 × BitVec 12 :=
  (s.csrs.command, s.csrs.progbuf, s.csrs.abstractauto.autoexecprogbuf,
    s.csrs.abstractauto.autoexecdata)

/-- The control fields of a bus access: its size and the three options. -/
def busControl (s : Regs cfg) : BitVec 3 × Bool × Bool × Bool :=
  (s.csrs.sbcs.sbaccess, s.csrs.sbcs.sbautoincrement, s.csrs.sbcs.sbreadonaddr,
    s.csrs.sbcs.sbreadondata)

/-- The module is active and a command or a resume occupies the command unit. -/
def CommandBusy (s : Regs cfg) (i : Inputs cfg) : Prop :=
  s.csrs.dmcontrol.dmactive = true ∧ (ctrl s i).cmdbusy = true

/-- The module is active and the bus master is busy. -/
def BusBusy (s : Regs cfg) (i : Inputs cfg) : Prop :=
  s.csrs.dmcontrol.dmactive = true ∧ (sbaSignals s i).sbbusy = true

theorem commandRegisters_next {s : Regs cfg} {i : Inputs cfg} (hbusy : CommandBusy s i) :
    commandRegisters (next s i) = commandRegisters s ∧
      (next s i).csrs.data = DmMem.dataOut (memInputs s i false) := by
  obtain ⟨hactive, hcmdbusy⟩ := hbusy
  obtain ⟨hcommand, hprogbuf, hauto, hdata⟩ :=
    DmCsrs.commandRegisters_of_cmdbusy (q := s.csrs) (i := csrInputs s i) hcmdbusy
  unfold commandRegisters next DmCsrs.next
  simp only [hactive, if_true, hcommand, hprogbuf, hauto, hdata]
  refine ⟨trivial, ?_⟩
  unfold csrInputs DmMem.dataOut
  dsimp only
  split_ifs <;> rfl

theorem busRegisters_next {s : Regs cfg} {i : Inputs cfg} (hbusy : BusBusy s i) :
    busControl (next s i) = busControl s ∧
      (next s i).csrs.sbaddr = (sbaSignals s i).sbaddress.setWidth 64 ∧
      (next s i).csrs.sbdata =
        (if (sbaSignals s i).sbdataValid then (sbaSignals s i).sbdata.setWidth 64
          else s.csrs.sbdata) := by
  obtain ⟨hactive, hsbbusy⟩ := hbusy
  obtain ⟨haddress, hdata, haccess, hincrement, hreadonaddr, hreadondata⟩ :=
    DmCsrs.busRegisters_of_sbbusy (q := s.csrs) (i := csrInputs s i) hsbbusy
  unfold busControl next DmCsrs.next
  simp only [hactive, if_true, haddress, hdata, haccess, hincrement, hreadonaddr, hreadondata]
  exact ⟨trivial, rfl, rfl⟩

/-- In the busy phases of a run the host changes no register that the command or the bus access
reads. The data follow the stores of the harts, and the bus address and bus data follow the bus
master. -/
structure BusyRegistersKept (inputs : ℕ → Inputs cfg) : Prop where
  command : ∀ start stop, start ≤ stop →
    (∀ time, start ≤ time → time < stop → CommandBusy (run inputs time) (inputs time)) →
      commandRegisters (run inputs stop) = commandRegisters (run inputs start)
  data : ∀ time, CommandBusy (run inputs time) (inputs time) →
    (run inputs (time + 1)).csrs.data =
      DmMem.dataOut (memInputs (run inputs time) (inputs time) false)
  control : ∀ start stop, start ≤ stop →
    (∀ time, start ≤ time → time < stop → BusBusy (run inputs time) (inputs time)) →
      busControl (run inputs stop) = busControl (run inputs start)
  address : ∀ time, BusBusy (run inputs time) (inputs time) →
    (run inputs (time + 1)).csrs.sbaddr =
      (sbaSignals (run inputs time) (inputs time)).sbaddress.setWidth 64
  busData : ∀ time, BusBusy (run inputs time) (inputs time) →
    (run inputs (time + 1)).csrs.sbdata =
      if (sbaSignals (run inputs time) (inputs time)).sbdataValid then
        (sbaSignals (run inputs time) (inputs time)).sbdata.setWidth 64
      else (run inputs time).csrs.sbdata

theorem busyRegistersKept (inputs : ℕ → Inputs cfg) : BusyRegistersKept inputs where
  command := by
    intro start stop hle hbusy
    refine eq_start_of_step (q := fun time ↦ commandRegisters (run inputs time)) hle ?_
    intro time hstart hstop hsame
    rw [← hsame]
    exact (commandRegisters_next (hbusy time hstart hstop)).1
  data := fun time hbusy ↦ (commandRegisters_next hbusy).2
  control := by
    intro start stop hle hbusy
    refine eq_start_of_step (q := fun time ↦ busControl (run inputs time)) hle ?_
    intro time hstart hstop hsame
    rw [← hsame]
    exact (busRegisters_next (hbusy time hstart hstop)).1
  address := fun time hbusy ↦ (busRegisters_next hbusy).2.1
  busData := fun time hbusy ↦ (busRegisters_next hbusy).2.2

/-- The host activates the module, hart 0 halts, the host issues a command, and reads a data
register before the hart has taken the command. -/
def refusedRead : List (Inputs oneHart) :=
  [(Inputs.quiet oneHart).withRequest ⟨0x10, dtmWrite, 0x00000001⟩,
    (Inputs.quiet oneHart).withHartWrite DmMem.haltedAddr 0,
    (Inputs.quiet oneHart).withRequest ⟨0x17, dtmWrite, 0x00221008⟩,
    Inputs.quiet oneHart,
    (Inputs.quiet oneHart).withRequest ⟨0x04, dtmRead, 0⟩]

end RiscvDebug.DmTop
