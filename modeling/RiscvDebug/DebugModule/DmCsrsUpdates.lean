import RiscvDebug.DebugModule.DmCsrs

/-!
# What a cycle leaves in the debug CSRs

For each signal of `csr_read_write` one theorem says what the process leaves in it, as a function
of the DMI access of the cycle and of the inputs from the other modules. A read changes no
register but the error flags (`dmiRead_frame`), and what a write changes is found by the register
it addresses. `isTrigger` names the accesses that start an abstract command.
-/

set_option autoImplicit false
set_option relaxedAutoImplicit false

namespace RiscvDebug.DmCsrs

open Foundations

variable {cfg : Config}

/-! ### Kinds of accesses -/

/-- An accepted write of the register `csr`. -/
def writes (q : Regs cfg) (i : Inputs cfg) (csr : DmCsr) : Bool :=
  acceptsWrite q i && addressed i == csr

/-- An accepted read of the register `csr`. -/
def readsCsr (q : Regs cfg) (i : Inputs cfg) (csr : DmCsr) : Bool :=
  acceptsRead q i && addressed i == csr

/-- The accesses that ask for the execution of the abstract command: a write of `command`, and an
access of a data register or program buffer word whose autoexec bit is set. -/
def isTrigger (q : Regs cfg) (i : Inputs cfg) : Bool :=
  match addressed i with
  | .command => acceptsWrite q i
  | .data => (acceptsRead q i || acceptsWrite q i) && autoexecdataBit q i
  | .progBuf => (acceptsRead q i || acceptsWrite q i) && autoexecprogbufBit q i
  | _ => false

/-- A trigger that the command unit takes, answered with success. -/
def triggers (q : Regs cfg) (i : Inputs cfg) : Bool := isTrigger q i && !i.cmdbusy

theorem acceptsWrite_of_acceptsRead {q : Regs cfg} {i : Inputs cfg} (hread : acceptsRead q i) :
    acceptsWrite q i = false := by
  unfold acceptsRead at hread
  have hop : i.dmiReq.op = dtmRead := by simpa using (Bool.and_eq_true_iff.mp hread).2
  simp [acceptsWrite, hop, dtmRead, dtmWrite]

theorem accepts_of_isTrigger {q : Regs cfg} {i : Inputs cfg} (htrigger : isTrigger q i) :
    accepts q i := by
  unfold isTrigger at htrigger
  cases haddressed : addressed i <;> simp_all [acceptsRead, acceptsWrite] <;> tauto

/-- The response queue, which a reset of the other registers leaves alone. -/
theorem respQueue_eq (q : Regs cfg) (i : Inputs cfg) :
    (next q i).respQueue =
      q.respQueue.cycle (!i.dmiRstN) (accepts q i) (i.dmiRespReady && q.dmiRespValid)
        (csrReadWrite q i).resp := by
  unfold next
  split_ifs <;> rfl

/-! ### The branches -/

theorem dmiAccess_of_read {q : Regs cfg} {i : Inputs cfg} (hread : acceptsRead q i) :
    dmiAccess q i = dmiRead q i (defaults q i) := by
  simp [dmiAccess, hread, acceptsWrite_of_acceptsRead hread]

theorem dmiAccess_of_write {q : Regs cfg} {i : Inputs cfg} (hwrite : acceptsWrite q i) :
    dmiAccess q i = dmiWrite q i (defaults q i) := by
  have hread : acceptsRead q i = false := by
    by_contra hread
    rw [acceptsWrite_of_acceptsRead (by simpa using hread)] at hwrite
    exact Bool.false_ne_true hwrite
  simp [dmiAccess, hread, hwrite]

theorem dmiAccess_of_none {q : Regs cfg} {i : Inputs cfg} (hread : acceptsRead q i = false)
    (hwrite : acceptsWrite q i = false) : dmiAccess q i = defaults q i := by
  simp [dmiAccess, hread, hwrite]

/-- A read changes the response, the command pulse and the error flags, and nothing else. -/
theorem dmiRead_frame (q : Regs cfg) (i : Inputs cfg) (s : Signals cfg) :
    dmiRead q i s =
      { s with
        resp := (dmiRead q i s).resp
        cmdValid := (dmiRead q i s).cmdValid
        cmderr := (dmiRead q i s).cmderr
        sbcs := { s.sbcs with sbbusyerror := (dmiRead q i s).sbcs.sbbusyerror }
        sbdataReadValid := (dmiRead q i s).sbdataReadValid } := by
  unfold dmiRead
  cases addressed i <;> simp only [withData, cmdBusyAnswer, sbBusyAnswer] <;>
    split_ifs <;> rfl

/-- Without an accepted write only the fields a read can change differ from the defaults. -/
theorem dmiAccess_frame {q : Regs cfg} {i : Inputs cfg} (hwrite : acceptsWrite q i = false) :
    dmiAccess q i =
      { defaults q i with
        resp := (dmiAccess q i).resp
        cmdValid := (dmiAccess q i).cmdValid
        cmderr := (dmiAccess q i).cmderr
        sbcs := { q.sbcs with sbbusyerror := (dmiAccess q i).sbcs.sbbusyerror }
        sbdataReadValid := (dmiAccess q i).sbdataReadValid } := by
  cases hread : acceptsRead q i with
  | false => rw [dmiAccess_of_none hread hwrite]; rfl
  | true => rw [dmiAccess_of_read hread, dmiRead_frame]; rfl

/-! ### The command unit -/

/-- The command pulse follows every trigger that the command unit takes. -/
theorem cmdValid_eq (q : Regs cfg) (i : Inputs cfg) :
    (csrReadWrite q i).cmdValid = triggers q i := by
  show (dmiAccess q i).cmdValid = triggers q i
  unfold triggers isTrigger
  cases hwrite : acceptsWrite q i with
  | true =>
    rw [dmiAccess_of_write hwrite]
    unfold dmiWrite
    cases haddressed : addressed i <;>
      simp only [defaults, cmdBusyAnswer, sbBusyAnswer] <;>
      cases i.cmdbusy <;> simp <;> split_ifs <;> rfl
  | false =>
    cases hread : acceptsRead q i with
    | false =>
      rw [dmiAccess_of_none hread hwrite]
      cases addressed i <;> simp [defaults]
    | true =>
      rw [dmiAccess_of_read hread]
      unfold dmiRead
      cases haddressed : addressed i <;>
        simp only [defaults, withData, cmdBusyAnswer, sbBusyAnswer] <;>
        cases i.cmdbusy <;> simp <;> split_ifs <;> rfl

/-- Only a write of `command` that finds the command unit idle changes the command. -/
theorem command_eq (q : Regs cfg) (i : Inputs cfg) :
    (csrReadWrite q i).command =
      if writes q i .command && !i.cmdbusy then Command.ofBits i.dmiReq.data else q.command := by
  show (dmiAccess q i).command = _
  cases hwrite : acceptsWrite q i with
  | true =>
    rw [dmiAccess_of_write hwrite]
    unfold dmiWrite
    cases haddressed : addressed i <;>
      simp only [writes, hwrite, haddressed, defaults, cmdBusyAnswer, sbBusyAnswer] <;>
      cases i.cmdbusy <;> simp <;> split_ifs <;> rfl
  | false =>
    rw [dmiAccess_frame hwrite]
    simp [writes, hwrite, defaults]

/-- The accesses that an executing command refuses: every access of the data registers and of the
program buffer, and every write of the command registers. -/
def needsIdleCommand (q : Regs cfg) (i : Inputs cfg) : Bool :=
  match addressed i with
  | .data => acceptsRead q i || acceptsWrite q i
  | .progBuf => acceptsRead q i || acceptsWrite q i
  | .command => acceptsWrite q i
  | .abstractAuto => acceptsWrite q i
  | .abstractCS => acceptsWrite q i
  | _ => false

/-- The command error: an error the harts or the command unit report goes first, then an access
refused by an executing command, then the bits that a write of `abstractcs` clears. -/
theorem cmderr_eq (q : Regs cfg) (i : Inputs cfg) :
    (csrReadWrite q i).cmderr =
      if i.cmderrorValid then i.cmderror
      else if needsIdleCommand q i && i.cmdbusy then
        if q.cmderr = cmdErrNone then cmdErrBusy else q.cmderr
      else if writes q i .abstractCS then ~~~ i.dmiReq.data.extractLsb' 8 3 &&& q.cmderr
      else q.cmderr := by
  show (if i.cmderrorValid then i.cmderror else (dmiAccess q i).cmderr) = _
  congr 1
  unfold needsIdleCommand
  cases hwrite : acceptsWrite q i with
  | true =>
    rw [dmiAccess_of_write hwrite]
    unfold dmiWrite
    cases haddressed : addressed i <;>
      simp only [writes, hwrite, haddressed, defaults, cmdBusyAnswer, sbBusyAnswer] <;>
      cases i.cmdbusy <;> simp <;> split_ifs <;> rfl
  | false =>
    cases hread : acceptsRead q i with
    | false =>
      rw [dmiAccess_of_none hread hwrite]
      cases addressed i <;> simp [defaults, writes, hwrite]
    | true =>
      rw [dmiAccess_of_read hread]
      unfold dmiRead
      cases haddressed : addressed i <;>
        simp only [writes, hwrite, defaults, withData, cmdBusyAnswer, sbBusyAnswer] <;>
        cases i.cmdbusy <;> simp <;> split_ifs <;> rfl

/-- A trigger is answered with success when the command unit is idle and with busy otherwise. -/
theorem resp_of_isTrigger {q : Regs cfg} {i : Inputs cfg} (htrigger : isTrigger q i) :
    (csrReadWrite q i).resp.resp = if i.cmdbusy then dtmBusy else dtmSuccess := by
  show (dmiAccess q i).resp.resp = _
  unfold isTrigger at htrigger
  cases hwrite : acceptsWrite q i with
  | true =>
    rw [dmiAccess_of_write hwrite]
    unfold dmiWrite
    cases haddressed : addressed i <;> simp only [haddressed] at htrigger <;>
      cases i.cmdbusy <;> simp_all [defaults, cmdBusyAnswer]
  | false =>
    cases hread : acceptsRead q i with
    | false => cases haddressed : addressed i <;> simp_all
    | true =>
      rw [dmiAccess_of_read hread]
      unfold dmiRead
      cases haddressed : addressed i <;> simp only [haddressed] at htrigger <;>
        cases i.cmdbusy <;> simp_all [defaults, withData, cmdBusyAnswer]

/-! ### Hart selection and run control -/

/-- The control register as the accepted DMI write of the cycle leaves it, before the WARL
rules. -/
def writtenDmcontrol (q : Regs cfg) (i : Inputs cfg) : Dmcontrol :=
  if writes q i .dmControl then Dmcontrol.ofBits i.dmiReq.data else q.dmcontrol

theorem dmiAccess_dmcontrol (q : Regs cfg) (i : Inputs cfg) :
    (dmiAccess q i).dmcontrol = writtenDmcontrol q i := by
  unfold writtenDmcontrol
  cases hwrite : acceptsWrite q i with
  | true =>
    rw [dmiAccess_of_write hwrite]
    unfold dmiWrite
    cases haddressed : addressed i <;>
      simp only [writes, hwrite, haddressed, defaults, cmdBusyAnswer, sbBusyAnswer] <;>
      simp <;> split_ifs <;> rfl
  | false =>
    rw [dmiAccess_frame hwrite]
    simp [writes, hwrite, defaults]

theorem dmactive_eq (q : Regs cfg) (i : Inputs cfg) :
    (csrReadWrite q i).dmcontrol.dmactive = (writtenDmcontrol q i).dmactive := by
  rw [← dmiAccess_dmcontrol]
  rfl

theorem ndmreset_eq (q : Regs cfg) (i : Inputs cfg) :
    (csrReadWrite q i).dmcontrol.ndmreset = (writtenDmcontrol q i).ndmreset := by
  rw [← dmiAccess_dmcontrol]
  rfl

theorem haltreq_eq (q : Regs cfg) (i : Inputs cfg) :
    (csrReadWrite q i).dmcontrol.haltreq = (writtenDmcontrol q i).haltreq := by
  rw [← dmiAccess_dmcontrol]
  rfl

/-- A pending resume request ends when any hart acknowledges a resume, even if a write of the same
cycle renews it. -/
theorem resumereq_eq (q : Regs cfg) (i : Inputs cfg) :
    (csrReadWrite q i).dmcontrol.resumereq =
      if q.dmcontrol.resumereq && i.resumeack != 0 then false
      else (writtenDmcontrol q i).resumereq := by
  rw [← dmiAccess_dmcontrol]
  rfl

/-- The hart selection keeps the bits that the number of harts needs. -/
theorem hartsel_eq (q : Regs cfg) (i : Inputs cfg) :
    (csrReadWrite q i).dmcontrol.hartsel =
      (writtenDmcontrol q i).hartsel &&& cfg.hartselMask := by
  rw [← dmiAccess_dmcontrol]
  exact Dmcontrol.hartsel_withHartsel _ _

/-- The acknowledgement of the selected hart is cleared when the resume request rises. -/
theorem clearResumeack_eq (q : Regs cfg) (i : Inputs cfg) :
    (csrReadWrite q i).clearResumeack =
      (!q.dmcontrol.resumereq && (writtenDmcontrol q i).resumereq) := by
  rw [← dmiAccess_dmcontrol]
  rfl

/-- The reset flags: the end of a reset sets them all, and `ackhavereset` clears that of the hart
selected before the write. -/
theorem havereset_eq (q : Regs cfg) (i : Inputs cfg) :
    (csrReadWrite q i).havereset =
      if i.ndmresetAck then BitVec.allOnes cfg.nrHarts
      else if writes q i .dmControl && (Dmcontrol.ofBits i.dmiReq.data).ackhavereset &&
          q.selectedHartValid then
        setBit q.havereset q.selectedHart false
      else q.havereset := by
  show (if i.ndmresetAck then BitVec.allOnes cfg.nrHarts else (dmiAccess q i).havereset) = _
  congr 1
  cases hwrite : acceptsWrite q i with
  | true =>
    rw [dmiAccess_of_write hwrite]
    unfold dmiWrite
    cases haddressed : addressed i <;>
      simp only [writes, hwrite, haddressed, defaults, cmdBusyAnswer, sbBusyAnswer] <;>
      simp <;> split_ifs <;> rfl
  | false =>
    rw [dmiAccess_frame hwrite]
    simp [writes, hwrite, defaults]

/-! ### The system bus -/

/-- The bus control register as the accepted DMI write of the cycle leaves it. -/
def writtenSbcs (q : Regs cfg) (i : Inputs cfg) : Sbcs :=
  if writes q i .sbcs && !i.sbbusy then Sbcs.ofBits i.dmiReq.data else q.sbcs

/-- The control fields of the bus access change only by a write of `sbcs` that finds the bus
master idle. -/
theorem sbcs_control_eq (q : Regs cfg) (i : Inputs cfg) :
    (csrReadWrite q i).sbcs.sbaccess = (writtenSbcs q i).sbaccess ∧
      (csrReadWrite q i).sbcs.sbautoincrement = (writtenSbcs q i).sbautoincrement ∧
      (csrReadWrite q i).sbcs.sbreadonaddr = (writtenSbcs q i).sbreadonaddr ∧
      (csrReadWrite q i).sbcs.sbreadondata = (writtenSbcs q i).sbreadondata := by
  show (dmiAccess q i).sbcs.sbaccess = _ ∧ (dmiAccess q i).sbcs.sbautoincrement = _ ∧
    (dmiAccess q i).sbcs.sbreadonaddr = _ ∧ (dmiAccess q i).sbcs.sbreadondata = _
  unfold writtenSbcs
  cases hwrite : acceptsWrite q i with
  | true =>
    rw [dmiAccess_of_write hwrite]
    unfold dmiWrite
    cases haddressed : addressed i <;>
      simp only [writes, hwrite, haddressed, defaults, cmdBusyAnswer, sbBusyAnswer] <;>
      cases i.sbbusy <;> simp <;> split_ifs <;> simp
  | false =>
    rw [dmiAccess_frame hwrite]
    simp [writes, hwrite]

/-- The accesses that a busy bus master or a pending busy error refuses. -/
def needsIdleBus (q : Regs cfg) (i : Inputs cfg) : Bool :=
  match addressed i with
  | .sbAddress0 => acceptsWrite q i
  | .sbAddress1 => acceptsWrite q i
  | .sbData0 => acceptsRead q i || acceptsWrite q i
  | .sbData1 => acceptsRead q i || acceptsWrite q i
  | _ => false

/-- The busy error of the bus. -/
theorem sbbusyerror_eq (q : Regs cfg) (i : Inputs cfg) :
    (csrReadWrite q i).sbcs.sbbusyerror =
      if writes q i .sbcs && !i.sbbusy then
        q.sbcs.sbbusyerror && !(Sbcs.ofBits i.dmiReq.data).sbbusyerror
      else q.sbcs.sbbusyerror || (i.sbbusy && (needsIdleBus q i || writes q i .sbcs)) := by
  show (dmiAccess q i).sbcs.sbbusyerror = _
  unfold needsIdleBus
  cases hwrite : acceptsWrite q i with
  | true =>
    rw [dmiAccess_of_write hwrite]
    unfold dmiWrite
    cases haddressed : addressed i <;>
      simp only [writes, hwrite, haddressed, defaults, cmdBusyAnswer, sbBusyAnswer] <;>
      cases i.sbbusy <;> cases hbusyerror : q.sbcs.sbbusyerror <;> simp [hbusyerror] <;>
        split_ifs <;> simp_all
  | false =>
    cases hread : acceptsRead q i with
    | false =>
      rw [dmiAccess_of_none hread hwrite]
      cases addressed i <;> simp [defaults, writes, hwrite]
    | true =>
      rw [dmiAccess_of_read hread]
      unfold dmiRead
      cases haddressed : addressed i <;>
        simp only [writes, hwrite, defaults, withData, cmdBusyAnswer, sbBusyAnswer] <;>
        cases i.sbbusy <;> cases hbusyerror : q.sbcs.sbbusyerror <;> simp [hbusyerror] <;>
          split_ifs <;> simp [hbusyerror]

/-- The error field of the bus: an error of the bus master goes first; a write of any of its bits
clears it. -/
theorem sberror_eq (q : Regs cfg) (i : Inputs cfg) :
    (csrReadWrite q i).sbcs.sberror =
      if i.sberrorValid then i.sberror
      else if writes q i .sbcs && !i.sbbusy && (Sbcs.ofBits i.dmiReq.data).sberror != 0 then 0
      else q.sbcs.sberror := by
  show (if i.sberrorValid then i.sberror else (dmiAccess q i).sbcs.sberror) = _
  congr 1
  cases hwrite : acceptsWrite q i with
  | true =>
    rw [dmiAccess_of_write hwrite]
    unfold dmiWrite
    cases haddressed : addressed i <;>
      simp only [writes, hwrite, haddressed, defaults, cmdBusyAnswer, sbBusyAnswer] <;>
      cases i.sbbusy <;> simp <;> split_ifs <;> simp_all
  | false =>
    rw [dmiAccess_frame hwrite]
    simp [writes, hwrite]

/-- The access of the cycle reaches the bus registers: nothing is busy and no busy error is
pending. -/
def busIdle (q : Regs cfg) (i : Inputs cfg) : Bool := !i.sbbusy && !q.sbcs.sbbusyerror

/-- The bus address: a write of one half keeps the other, and otherwise the bus master returns the
address with its increment. -/
theorem sbaddr_eq (q : Regs cfg) (i : Inputs cfg) :
    (csrReadWrite q i).sbaddr =
      if writes q i .sbAddress0 && busIdle q i then
        (i.sbaddress.setWidth 64).extractLsb' 32 32 ++ i.dmiReq.data
      else if writes q i .sbAddress1 && busIdle q i then
        i.dmiReq.data ++ (i.sbaddress.setWidth 64).extractLsb' 0 32
      else i.sbaddress.setWidth 64 := by
  show (dmiAccess q i).sbaddr = _
  cases hwrite : acceptsWrite q i with
  | true =>
    rw [dmiAccess_of_write hwrite]
    unfold dmiWrite
    cases haddressed : addressed i <;>
      simp only [writes, busIdle, hwrite, haddressed, defaults, cmdBusyAnswer, sbBusyAnswer] <;>
      cases i.sbbusy <;> cases q.sbcs.sbbusyerror <;> simp <;> split_ifs <;> rfl
  | false =>
    rw [dmiAccess_frame hwrite]
    simp [writes, hwrite, defaults]

/-- The bus data: the read data of the bus go first, then a write of one half. -/
theorem sbdata_eq (q : Regs cfg) (i : Inputs cfg) :
    (csrReadWrite q i).sbdata =
      if i.sbdataValid then i.sbdata.setWidth 64
      else if writes q i .sbData0 && busIdle q i then
        q.sbdata.extractLsb' 32 32 ++ i.dmiReq.data
      else if writes q i .sbData1 && busIdle q i then
        i.dmiReq.data ++ q.sbdata.extractLsb' 0 32
      else q.sbdata := by
  show (if i.sbdataValid then i.sbdata.setWidth 64 else (dmiAccess q i).sbdata) = _
  congr 1
  cases hwrite : acceptsWrite q i with
  | true =>
    rw [dmiAccess_of_write hwrite]
    unfold dmiWrite
    cases haddressed : addressed i <;>
      simp only [writes, busIdle, hwrite, haddressed, defaults, cmdBusyAnswer, sbBusyAnswer] <;>
      cases i.sbbusy <;> cases q.sbcs.sbbusyerror <;> simp <;> split_ifs <;> rfl
  | false =>
    rw [dmiAccess_frame hwrite]
    simp [writes, hwrite, defaults]

/-- The strobes to the bus master. -/
theorem strobes_eq (q : Regs cfg) (i : Inputs cfg) :
    (csrReadWrite q i).sbaddressWriteValid =
        (writes q i .sbAddress0 && busIdle q i && q.sbcs.sberror == 0) ∧
      (csrReadWrite q i).sbdataReadValid =
        (readsCsr q i .sbData0 && busIdle q i && q.sbcs.sberror == 0) ∧
      (csrReadWrite q i).sbdataWriteValid =
        (writes q i .sbData0 && busIdle q i && q.sbcs.sberror == 0) := by
  show (dmiAccess q i).sbaddressWriteValid = _ ∧ (dmiAccess q i).sbdataReadValid = _ ∧
    (dmiAccess q i).sbdataWriteValid = _
  cases hwrite : acceptsWrite q i with
  | true =>
    have hread : acceptsRead q i = false := by
      by_contra hread
      simp [acceptsWrite_of_acceptsRead (by simpa using hread)] at hwrite
    rw [dmiAccess_of_write hwrite]
    unfold dmiWrite
    cases haddressed : addressed i <;>
      simp only [writes, readsCsr, busIdle, hread, hwrite, haddressed, defaults, cmdBusyAnswer,
        sbBusyAnswer] <;>
      cases i.sbbusy <;> cases q.sbcs.sbbusyerror <;> simp <;> split_ifs <;> simp
  | false =>
    cases hread : acceptsRead q i with
    | false =>
      rw [dmiAccess_of_none hread hwrite]
      simp [defaults, writes, readsCsr, hread, hwrite]
    | true =>
      rw [dmiAccess_of_read hread]
      unfold dmiRead
      cases haddressed : addressed i <;>
        simp only [writes, readsCsr, busIdle, hread, hwrite, haddressed, defaults, withData,
          cmdBusyAnswer, sbBusyAnswer] <;>
        cases i.sbbusy <;> cases q.sbcs.sbbusyerror <;> simp <;> split_ifs <;> simp

end RiscvDebug.DmCsrs
