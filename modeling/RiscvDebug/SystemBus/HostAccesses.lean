import RiscvDebug.DebugModule.BusyAnswers
import RiscvDebug.SystemBus.AccessPort

/-!
# The accesses of the bus registers

The accepted requests that a host directs at the bus registers, as accesses of the port (`touched`),
and what `csr_read_write` makes of them in a cycle in which the bus master is idle and no error is
pending.
-/

set_option autoImplicit false
set_option relaxedAutoImplicit false

namespace RiscvDebug.DmCsrs

open Foundations AccessPort

variable {cfg : Config}

section Touched

variable (q : Regs cfg) (i : Inputs cfg)

/-- The access of the bus registers in a cycle, if there is one. Reads of `sbcs` and of the address
change nothing. -/
def touched : List Access :=
  if acceptsRead q i then
    match addressed i with
    | .sbData0 => [.readData0]
    | .sbData1 => [.readData1]
    | _ => []
  else if acceptsWrite q i then
    match addressed i with
    | .sbcs => [.writeControl i.dmiReq.data]
    | .sbAddress0 => [.writeAddress0 i.dmiReq.data]
    | .sbAddress1 => [.writeAddress1 i.dmiReq.data]
    | .sbData0 => [.writeData0 i.dmiReq.data]
    | .sbData1 => [.writeData1 i.dmiReq.data]
    | _ => []
  else []

/-- The answer to a read of the bus data. -/
def answered : List DmiResp :=
  if readsCsr q i .sbData0 || readsCsr q i .sbData1 then [(csrReadWrite q i).resp] else []

/-- The control fields of the port. -/
def control : Control where
  access := q.sbcs.sbaccess
  autoincrement := q.sbcs.sbautoincrement
  readonaddr := q.sbcs.sbreadonaddr
  readondata := q.sbcs.sbreadondata

end Touched

section Cycle

variable {q : Regs cfg} {i : Inputs cfg}

/-- No more than one access in a cycle. -/
theorem touched_cases (q : Regs cfg) (i : Inputs cfg) :
    touched q i = [] ∨ ∃ access, touched q i = [access] := by
  unfold touched
  split_ifs
  · cases addressed i <;> simp
  · cases addressed i <;> simp
  · exact Or.inl rfl

/-- The reads and writes that are no accesses of the port. -/
theorem of_untouched (huntouched : touched q i = []) :
    (∀ csr ∈ [DmCsr.sbcs, .sbAddress0, .sbAddress1, .sbData0, .sbData1],
      writes q i csr = false) ∧
      readsCsr q i .sbData0 = false ∧ readsCsr q i .sbData1 = false := by
  unfold touched at huntouched
  unfold writes readsCsr
  cases hread : acceptsRead q i with
  | true =>
    rw [hread, if_pos rfl] at huntouched
    rw [acceptsWrite_of_acceptsRead hread]
    cases haddressed : addressed i <;> simp_all
  | false =>
    rw [hread, if_neg Bool.false_ne_true] at huntouched
    cases hwrite : acceptsWrite q i with
    | true =>
      rw [hwrite, if_pos rfl] at huntouched
      cases haddressed : addressed i <;> simp_all
    | false => simp

/-- The kinds of accesses. -/
theorem of_touched {access : Access} (htouched : touched q i = [access]) :
    match access with
    | .writeControl value => writes q i .sbcs = true ∧ i.dmiReq.data = value
    | .writeAddress0 value => writes q i .sbAddress0 = true ∧ i.dmiReq.data = value
    | .writeAddress1 value => writes q i .sbAddress1 = true ∧ i.dmiReq.data = value
    | .writeData0 value => writes q i .sbData0 = true ∧ i.dmiReq.data = value
    | .writeData1 value => writes q i .sbData1 = true ∧ i.dmiReq.data = value
    | .readData0 => readsCsr q i .sbData0 = true
    | .readData1 => readsCsr q i .sbData1 = true := by
  unfold touched at htouched
  unfold writes readsCsr
  cases hread : acceptsRead q i with
  | true =>
    rw [hread, if_pos rfl] at htouched
    cases haddressed : addressed i <;> simp_all <;> subst htouched <;> simp
  | false =>
    rw [hread, if_neg Bool.false_ne_true] at htouched
    cases hwrite : acceptsWrite q i with
    | true =>
      rw [hwrite, if_pos rfl] at htouched
      cases haddressed : addressed i <;> simp_all <;> subst htouched <;> simp
    | false =>
      rw [hwrite, if_neg Bool.false_ne_true] at htouched
      exact absurd htouched.symm (List.cons_ne_nil _ _)

theorem writes_eq_false {csr csr' : DmCsr} (hwrites : writes q i csr = true) (hne : csr ≠ csr') :
    writes q i csr' = false := by
  obtain ⟨hwrite, haddressed⟩ := Bool.and_eq_true_iff.mp hwrites
  rw [writes, hwrite, eq_of_beq haddressed, beq_false_of_ne hne]
  rfl

theorem readsCsr_eq_false {csr csr' : DmCsr} (hwrites : writes q i csr = true) :
    readsCsr q i csr' = false := by
  obtain ⟨hwrite, -⟩ := Bool.and_eq_true_iff.mp hwrites
  rw [readsCsr]
  cases hread : acceptsRead q i with
  | true =>
    rw [acceptsWrite_of_acceptsRead hread] at hwrite
    exact absurd hwrite Bool.false_ne_true
  | false => rfl

theorem writes_eq_false_of_reads {csr csr' : DmCsr} (hreads : readsCsr q i csr = true) :
    writes q i csr' = false := by
  rw [writes, acceptsWrite_of_acceptsRead (Bool.and_eq_true_iff.mp hreads).1]
  rfl

theorem readsCsr_eq_false_of_reads {csr csr' : DmCsr} (hreads : readsCsr q i csr = true)
    (hne : csr ≠ csr') : readsCsr q i csr' = false := by
  obtain ⟨hread, haddressed⟩ := Bool.and_eq_true_iff.mp hreads
  rw [readsCsr, hread, eq_of_beq haddressed, beq_false_of_ne hne]
  rfl

/-! ### The registers after a cycle without an access -/

/-- Without an access the bus master drives the address and the data. -/
theorem busRegisters_of_untouched (huntouched : touched q i = []) :
    (csrReadWrite q i).sbaddr.setWidth cfg.busWidth = i.sbaddress ∧
      (csrReadWrite q i).sbdata = if i.sbdataValid then i.sbdata.setWidth 64 else q.sbdata := by
  obtain ⟨hwrites, -, -⟩ := of_untouched huntouched
  constructor
  · rw [sbaddr_eq, hwrites .sbAddress0 (by decide), hwrites .sbAddress1 (by decide)]
    exact cfg.setWidth_setWidth_busWidth i.sbaddress
  · rw [sbdata_eq, hwrites .sbData0 (by decide), hwrites .sbData1 (by decide)]
    rfl

/-- The control fields and the errors without a write of `sbcs` that reaches it. -/
theorem sbcs_of_not_writes (hwrites : writes q i .sbcs = false)
    (hneeds : (i.sbbusy && needsIdleBus q i) = false) (hnone : i.sberrorValid = false) :
    (csrReadWrite q i).sbcs.sbaccess = q.sbcs.sbaccess ∧
      (csrReadWrite q i).sbcs.sbautoincrement = q.sbcs.sbautoincrement ∧
      (csrReadWrite q i).sbcs.sbreadonaddr = q.sbcs.sbreadonaddr ∧
      (csrReadWrite q i).sbcs.sbreadondata = q.sbcs.sbreadondata ∧
      (csrReadWrite q i).sbcs.sberror = q.sbcs.sberror ∧
      (csrReadWrite q i).sbcs.sbbusyerror = q.sbcs.sbbusyerror := by
  have hkept : writtenSbcs q i = q.sbcs := by
    rw [writtenSbcs, hwrites]
    rfl
  obtain ⟨haccess, hincrement, hreadonaddr, hreadondata⟩ := sbcs_control_eq q i
  refine ⟨by rw [haccess, hkept], by rw [hincrement, hkept], by rw [hreadonaddr, hkept],
    by rw [hreadondata, hkept], ?_, ?_⟩
  · rw [sberror_eq, hnone, hwrites]
    rfl
  · rw [sbbusyerror_eq, hwrites, Bool.or_false, hneeds]
    exact Bool.or_false _

theorem needsIdleBus_of_untouched (huntouched : touched q i = []) : needsIdleBus q i = false := by
  obtain ⟨hwrites, hlower, hupper⟩ := of_untouched huntouched
  have haddress0 := hwrites .sbAddress0 (by decide)
  have haddress1 := hwrites .sbAddress1 (by decide)
  have hdata0 := hwrites .sbData0 (by decide)
  have hdata1 := hwrites .sbData1 (by decide)
  unfold writes at haddress0 haddress1 hdata0 hdata1
  unfold readsCsr at hlower hupper
  unfold needsIdleBus
  cases haddressed : addressed i <;> simp_all

/-- Without an access no strobe asks for a transfer, and no read of the data is answered. -/
theorem strobes_of_untouched (huntouched : touched q i = []) :
    (csrReadWrite q i).sbaddressWriteValid = false ∧ (csrReadWrite q i).sbdataReadValid = false ∧
      (csrReadWrite q i).sbdataWriteValid = false ∧ answered q i = [] := by
  obtain ⟨hwrites, hlower, hupper⟩ := of_untouched huntouched
  obtain ⟨haddress, hread, hwrite⟩ := strobes_eq q i
  rw [haddress, hread, hwrite, answered, hwrites .sbAddress0 (by decide),
    hwrites .sbData0 (by decide), hlower, hupper]
  exact ⟨rfl, rfl, rfl, rfl⟩

/-! ### The registers after an access -/

section Access

variable {access : Access} (htouched : touched q i = [access]) (hidle : busIdle q i = true)
  (hcontrol : ∀ value, access ≠ .writeControl value)
include htouched hcontrol

theorem not_writes_sbcs : writes q i .sbcs = false := by
  have hkind := of_touched htouched
  cases access with
  | writeControl value => exact absurd rfl (hcontrol value)
  | writeAddress0 value | writeAddress1 value | writeData0 value | writeData1 value =>
    exact writes_eq_false hkind.1 (by decide)
  | readData0 | readData1 => exact writes_eq_false_of_reads hkind

include hidle

/-- An access sets the half that it writes. -/
theorem busRegisters_of_touched (hanswer : i.sbdataValid = false) :
    (csrReadWrite q i).sbaddr.setWidth cfg.busWidth = access.setAddress i.sbaddress ∧
      (csrReadWrite q i).sbdata = access.setData q.sbdata := by
  have hkind := of_touched htouched
  rw [sbaddr_eq, sbdata_eq, hidle, hanswer, if_neg Bool.false_ne_true]
  cases access with
  | writeControl value => exact absurd rfl (hcontrol value)
  | writeAddress0 value =>
    obtain ⟨hwrites, hdata⟩ := hkind
    rw [hwrites, hdata, writes_eq_false hwrites (by decide), writes_eq_false hwrites (by decide),
      writes_eq_false hwrites (by decide)]
    exact ⟨rfl, rfl⟩
  | writeAddress1 value =>
    obtain ⟨hwrites, hdata⟩ := hkind
    rw [hwrites, hdata, writes_eq_false hwrites (by decide), writes_eq_false hwrites (by decide),
      writes_eq_false hwrites (by decide)]
    exact ⟨rfl, rfl⟩
  | writeData0 value =>
    obtain ⟨hwrites, hdata⟩ := hkind
    rw [hwrites, hdata, writes_eq_false hwrites (by decide), writes_eq_false hwrites (by decide)]
    exact ⟨cfg.setWidth_setWidth_busWidth i.sbaddress, rfl⟩
  | writeData1 value =>
    obtain ⟨hwrites, hdata⟩ := hkind
    rw [hwrites, hdata, writes_eq_false hwrites (by decide), writes_eq_false hwrites (by decide),
      writes_eq_false hwrites (by decide)]
    exact ⟨cfg.setWidth_setWidth_busWidth i.sbaddress, rfl⟩
  | readData0 | readData1 =>
    rw [writes_eq_false_of_reads hkind, writes_eq_false_of_reads hkind,
      writes_eq_false_of_reads hkind, writes_eq_false_of_reads hkind]
    exact ⟨cfg.setWidth_setWidth_busWidth i.sbaddress, rfl⟩

/-- A read of the data is answered with the half that it names. -/
theorem answered_of_touched : answered q i = access.responses q.sbdata := by
  have hkind := of_touched htouched
  obtain ⟨hbusy, herror⟩ := Bool.and_eq_true_iff.mp hidle
  rw [Bool.not_eq_true'] at hbusy herror
  have hresp : (csrReadWrite q i).resp = (dmiAccess q i).resp := rfl
  unfold answered
  cases access with
  | writeControl value => exact absurd rfl (hcontrol value)
  | writeAddress0 value | writeAddress1 value | writeData0 value | writeData1 value =>
    rw [readsCsr_eq_false hkind.1, readsCsr_eq_false hkind.1]
    rfl
  | readData0 | readData1 =>
    obtain ⟨hread, haddressed⟩ := Bool.and_eq_true_iff.mp hkind
    rw [hkind, hresp, dmiAccess_of_read hread, dmiRead, eq_of_beq haddressed]
    simp [hbusy, herror, withData, defaults, Access.responses]

omit hcontrol in
/-- The strobes of an access when no error is pending ask for the transfer that it triggers. -/
theorem idleNext_of_touched (hnone : q.sbcs.sberror = 0) {bus : DmSba.Inputs cfg}
    (hreadonaddr : bus.sbreadonaddr = q.sbcs.sbreadonaddr)
    (hreadondata : bus.sbreadondata = q.sbcs.sbreadondata) :
    DmSba.idleNext bus ⟨(csrReadWrite q i).sbaddressWriteValid, (csrReadWrite q i).sbdataReadValid,
        (csrReadWrite q i).sbdataWriteValid⟩ =
      match access.trigger (control q) with
      | none => .idle
      | some .load => .read
      | some .store => .write := by
  have hkind := of_touched htouched
  obtain ⟨haddress, hread, hwrite⟩ := strobes_eq q i
  have hclear : (q.sbcs.sberror == 0) = true := beq_iff_eq.mpr hnone
  rw [hidle, hclear, Bool.and_true, Bool.and_true] at haddress hread hwrite
  rw [haddress, hread, hwrite, DmSba.idleNext, hreadonaddr, hreadondata]
  cases access with
  | writeControl value | writeAddress1 value | writeData1 value =>
    obtain ⟨hwrites, -⟩ := hkind
    rw [readsCsr_eq_false hwrites, writes_eq_false hwrites (by decide),
      writes_eq_false hwrites (by decide)]
    rfl
  | writeAddress0 value =>
    obtain ⟨hwrites, -⟩ := hkind
    have htrigger : (Access.writeAddress0 value).trigger (control q) =
        if q.sbcs.sbreadonaddr then some .load else none := rfl
    rw [hwrites, readsCsr_eq_false hwrites, writes_eq_false hwrites (by decide), htrigger]
    cases q.sbcs.sbreadonaddr with
    | true => rfl
    | false => rfl
  | writeData0 value =>
    obtain ⟨hwrites, -⟩ := hkind
    rw [hwrites, readsCsr_eq_false hwrites, writes_eq_false hwrites (by decide)]
    rfl
  | readData0 =>
    have htrigger : Access.readData0.trigger (control q) =
        if q.sbcs.sbreadondata then some .load else none := rfl
    rw [hkind, writes_eq_false_of_reads hkind, writes_eq_false_of_reads hkind, htrigger]
    cases q.sbcs.sbreadondata with
    | true => rfl
    | false => rfl
  | readData1 =>
    rw [readsCsr_eq_false_of_reads hkind (by decide), writes_eq_false_of_reads hkind,
      writes_eq_false_of_reads hkind]
    rfl

end Access

end Cycle

end RiscvDebug.DmCsrs
