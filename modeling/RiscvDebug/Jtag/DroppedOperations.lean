import RiscvDebug.Foundations.Temporal
import RiscvDebug.Jtag.DmiJtag

/-!
# Dropped operations are reported

A scan of the register `dmi` that names an operation either starts a request or leaves an error
behind, and the error blocks further requests until it is cleared. Each request that is started is
offered until the debug module takes it, or until a clear withdraws it (`requests_balanced`). A
Capture-DR shows the error to the debugger, but for the error of a failed operation: that one leaves
the shift register as it is. `dropsReported_iff` is the exact condition.
-/

set_option autoImplicit false
set_option relaxedAutoImplicit false

namespace RiscvDebug.DmiJtag

open Foundations DmiJtagTap

/-! ### Events -/

section Events

variable (r : Regs) (i : Inputs)

/-- The operation that a scan of the register `dmi` names. -/
def Regs.scanned : DmiReq where
  addr := (Dmi.ofBits r.dr).address
  op := (Dmi.ofBits r.dr).op
  data := (Dmi.ofBits r.dr).data

/-- An Update-DR of the register `dmi` with a read or a write. -/
def operates : Bool :=
  r.updatesDmi && (r.scanned.op == dtmRead || r.scanned.op == dtmWrite)

/-- A request that the debug module has not taken yet. -/
def Regs.requesting : Bool := r.state == .read || r.state == .write

/-- A request begins. -/
def starts : Bool :=
  !i.trst && r.state == .idle && (stateNext r i == .read || stateNext r i == .write)

/-- The debug module takes a request. -/
def accepts : Bool := !i.trst && r.dmiReqValid && i.reqReady

/-- The reset pin, Test-Logic-Reset or `dmihardreset`. -/
def resets : Bool := i.trst || r.dmiClear

/-- A reset withdraws a request. -/
def withdraws : Bool := resets r i && r.requesting

/-- `dmireset`. -/
def Regs.clearsError : Bool := r.updatesDtmcs && dmireset r.dtmcs

end Events

/-! ### One cycle -/

section Cycle

variable {r : Regs} {i : Inputs} (idcodeValue : BitVec 32)

theorem next_of_trst (htrst : i.trst = true) :
    next r i idcodeValue = Regs.reset idcodeValue := if_pos htrst

theorem next_state (htrst : i.trst = false) : (next r i idcodeValue).state = stateNext r i := by
  rw [next, htrst, if_neg Bool.false_ne_true]

theorem next_error (htrst : i.trst = false) : (next r i idcodeValue).error = errorNext r i := by
  rw [next, htrst, if_neg Bool.false_ne_true]

theorem next_dr (htrst : i.trst = false) : (next r i idcodeValue).dr = drNext r i := by
  rw [next, htrst, if_neg Bool.false_ne_true]

/-- Overlapping scans do not touch what the branches assign besides the error. -/
theorem fsm_state (r : Regs) (i : Inputs) : (fsm r i).state = (stateBranch r i).state := by
  unfold fsm
  split_ifs <;> rfl

theorem fsm_address (r : Regs) (i : Inputs) : (fsm r i).address = (stateBranch r i).address := by
  unfold fsm
  split_ifs <;> rfl

theorem fsm_data (r : Regs) (i : Inputs) : (fsm r i).data = (stateBranch r i).data := by
  unfold fsm
  split_ifs <;> rfl

theorem fsm_errorDmiOpFailed (r : Regs) (i : Inputs) :
    (fsm r i).errorDmiOpFailed = (stateBranch r i).errorDmiOpFailed := by
  unfold fsm
  split_ifs <;> rfl

/-- The busy errors: of the response, and of the scans that overlap a transaction. -/
theorem fsm_errorDmiBusy (r : Regs) (i : Inputs) :
    (fsm r i).errorDmiBusy = ((stateBranch r i).errorDmiBusy ||
      r.tap.updateDr && r.state != .idle || r.tap.captureDr && r.reading) := by
  unfold fsm
  split_ifs with hupdate hcapture hcapture <;> simp [hupdate, hcapture]

theorem dtmcsSelect_of_dmiSelect (hselect : r.tap.dmiSelect = true) :
    r.tap.dtmcsSelect = false := by
  have hir : r.tap.ir = dmiAccess := eq_of_beq hselect
  rw [DmiJtagTap.Regs.dtmcsSelect, hir]
  rfl

/-- A strobe for the register `dmi` is no clear. -/
theorem dmiClear_of_updatesDmi (hupdates : r.updatesDmi = true) : r.dmiClear = false := by
  obtain ⟨hupdate, hselect⟩ := Bool.and_eq_true_iff.mp hupdates
  have hstate : r.tap.tapState = .updateDr := eq_of_beq hupdate
  rw [Regs.dmiClear, Regs.updatesDtmcs, dtmcsSelect_of_dmiSelect hselect,
    DmiJtagTap.Regs.testLogicReset, hstate]
  rfl

theorem dmiClear_of_capturesDmi (hcaptures : r.capturesDmi = true) : r.dmiClear = false := by
  obtain ⟨hcapture, hselect⟩ := Bool.and_eq_true_iff.mp hcaptures
  have hstate : r.tap.tapState = .captureDr := eq_of_beq hcapture
  rw [Regs.dmiClear, Regs.updatesDtmcs, dtmcsSelect_of_dmiSelect hselect,
    DmiJtagTap.Regs.testLogicReset, hstate]
  rfl

/-- What an idle module makes of a scan. -/
theorem idleBranch_eq (r : Regs) :
    idleBranch r =
      if r.updatesDmi = true ∧ r.error = .noError then
        { Fsm.default r with
          address := r.scanned.addr
          data := r.scanned.data
          state := if r.scanned.op = dtmRead then .read
            else if r.scanned.op = dtmWrite then .write else r.state }
      else Fsm.default r := by
  have hguard : (r.tap.dmiSelect && r.tap.updateDr && r.error == .noError) = true ↔
      r.updatesDmi = true ∧ r.error = .noError := by
    rw [Regs.updatesDmi, Bool.and_comm r.tap.updateDr, Bool.and_eq_true_iff, beq_iff_eq]
  have hop : (Dmi.ofBits r.dr).op = r.scanned.op := rfl
  unfold idleBranch
  simp only [hguard, hop]
  split_ifs <;> rfl

/-- A scan raises no error by itself. -/
theorem idleBranch_flags (r : Regs) :
    (idleBranch r).errorDmiBusy = false ∧ (idleBranch r).errorDmiOpFailed = false := by
  rw [idleBranch_eq]
  split_ifs <;> exact ⟨rfl, rfl⟩

/-- Without a reset the branches decide the next state. -/
theorem stateNext_eq (r : Regs) (i : Inputs) :
    stateNext r i = if r.dmiClear then .idle else (stateBranch r i).state := by
  rw [stateNext, fsm_state]

theorem stateBranch_of_idle (hidle : r.state = .idle) : stateBranch r i = idleBranch r := by
  rw [stateBranch, hidle]

/-- An idle module goes on as the scan says. -/
theorem stateNext_of_idle (hidle : r.state = .idle) :
    stateNext r i =
      if r.updatesDmi = true ∧ r.error = .noError then
        if r.scanned.op = dtmRead then .read else if r.scanned.op = dtmWrite then .write else .idle
      else .idle := by
  rw [stateNext_eq, stateBranch_of_idle hidle, idleBranch_eq]
  by_cases hscan : r.updatesDmi = true ∧ r.error = .noError
  · rw [if_pos hscan, if_pos hscan, dmiClear_of_updatesDmi hscan.1, hidle]
    rfl
  · rw [if_neg hscan, if_neg hscan]
    split_ifs
    · rfl
    · exact hidle

/-- Without a reset the transaction registers are those that the branch assigns. -/
theorem next_of_branch (hresets : resets r i = false) :
    (next r i idcodeValue).state = (stateBranch r i).state ∧
      (next r i idcodeValue).address = (stateBranch r i).address ∧
      (next r i idcodeValue).data = (stateBranch r i).data := by
  obtain ⟨htrst, hclear⟩ := Bool.or_eq_false_iff.mp hresets
  rw [next, htrst, if_neg Bool.false_ne_true]
  refine ⟨?_, ?_, ?_⟩
  · show stateNext r i = _
    rw [stateNext, hclear, if_neg Bool.false_ne_true, fsm_state]
  · show addressNext r i = _
    rw [addressNext, hclear, if_neg Bool.false_ne_true, fsm_address]
  · show dataNext r i = _
    rw [dataNext, hclear, if_neg Bool.false_ne_true, fsm_data]

theorem next_of_resets (hresets : resets r i = true) :
    (next r i idcodeValue).state = .idle := by
  unfold next
  split_ifs with htrst
  · rfl
  · show stateNext r i = .idle
    have hclear : r.dmiClear = true := (Bool.or_eq_true_iff.mp hresets).resolve_left htrst
    rw [stateNext, hclear, if_pos rfl]

/-- A request begins with a scan of an operation that finds the module idle and no error. -/
theorem starts_iff :
    starts r i = true ↔
      i.trst = false ∧ r.state = .idle ∧ r.error = .noError ∧ operates r = true := by
  have hstarts : starts r i = true ↔ i.trst = false ∧ r.state = .idle ∧
      (stateNext r i = .read ∨ stateNext r i = .write) := by
    simp [starts, and_assoc]
  have hoperates : operates r = true ↔ r.updatesDmi = true ∧
      (r.scanned.op = dtmRead ∨ r.scanned.op = dtmWrite) := by
    simp [operates]
  rw [hstarts, hoperates]
  constructor
  · rintro ⟨htrst, hidle, hnext⟩
    rw [stateNext_of_idle hidle] at hnext
    refine ⟨htrst, hidle, ?_⟩
    split_ifs at hnext with hscan hread hwrite
    · exact ⟨hscan.2, hscan.1, Or.inl hread⟩
    · exact ⟨hscan.2, hscan.1, Or.inr hwrite⟩
    · simp at hnext
    · simp at hnext
  · rintro ⟨htrst, hidle, herror, hupdates, hop⟩
    refine ⟨htrst, hidle, ?_⟩
    rw [stateNext_of_idle hidle, if_pos ⟨hupdates, herror⟩]
    by_cases hread : r.scanned.op = dtmRead
    · exact Or.inl (if_pos hread)
    · exact Or.inr (by rw [if_neg hread, if_pos (hop.resolve_left hread)])

/-- The request that begins is the scanned one. -/
theorem next_of_starts (hstarts : starts r i = true) :
    (next r i idcodeValue).requesting = true ∧ (next r i idcodeValue).dmiReq = r.scanned := by
  obtain ⟨htrst, hidle, herror, hoperates⟩ := starts_iff.mp hstarts
  obtain ⟨hupdates, hop⟩ := Bool.and_eq_true_iff.mp hoperates
  simp only [Bool.or_eq_true, beq_iff_eq] at hop
  have hclear := dmiClear_of_updatesDmi hupdates
  have hstate : (next r i idcodeValue).state =
      if r.scanned.op = dtmRead then .read else .write := by
    rw [next_state idcodeValue htrst, stateNext_of_idle hidle, if_pos ⟨hupdates, herror⟩]
    split_ifs with hread hwrite
    · rfl
    · rfl
    · exact absurd (hop.resolve_left hread) hwrite
  have hbranch : stateBranch r i = _ :=
    (stateBranch_of_idle hidle).trans ((idleBranch_eq r).trans (if_pos ⟨hupdates, herror⟩))
  obtain ⟨-, hnextAddress, hnextData⟩ := next_of_branch idcodeValue
    (Bool.or_eq_false_iff.mpr ⟨htrst, hclear⟩)
  have haddress : (next r i idcodeValue).address = r.scanned.addr :=
    hnextAddress.trans (congrArg Fsm.address hbranch)
  have hdata : (next r i idcodeValue).data = r.scanned.data :=
    hnextData.trans (congrArg Fsm.data hbranch)
  rw [Regs.requesting, Regs.dmiReq, hstate, haddress, hdata]
  by_cases hread : r.scanned.op = dtmRead
  · rw [if_pos hread]
    exact ⟨rfl, by rw [if_neg (by decide), ← hread]⟩
  · rw [if_neg hread]
    exact ⟨rfl, by rw [if_pos rfl, ← hop.resolve_left hread]⟩

theorem accepts_of_requesting (hrequesting : r.requesting = true) (hresets : resets r i = false) :
    accepts r i = i.reqReady := by
  obtain ⟨htrst, hclear⟩ := Bool.or_eq_false_iff.mp hresets
  rw [Regs.requesting] at hrequesting
  rw [accepts, Regs.dmiReqValid, htrst, hclear, hrequesting]
  rfl

/-- A request that is not taken stays, and one that is taken is followed by the wait for its
response. -/
theorem stateBranch_of_requesting (hrequesting : r.requesting = true) :
    stateBranch r i =
      { Fsm.default r with
        state := if i.reqReady then
          if r.state = .read then .waitReadValid else .waitWriteValid else r.state } := by
  simp only [Regs.requesting, Bool.or_eq_true, beq_iff_eq] at hrequesting
  rcases hrequesting with hstate | hstate
  · rw [stateBranch, Fsm.default, hstate]
    cases i.reqReady <;> rfl
  · rw [stateBranch, Fsm.default, hstate]
    cases i.reqReady <;> rfl

/-- A request stays as it is until it is taken or withdrawn. -/
theorem next_of_requesting (hrequesting : r.requesting = true) (haccepts : accepts r i = false)
    (hwithdraws : withdraws r i = false) :
    (next r i idcodeValue).requesting = true ∧ (next r i idcodeValue).dmiReq = r.dmiReq := by
  have hresets : resets r i = false := by
    rwa [withdraws, hrequesting, Bool.and_true] at hwithdraws
  rw [accepts_of_requesting hrequesting hresets] at haccepts
  obtain ⟨hstate, haddress, hdata⟩ := next_of_branch idcodeValue hresets
  rw [stateBranch_of_requesting hrequesting, haccepts, if_neg Bool.false_ne_true] at hstate
  rw [stateBranch_of_requesting hrequesting] at haddress hdata
  constructor
  · rwa [Regs.requesting, hstate]
  · rw [Regs.dmiReq, hstate, haddress, hdata]
    rfl

/-- A module that waits for a response goes idle with it. -/
theorem stateBranch_of_waiting (hwait : r.state = .waitReadValid ∨ r.state = .waitWriteValid) :
    (stateBranch r i).state = if i.respValid then .idle else r.state := by
  rcases hwait with hstate | hstate
  · rw [stateBranch, hstate]
    show (waitReadBranch r i).state = _
    unfold waitReadBranch
    cases i.respValid with
    | false => exact hstate
    | true => rfl
  · rw [stateBranch, hstate]
    show (waitWriteBranch r i).state = _
    unfold waitWriteBranch
    cases i.respValid with
    | false => exact hstate
    | true => rfl

/-- A module that waits for a response does not request anything in the next cycle. -/
theorem next_of_waiting (hidle : r.state ≠ .idle) (hrequesting : r.requesting = false) :
    (next r i idcodeValue).requesting = false := by
  have hwait : r.state = .waitReadValid ∨ r.state = .waitWriteValid := by
    cases hstate : r.state <;> simp_all [Regs.requesting]
  cases hresets : resets r i with
  | true => rw [Regs.requesting, next_of_resets idcodeValue hresets]; rfl
  | false =>
    rw [Regs.requesting, (next_of_branch idcodeValue hresets).1, stateBranch_of_waiting hwait]
    split_ifs
    · rfl
    · exact hrequesting

/-- A reset takes precedence over the debug module. -/
theorem accepts_of_resets (hresets : resets r i = true) : accepts r i = false := by
  rw [accepts, Regs.dmiReqValid]
  rcases Bool.or_eq_true_iff.mp hresets with htrst | hclear
  · rw [htrst]
    rfl
  · rw [hclear, Bool.not_true, Bool.false_and, Bool.and_false, Bool.false_and]

/-- A request that is taken is followed by the wait for its response. -/
theorem next_of_accepts (haccepts : accepts r i = true) :
    (next r i idcodeValue).requesting = false := by
  have hresets : resets r i = false := by
    by_contra hresets
    rw [accepts_of_resets (Bool.eq_true_of_not_eq_false hresets)] at haccepts
    exact Bool.false_ne_true haccepts
  have hrequesting : r.requesting = true := by
    simp only [accepts, Regs.dmiReqValid, Bool.and_eq_true] at haccepts
    exact haccepts.1.2.2
  rw [accepts_of_requesting hrequesting hresets] at haccepts
  rw [Regs.requesting, (next_of_branch idcodeValue hresets).1,
    stateBranch_of_requesting hrequesting, haccepts, if_pos rfl]
  split_ifs <;> rfl

/-- An idle module requests something in the next cycle when a request begins. -/
theorem next_of_idle (hidle : r.state = .idle) :
    (next r i idcodeValue).requesting = starts r i := by
  cases htrst : i.trst with
  | true =>
    rw [next_of_trst idcodeValue htrst, starts, htrst]
    rfl
  | false =>
    rw [Regs.requesting, next_state idcodeValue htrst, starts, htrst, hidle]
    rfl

theorem not_starts_of_ne_idle (hidle : r.state ≠ .idle) : starts r i = false := by
  rw [Bool.eq_false_iff]
  intro hstarts
  exact hidle (starts_iff.mp hstarts).2.1

/-- The requests that begin and the outstanding one are taken, withdrawn, or outstanding still. -/
theorem requests_balance (r : Regs) (i : Inputs) :
    (starts r i).toNat + r.requesting.toNat =
      (accepts r i).toNat + (withdraws r i).toNat + (next r i idcodeValue).requesting.toNat := by
  by_cases hidle : r.state = .idle
  · have hrequesting : r.requesting = false := by
      rw [Regs.requesting, hidle]
      rfl
    have haccepts : accepts r i = false := by
      rw [accepts, Regs.dmiReqValid, hidle, show ((State.idle == .read) || (State.idle == .write)) =
        false from rfl, Bool.and_false, Bool.and_false, Bool.false_and]
    rw [withdraws, hrequesting, Bool.and_false, haccepts, next_of_idle idcodeValue hidle]
    simp
  · rw [not_starts_of_ne_idle hidle]
    cases hrequesting : r.requesting with
    | false =>
      have haccepts : accepts r i = false := by
        rw [Regs.requesting] at hrequesting
        rw [accepts, Regs.dmiReqValid, hrequesting, Bool.and_false, Bool.and_false, Bool.false_and]
      rw [withdraws, hrequesting, Bool.and_false, haccepts,
        next_of_waiting idcodeValue hidle hrequesting]
      rfl
    | true =>
      rw [withdraws, hrequesting, Bool.and_true]
      cases hresets : resets r i with
      | true =>
        rw [accepts_of_resets hresets, Regs.requesting, next_of_resets idcodeValue hresets]
        rfl
      | false =>
        cases haccepts : accepts r i with
        | true =>
          rw [next_of_accepts idcodeValue haccepts]
          rfl
        | false =>
          rw [(next_of_requesting idcodeValue hrequesting haccepts (by
            rw [withdraws, hresets, Bool.false_and])).1]
          rfl

/-! ### Errors -/

/-- The first error sticks. -/
theorem error_of_sticky (hresets : resets r i = false) (hclear : r.clearsError = false)
    (herror : r.error ≠ .noError) : (next r i idcodeValue).error = r.error := by
  obtain ⟨htrst, hdmiClear⟩ := Bool.or_eq_false_iff.mp hresets
  have hnone : (r.error == .noError) = false := beq_eq_false_iff_ne.mpr herror
  have hkept : (r.tap.updateDr && dmireset r.dtmcs && r.tap.dtmcsSelect) = false := by
    rw [← hclear, Regs.clearsError, Regs.updatesDtmcs, Bool.and_comm, Bool.and_assoc]
  rw [next_error idcodeValue htrst, errorNext, hdmiClear, if_neg Bool.false_ne_true]
  simp only [hnone, hkept, Bool.and_false, Bool.false_eq_true, if_false]

/-- A scan of an operation that starts nothing leaves an error. -/
theorem error_of_dropped (htrst : i.trst = false) (hoperates : operates r = true)
    (hdropped : starts r i = false) : (next r i idcodeValue).error ≠ .noError := by
  obtain ⟨hupdates, -⟩ := Bool.and_eq_true_iff.mp hoperates
  obtain ⟨hupdate, hselect⟩ := Bool.and_eq_true_iff.mp hupdates
  have hclear := dmiClear_of_updatesDmi hupdates
  have hother := dtmcsSelect_of_dmiSelect hselect
  by_cases herror : r.error = .noError
  · have hidle : (r.state != .idle) = true := by
      rw [bne_iff_ne]
      intro hidle
      rw [starts_iff.mpr ⟨htrst, hidle, herror, hoperates⟩] at hdropped
      exact Bool.false_ne_true hdropped.symm
    have hbusy : (fsm r i).errorDmiBusy = true := by
      rw [fsm_errorDmiBusy, hupdate, hidle]
      simp
    rw [next_error idcodeValue htrst, errorNext, hclear, if_neg Bool.false_ne_true]
    simp only [hbusy, herror, hother, Bool.and_false, Bool.false_eq_true, if_false]
    split_ifs <;> simp_all
  · rw [error_of_sticky idcodeValue (Bool.or_eq_false_iff.mpr ⟨htrst, hclear⟩)
      (by rw [Regs.clearsError, Regs.updatesDtmcs, hother]; rfl) herror]
    exact herror

theorem op_bits (address : BitVec 7) (data : BitVec 32) (op : BitVec 2) :
    (Dmi.ofBits (Dmi.mk address data op).bits).op = op := by
  show (address ++ data ++ op).extractLsb' 0 2 = op
  exact BitVec.extractLsb'_append_eq_right

/-- A Capture-DR of the register `dmi`. -/
theorem drNext_of_captures (hcaptures : r.capturesDmi = true) :
    drNext r i =
      if r.error = .noError ∧ errorDmiBusy r i = false then
        (Dmi.mk r.address r.data DmiError.noError.bits).bits
      else if r.error = .busy ∨ errorDmiBusy r i = true then
        (Dmi.mk r.address r.data DmiError.busy.bits).bits
      else r.dr := by
  obtain ⟨hcapture, hselect⟩ := Bool.and_eq_true_iff.mp hcaptures
  have hstate : r.tap.tapState = .captureDr := eq_of_beq hcapture
  have hshift : r.tap.shiftDr = false := by
    rw [DmiJtagTap.Regs.shiftDr, hstate]
    rfl
  rw [drNext, dmiClear_of_capturesDmi hcaptures, if_neg Bool.false_ne_true]
  simp only [hcapture, hselect, hshift, Bool.and_self, if_true, Bool.false_and, Bool.false_eq_true,
    if_false, Bool.and_eq_true, beq_iff_eq, Bool.not_eq_true', Bool.or_eq_true]

/-- In an idle module a Capture-DR raises no error. -/
theorem errorDmiBusy_of_idle (hcaptures : r.capturesDmi = true) (hidle : r.state = .idle) :
    errorDmiBusy r i = false := by
  have hclear := dmiClear_of_capturesDmi hcaptures
  have hbranch : (stateBranch r i).errorDmiBusy = false := by
    rw [stateBranch_of_idle hidle, (idleBranch_flags r).1]
  rw [errorDmiBusy, hclear, fsm_errorDmiBusy, hbranch, hidle, Regs.reading, hidle]
  simp

/-- What a Capture-DR loads while an error sticks: the error, unless it is that of a failed
operation, which leaves the register alone. -/
theorem captured_op (htrst : i.trst = false) (hcaptures : r.capturesDmi = true)
    (hfailed : r.error = .opFailed → r.state = .idle) (hreserved : r.error ≠ .reservedError)
    (herror : r.error ≠ .noError) :
    (Dmi.ofBits (next r i idcodeValue).dr).op =
      if r.error = .opFailed then (Dmi.ofBits r.dr).op else r.error.bits := by
  rw [next_dr idcodeValue htrst, drNext_of_captures hcaptures, if_neg fun hboth ↦ herror hboth.1]
  cases hkind : r.error with
  | noError => exact absurd hkind herror
  | reservedError => exact absurd hkind hreserved
  | opFailed =>
    rw [errorDmiBusy_of_idle hcaptures (hfailed hkind), if_neg (by decide), if_pos rfl]
  | busy =>
    rw [if_pos (Or.inl rfl), if_neg (by decide), op_bits]

/-- Only a response raises the error of a failed operation, and it ends the transaction. -/
theorem state_of_errorDmiOpFailed (hfailed : (stateBranch r i).errorDmiOpFailed = true) :
    (stateBranch r i).state = .idle := by
  unfold stateBranch at hfailed ⊢
  cases hstate : r.state with
  | idle =>
    simp only [hstate, (idleBranch_flags r).2] at hfailed
    exact absurd hfailed Bool.false_ne_true
  | read | write =>
    simp only [hstate] at hfailed
    split_ifs at hfailed
    · exact absurd hfailed Bool.false_ne_true
    · exact absurd hfailed Bool.false_ne_true
  | waitReadValid | waitWriteValid =>
    simp only [hstate, waitReadBranch, waitWriteBranch] at hfailed ⊢
    cases hvalid : i.respValid with
    | false =>
      rw [hvalid] at hfailed
      exact absurd hfailed Bool.false_ne_true
    | true => rfl

/-- The error of a failed operation comes with the end of the operation, and keeps the module
idle. -/
theorem opFailed_next (hsettled : r.error = .opFailed → r.state = .idle)
    (hnext : (next r i idcodeValue).error = .opFailed) :
    (next r i idcodeValue).state = .idle := by
  cases hresets : resets r i with
  | true => exact next_of_resets idcodeValue hresets
  | false =>
    obtain ⟨htrst, hclear⟩ := Bool.or_eq_false_iff.mp hresets
    rw [next_state idcodeValue htrst]
    by_cases hkind : r.error = .opFailed
    · rw [stateNext_of_idle (hsettled hkind), if_neg]
      rintro ⟨-, hnone⟩
      rw [hkind] at hnone
      exact DmiError.noConfusion hnone
    · have hfailed : (stateBranch r i).errorDmiOpFailed = true := by
        rw [next_error idcodeValue htrst, errorNext, hclear, if_neg Bool.false_ne_true,
          fsm_errorDmiOpFailed] at hnext
        by_contra hnot
        simp only [Bool.eq_false_iff.mpr hnot, Bool.false_and, Bool.false_eq_true,
          if_false] at hnext
        split_ifs at hnext
        exact hkind hnext
      rw [stateNext_eq, hclear, if_neg Bool.false_ne_true, state_of_errorDmiOpFailed hfailed]

theorem reservedError_next (hreserved : r.error ≠ .reservedError) :
    (next r i idcodeValue).error ≠ .reservedError := by
  unfold next
  split_ifs with htrst
  · exact fun heq ↦ DmiError.noConfusion heq
  · show errorNext r i ≠ _
    unfold errorNext
    split_ifs <;> simp_all

end Cycle

/-! ### Runs -/

section Runs

variable (idcodeValue : BitVec 32) (inputs : ℕ → Inputs)

/-- In every run the error of a failed operation leaves the module idle. -/
theorem opFailed_run (time : ℕ) (hfailed : (run idcodeValue inputs time).error = .opFailed) :
    (run idcodeValue inputs time).state = .idle := by
  have hstep (r : Regs) (i : Inputs) (hbefore : r.error = .opFailed → r.state = .idle) :
      ((machine idcodeValue).step r i).error = .opFailed →
        ((machine idcodeValue).step r i).state = .idle :=
    opFailed_next idcodeValue hbefore
  have hsettled := ClockedMachine.invariant_states (fun _ ↦ rfl) hstep inputs time
  exact hsettled hfailed

/-- No run raises the reserved error. -/
theorem reservedError_run (time : ℕ) :
    (run idcodeValue inputs time).error ≠ .reservedError := by
  have hstep (r : Regs) (i : Inputs) (hbefore : r.error ≠ .reservedError) :
      ((machine idcodeValue).step r i).error ≠ .reservedError :=
    reservedError_next idcodeValue hbefore
  have hreserved := ClockedMachine.invariant_states (fun heq ↦ DmiError.noConfusion heq) hstep
    inputs time
  exact hreserved

/-- The requests begun so far have been taken or withdrawn, but for an outstanding one. -/
theorem requests_balanced (time : ℕ) :
    Nat.count (fun cycle ↦ starts (run idcodeValue inputs cycle) (inputs cycle) = true) time =
      Nat.count (fun cycle ↦ accepts (run idcodeValue inputs cycle) (inputs cycle) = true) time +
        Nat.count (fun cycle ↦ withdraws (run idcodeValue inputs cycle) (inputs cycle) = true)
            time +
          (run idcodeValue inputs time).requesting.toNat := by
  induction time with
  | zero => rfl
  | succ time ih =>
    have hcycle := requests_balance idcodeValue (run idcodeValue inputs time) (inputs time)
    have htoNat (event : Bool) : (if event = true then 1 else 0) = event.toNat := by
      cases event <;> rfl
    rw [← run_succ] at hcycle
    rw [Nat.count_succ, Nat.count_succ, Nat.count_succ, ih, htoNat, htoNat, htoNat]
    omega

/-- A request is offered. -/
def Offers (request : DmiReq) (time : ℕ) : Prop :=
  (run idcodeValue inputs time).requesting = true ∧ (run idcodeValue inputs time).dmiReq = request

/-- An offered request is taken or withdrawn. -/
def OfferEnds (request : DmiReq) (time : ℕ) : Prop :=
  Offers idcodeValue inputs request time ∧
    (accepts (run idcodeValue inputs time) (inputs time) = true ∨
      withdraws (run idcodeValue inputs time) (inputs time) = true)

/-- The request of a scan is offered until it is taken or withdrawn. -/
theorem offers_unless {time : ℕ}
    (hstarts : starts (run idcodeValue inputs time) (inputs time) = true) :
    Unless (Offers idcodeValue inputs (run idcodeValue inputs time).scanned)
      (OfferEnds idcodeValue inputs (run idcodeValue inputs time).scanned) (time + 1) := by
  have hfirst : Offers idcodeValue inputs (run idcodeValue inputs time).scanned (time + 1) :=
    next_of_starts idcodeValue hstarts
  refine unless_of_step hfirst fun later hle hoffered ↦ ?_
  cases haccepts : accepts (run idcodeValue inputs later) (inputs later) with
  | true => exact Or.inr ⟨hoffered, Or.inl haccepts⟩
  | false =>
    cases hwithdraws : withdraws (run idcodeValue inputs later) (inputs later) with
    | true => exact Or.inr ⟨hoffered, Or.inr hwithdraws⟩
    | false =>
      obtain ⟨hrequesting, hreq⟩ :=
        next_of_requesting idcodeValue hoffered.1 haccepts hwithdraws
      exact Or.inl ⟨hoffered, hrequesting, hreq.trans hoffered.2⟩

/-- What a debugger relies on. A scan of an operation starts a request, which is offered until it is
taken or withdrawn, and no other request is ever offered; or it leaves an error. An error stays
until it is cleared, no request starts meanwhile, and every Capture-DR of the register `dmi` shows
it. -/
structure DropsReported : Prop where
  update : ∀ time, (inputs time).trst = false → operates (run idcodeValue inputs time) = true →
    starts (run idcodeValue inputs time) (inputs time) = true ∨
      (run idcodeValue inputs (time + 1)).error ≠ .noError
  request : ∀ time, starts (run idcodeValue inputs time) (inputs time) = true →
    operates (run idcodeValue inputs time) = true ∧
      Unless (Offers idcodeValue inputs (run idcodeValue inputs time).scanned)
        (OfferEnds idcodeValue inputs (run idcodeValue inputs time).scanned) (time + 1)
  balanced : ∀ time,
    Nat.count (fun cycle ↦ starts (run idcodeValue inputs cycle) (inputs cycle) = true) time =
      Nat.count (fun cycle ↦ accepts (run idcodeValue inputs cycle) (inputs cycle) = true) time +
        Nat.count (fun cycle ↦ withdraws (run idcodeValue inputs cycle) (inputs cycle) = true)
            time +
          (run idcodeValue inputs time).requesting.toNat
  blocked : ∀ time, (run idcodeValue inputs time).error ≠ .noError →
    starts (run idcodeValue inputs time) (inputs time) = false
  sticky : ∀ time, (run idcodeValue inputs time).error ≠ .noError →
    resets (run idcodeValue inputs time) (inputs time) = false →
    (run idcodeValue inputs time).clearsError = false →
      (run idcodeValue inputs (time + 1)).error = (run idcodeValue inputs time).error
  captured : ∀ time, (inputs time).trst = false → (run idcodeValue inputs time).capturesDmi = true →
    (run idcodeValue inputs time).error ≠ .noError →
      (Dmi.ofBits (run idcodeValue inputs (time + 1)).dr).op =
        (run idcodeValue inputs time).error.bits

/-- Dropped operations are reported in exactly the runs in which each Capture-DR after a failed
operation finds the error in the shift register already. -/
theorem dropsReported_iff :
    DropsReported idcodeValue inputs ↔
      ∀ time, (inputs time).trst = false → (run idcodeValue inputs time).capturesDmi = true →
        (run idcodeValue inputs time).error = .opFailed →
          (Dmi.ofBits (run idcodeValue inputs time).dr).op = DmiError.opFailed.bits := by
  have hop (time : ℕ) (htrst : (inputs time).trst = false)
      (hcaptures : (run idcodeValue inputs time).capturesDmi = true)
      (herror : (run idcodeValue inputs time).error ≠ .noError) :=
    captured_op idcodeValue htrst hcaptures (opFailed_run idcodeValue inputs time)
      (reservedError_run idcodeValue inputs time) herror
  constructor
  · intro hreported time htrst hcaptures hfailed
    have herror : (run idcodeValue inputs time).error ≠ .noError := by
      rw [hfailed]
      exact fun heq ↦ DmiError.noConfusion heq
    have hcaptured := hreported.captured time htrst hcaptures herror
    rw [run_succ, hop time htrst hcaptures herror, if_pos hfailed, hfailed] at hcaptured
    exact hcaptured
  · intro hshown
    refine ⟨?_, ?_, ?_, ?_, ?_, ?_⟩
    · intro time htrst hoperates
      cases hstarts : starts (run idcodeValue inputs time) (inputs time) with
      | true => exact Or.inl rfl
      | false => exact Or.inr (error_of_dropped idcodeValue htrst hoperates hstarts)
    · intro time hstarts
      exact ⟨(starts_iff.mp hstarts).2.2.2, offers_unless idcodeValue inputs hstarts⟩
    · exact requests_balanced idcodeValue inputs
    · intro time herror
      rw [Bool.eq_false_iff]
      intro hstarts
      exact herror (starts_iff.mp hstarts).2.2.1
    · intro time herror hresets hclear
      exact error_of_sticky idcodeValue hresets hclear herror
    · intro time htrst hcaptures herror
      rw [run_succ, hop time htrst hcaptures herror]
      split_ifs with hfailed
      · rw [hshown time htrst hcaptures hfailed, hfailed]
      · rfl

end Runs

/-! ### A hidden failure -/

/-- The pins of a session: an instruction scan of DMIACCESS, a scan of a read, two cycles in
Run-Test/Idle, and a further Capture-DR. -/
def readSession : List DmiJtagTap.Inputs :=
  [⟨false, false⟩, ⟨true, false⟩, ⟨true, false⟩, ⟨false, false⟩, ⟨false, false⟩] ++
    [⟨false, true⟩, ⟨false, false⟩, ⟨false, false⟩, ⟨false, false⟩, ⟨true, true⟩] ++
    [⟨true, false⟩, ⟨true, false⟩, ⟨false, false⟩, ⟨false, false⟩] ++
    ⟨false, true⟩ :: List.replicate 39 ⟨false, false⟩ ++ [⟨true, false⟩] ++
    [⟨true, false⟩, ⟨false, false⟩, ⟨false, false⟩, ⟨true, false⟩, ⟨false, false⟩]

/-- The debug module takes the request at once, and answers that the operation has failed. -/
def failedRead (time : ℕ) : Inputs where
  trst := false
  pins := readSession.getD time ⟨false, false⟩
  reqReady := true
  respValid := true
  resp := ⟨0, dtmErr⟩

/-- The Capture-DR after a failed read shows the debugger the operation it has scanned in. -/
theorem failedRead_hidden : ¬ DropsReported 0xdb3 failedRead := by
  intro hreported
  have hcaptured := hreported.captured 60 rfl (by decide +kernel) (by decide +kernel)
  revert hcaptured
  decide +kernel

end RiscvDebug.DmiJtag
