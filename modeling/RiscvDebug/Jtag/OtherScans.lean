import RiscvDebug.Jtag.DroppedOperations

/-!
# Scans of other registers

A scan of a data register other than `dmi`, compared with as many cycles in Run-Test/Idle. The
transaction goes on in the same way (`sameTransaction`), but the strobes of the scan raise the busy
error of an outstanding transaction as those of a scan of `dmi` do. `undisturbed_iff` says when the
error is the same at the end of the scan nevertheless.
-/

set_option autoImplicit false
set_option relaxedAutoImplicit false

namespace RiscvDebug.DmiJtag

open Foundations DmiJtagTap

/-! ### Scans -/

/-- The registers of the DMI transactions. -/
structure Transaction where
  state : State
  address : BitVec 7
  data : BitVec 32
  error : DmiError
deriving DecidableEq, Repr

def Regs.transaction (r : Regs) : Transaction where
  state := r.state
  address := r.address
  data := r.data
  error := r.error

/-- The run from a state. -/
def runFrom (idcodeValue : BitVec 32) (start : Regs) (inputs : ℕ → Inputs) : ℕ → Regs
  | 0 => start
  | time + 1 => next (runFrom idcodeValue start inputs time) (inputs time) idcodeValue

/-- The same registers with the TAP in Run-Test/Idle. -/
def Regs.parked (r : Regs) : Regs := { r with tap := { r.tap with tapState := .runTestIdle } }

/-- The same inputs with TMS low, with which the TAP stays in Run-Test/Idle. -/
def idling (inputs : ℕ → Inputs) (time : ℕ) : Inputs :=
  { inputs time with pins := { (inputs time).pins with tms := false } }

section Scans

variable (idcodeValue : BitVec 32) (start : Regs) (inputs : ℕ → Inputs)

/-- The run that a scan is compared with. -/
def parkedRun (time : ℕ) : Regs := runFrom idcodeValue start.parked (idling inputs) time

/-- A complete scan of a data register, with the cycles of its Capture-DR and of its Update-DR. -/
structure DrScan (capture update : ℕ) : Prop where
  before : ∀ time < capture,
    (runFrom idcodeValue start inputs time).tap.tapState ∈
      [TapState.runTestIdle, TapState.selectDrScan]
  captures : (runFrom idcodeValue start inputs capture).tap.tapState = .captureDr
  order : capture < update
  between : ∀ time, capture < time → time < update →
    (runFrom idcodeValue start inputs time).tap.tapState ∈
      [TapState.shiftDr, TapState.exit1Dr, TapState.pauseDr, TapState.exit2Dr]
  updates : (runFrom idcodeValue start inputs update).tap.tapState = .updateDr
  trst : ∀ time ≤ update, (inputs time).trst = false

/-- The instruction selects another register than `dmi`, and a scan of `dtmcs` scans in neither
`dmireset` nor `dmihardreset`. -/
structure ScansOther (update : ℕ) : Prop where
  ir : start.tap.ir ≠ dmiAccess
  dtmcs : start.tap.ir = dtmcsr →
    dmireset (runFrom idcodeValue start inputs update).dtmcs = false ∧
      dmihardreset (runFrom idcodeValue start inputs update).dtmcs = false

end Scans

/-! ### Answers and overlaps -/

section Answers

variable (r : Regs) (i : Inputs)

/-- A response ends the transaction. -/
def answers : Bool := (r.state == .waitReadValid || r.state == .waitWriteValid) && i.respValid

/-- The response says that the debug module is busy. -/
def answersBusy : Bool := answers r i && i.resp.resp == dtmBusy

/-- The response says that the operation has failed. -/
def answersFailed : Bool := answers r i && i.resp.resp == dtmErr

/-- The response reports an error. -/
def answersError : Bool := answersFailed r i || answersBusy r i

/-- A strobe of a scan, of whatever register, falls on an outstanding transaction. -/
def Regs.overlaps : Bool :=
  r.tap.updateDr && r.state != .idle || r.tap.captureDr && r.reading

variable {r i}

theorem status_cases (status : BitVec 2) :
    status = 0 ∨ status = 1 ∨ status = 2 ∨ status = 3 := by
  revert status
  decide

theorem not_answersFailed_of_busy (hbusy : answersBusy r i = true) :
    answersFailed r i = false := by
  rw [answersFailed, eq_of_beq (Bool.and_eq_true_iff.mp hbusy).2]
  exact Bool.and_false _

/-- The errors that the branches of the state machine raise are those of the response. -/
theorem stateBranch_errors (r : Regs) (i : Inputs) :
    (stateBranch r i).errorDmiBusy = answersBusy r i ∧
      (stateBranch r i).errorDmiOpFailed = answersFailed r i := by
  unfold answersBusy answersFailed answers
  cases hstate : r.state with
  | idle =>
    rw [stateBranch_of_idle hstate]
    exact idleBranch_flags r
  | read | write =>
    rw [stateBranch_of_requesting (by rw [Regs.requesting, hstate]; rfl)]
    exact ⟨rfl, rfl⟩
  | waitReadValid | waitWriteValid =>
    simp only [stateBranch, hstate, waitReadBranch, waitWriteBranch]
    cases hvalid : i.respValid with
    | false => exact ⟨rfl, rfl⟩
    | true =>
      rcases status_cases i.resp.resp with hstatus | hstatus | hstatus | hstatus <;>
        rw [hstatus] <;> exact ⟨rfl, rfl⟩

end Answers

/-! ### One cycle -/

/-- Two states with the same transaction, up to its error. -/
structure SameTransaction (r r' : Regs) : Prop where
  state : r.state = r'.state
  address : r.address = r'.address
  data : r.data = r'.data

section Cycle

variable (idcodeValue : BitVec 32) {r r' : Regs} {i i' : Inputs}

/-- A cycle that takes nothing from the scan registers: no reset, no scan of `dmi`, and no
`dmireset`. -/
structure Undirected (r : Regs) (i : Inputs) : Prop where
  resets : resets r i = false
  updatesDmi : r.updatesDmi = false
  clearsError : r.clearsError = false

/-- The error after a cycle in which nothing clears it. -/
theorem error_next (hresets : resets r i = false) (hclears : r.clearsError = false) :
    (next r i idcodeValue).error =
      if r.error ≠ .noError then r.error
      else if answersFailed r i then .opFailed
      else if answersBusy r i || r.overlaps then .busy else .noError := by
  by_cases herror : r.error = .noError
  · obtain ⟨htrst, hclear⟩ := Bool.or_eq_false_iff.mp hresets
    have hkept : (r.tap.updateDr && dmireset r.dtmcs && r.tap.dtmcsSelect) = false := by
      rw [← hclears, Regs.clearsError, Regs.updatesDtmcs, Bool.and_comm, Bool.and_assoc]
    have hbusy : (fsm r i).errorDmiBusy = (answersBusy r i || r.overlaps) := by
      rw [fsm_errorDmiBusy, (stateBranch_errors r i).1, Regs.overlaps, Bool.or_assoc]
    rw [if_neg (not_not.mpr herror), next_error idcodeValue htrst, errorNext, hclear,
      if_neg Bool.false_ne_true, fsm_errorDmiOpFailed, (stateBranch_errors r i).2, hbusy, hkept,
      herror]
    simp
  · rw [if_pos herror, error_of_sticky idcodeValue hresets hclears herror]

/-- Without a scan of `dmi` the branches read the transaction and the answers only. -/
theorem stateBranch_congr (hsame : SameTransaction r r') (hupdates : r.updatesDmi = false)
    (hupdates' : r'.updatesDmi = false) (hready : i.reqReady = i'.reqReady)
    (hvalid : i.respValid = i'.respValid) (hresp : i.resp = i'.resp) :
    stateBranch r i = stateBranch r' i' := by
  have hdefault : Fsm.default r = Fsm.default r' := by
    rw [Fsm.default, Fsm.default, hsame.state, hsame.address, hsame.data]
  have hidle : idleBranch r = idleBranch r' := by
    rw [idleBranch_eq, idleBranch_eq, hupdates, hupdates', hdefault]
    simp
  unfold stateBranch waitReadBranch waitWriteBranch
  rw [hsame.state, hready, hvalid, hresp, hidle, hdefault]

theorem SameTransaction.next (hsame : SameTransaction r r') (hcycle : Undirected r i)
    (hcycle' : Undirected r' i') (hready : i.reqReady = i'.reqReady)
    (hvalid : i.respValid = i'.respValid) (hresp : i.resp = i'.resp) :
    SameTransaction (next r i idcodeValue) (next r' i' idcodeValue) := by
  obtain ⟨hstate, haddress, hdata⟩ := next_of_branch idcodeValue hcycle.resets
  obtain ⟨hstate', haddress', hdata'⟩ := next_of_branch idcodeValue hcycle'.resets
  have hbranch := stateBranch_congr hsame hcycle.updatesDmi hcycle'.updatesDmi hready hvalid hresp
  constructor
  · rw [hstate, hstate', hbranch]
  · rw [haddress, haddress', hbranch]
  · rw [hdata, hdata', hbranch]

/-- A transaction that an answer does not end goes on, and none begins. -/
theorem state_next_of_undirected (hcycle : Undirected r i) :
    ((next r i idcodeValue).state = .idle ↔ r.state = .idle ∨ answers r i = true) := by
  rw [(next_of_branch idcodeValue hcycle.resets).1]
  unfold answers
  cases hstate : r.state with
  | idle =>
    rw [stateBranch_of_idle hstate, idleBranch_eq, hcycle.updatesDmi,
      if_neg fun hboth ↦ Bool.false_ne_true hboth.1]
    exact ⟨fun _ ↦ Or.inl rfl, fun _ ↦ hstate⟩
  | read | write =>
    rw [stateBranch_of_requesting (by rw [Regs.requesting, hstate]; rfl), hstate]
    cases i.reqReady <;> simp
  | waitReadValid | waitWriteValid =>
    rw [stateBranch_of_waiting (by rw [hstate]; decide), hstate]
    cases i.respValid <;> simp

end Cycle

/-! ### The two runs -/

section Runs

variable {idcodeValue : BitVec 32} {start : Regs} {inputs : ℕ → Inputs} {capture update : ℕ}

/-- A TAP in Run-Test/Idle makes no strobes. -/
theorem parkedRun_tapState (htrst : ∀ time ≤ update, (inputs time).trst = false) {time : ℕ}
    (hle : time ≤ update + 1) :
    (parkedRun idcodeValue start inputs time).tap.tapState = .runTestIdle := by
  induction time with
  | zero => rfl
  | succ time ih =>
    have htrst' : (idling inputs time).trst = false := htrst time (by omega)
    show (next _ _ idcodeValue).tap.tapState = _
    rw [next, htrst', if_neg Bool.false_ne_true]
    show TapState.next false (parkedRun idcodeValue start inputs time).tap.tapState = _
    rw [ih (by omega)]
    rfl

/-- Without the strobes of a data register a cycle takes nothing from the scan registers. -/
theorem undirected_of_tapState {r : Regs} {i : Inputs} (htrst : i.trst = false)
    (hreset : r.tap.tapState ≠ .testLogicReset) (hupdate : r.tap.tapState ≠ .updateDr) :
    Undirected r i where
  resets := by
    simp [resets, htrst, Regs.dmiClear, Regs.updatesDtmcs, DmiJtagTap.Regs.testLogicReset,
      DmiJtagTap.Regs.updateDr, hreset, hupdate]
  updatesDmi := by simp [Regs.updatesDmi, DmiJtagTap.Regs.updateDr, hupdate]
  clearsError := by
    simp [Regs.clearsError, Regs.updatesDtmcs, DmiJtagTap.Regs.updateDr, hupdate]

theorem parkedRun_undirected (htrst : ∀ time ≤ update, (inputs time).trst = false) {time : ℕ}
    (hle : time ≤ update) :
    Undirected (parkedRun idcodeValue start inputs time) (idling inputs time) := by
  have hstate : (parkedRun idcodeValue start inputs time).tap.tapState = .runTestIdle :=
    parkedRun_tapState htrst (by omega)
  refine undirected_of_tapState (htrst time hle) ?_ ?_ <;> rw [hstate] <;> decide

theorem parkedRun_overlaps (htrst : ∀ time ≤ update, (inputs time).trst = false) {time : ℕ}
    (hle : time ≤ update) : (parkedRun idcodeValue start inputs time).overlaps = false := by
  have hstate : (parkedRun idcodeValue start inputs time).tap.tapState = .runTestIdle :=
    parkedRun_tapState htrst (by omega)
  rw [Regs.overlaps, DmiJtagTap.Regs.updateDr, DmiJtagTap.Regs.captureDr, hstate]
  rfl

/-- The states of the TAP in a scan before its Update-DR. -/
theorem DrScan.tapState (hscan : DrScan idcodeValue start inputs capture update) {time : ℕ}
    (hlt : time < update) :
    time = capture ∧ (runFrom idcodeValue start inputs time).tap.tapState = .captureDr ∨
      time ≠ capture ∧ (runFrom idcodeValue start inputs time).tap.tapState ∈
        [TapState.runTestIdle, .selectDrScan, .shiftDr, .exit1Dr, .pauseDr, .exit2Dr] := by
  have horder := hscan.order
  rcases Nat.lt_trichotomy time capture with hbefore | rfl | hafter
  · have hstate := hscan.before time hbefore
    refine Or.inr ⟨hbefore.ne, ?_⟩
    exact List.mem_append_left [.shiftDr, .exit1Dr, .pauseDr, .exit2Dr] hstate
  · exact Or.inl ⟨rfl, hscan.captures⟩
  · have hstate := hscan.between time hafter hlt
    refine Or.inr ⟨hafter.ne', ?_⟩
    exact List.mem_append_right [.runTestIdle, .selectDrScan] hstate

/-- Before its Update-DR a scan changes neither the instruction nor anything else by a strobe. -/
theorem DrScan.strobes (hscan : DrScan idcodeValue start inputs capture update) {time : ℕ}
    (hlt : time < update) :
    (runFrom idcodeValue start inputs time).tap.tapState ≠ .testLogicReset ∧
      (runFrom idcodeValue start inputs time).tap.tapState ≠ .updateIr ∧
        (runFrom idcodeValue start inputs time).tap.tapState ≠ .updateDr := by
  rcases hscan.tapState hlt with ⟨-, hstate⟩ | ⟨-, hstate⟩
  · rw [hstate]
    exact ⟨by decide, by decide, by decide⟩
  · refine ⟨?_, ?_, ?_⟩ <;>
      · intro heq
        rw [heq] at hstate
        exact absurd hstate (by decide)

/-- A scan of a data register leaves the instruction as it is. -/
theorem DrScan.ir_eq (hscan : DrScan idcodeValue start inputs capture update) {time : ℕ}
    (hle : time ≤ update) : (runFrom idcodeValue start inputs time).tap.ir = start.tap.ir := by
  induction time with
  | zero => rfl
  | succ time ih =>
    obtain ⟨hreset, hupdateIr, -⟩ := hscan.strobes (show time < update by omega)
    rw [← ih (by omega)]
    show (next _ (inputs time) idcodeValue).tap.ir = _
    rw [next, hscan.trst time (by omega), if_neg Bool.false_ne_true]
    show irNext _ = _
    simp [irNext, DmiJtagTap.Regs.updateIr, DmiJtagTap.Regs.testLogicReset, hreset, hupdateIr]

/-- The cycles of a scan of another register take nothing from the scan registers. -/
theorem DrScan.undirected (hscan : DrScan idcodeValue start inputs capture update)
    (hother : ScansOther idcodeValue start inputs update) {time : ℕ} (hle : time ≤ update) :
    Undirected (runFrom idcodeValue start inputs time) (inputs time) := by
  rcases Nat.lt_or_eq_of_le hle with hlt | rfl
  · obtain ⟨hreset, -, hupdate⟩ := hscan.strobes hlt
    exact undirected_of_tapState (hscan.trst time hle) hreset hupdate
  · have hir := hscan.ir_eq le_rfl
    have hselect : (runFrom idcodeValue start inputs time).tap.dmiSelect = false := by
      rw [DmiJtagTap.Regs.dmiSelect, hir]
      exact beq_eq_false_iff_ne.mpr hother.ir
    have hupdate : (runFrom idcodeValue start inputs time).tap.testLogicReset = false := by
      rw [DmiJtagTap.Regs.testLogicReset, hscan.updates]
      rfl
    have hdtmcs : ((runFrom idcodeValue start inputs time).updatesDtmcs &&
          dmihardreset (runFrom idcodeValue start inputs time).dtmcs) = false ∧
        ((runFrom idcodeValue start inputs time).updatesDtmcs &&
          dmireset (runFrom idcodeValue start inputs time).dtmcs) = false := by
      by_cases hselected : start.tap.ir = dtmcsr
      · rw [(hother.dtmcs hselected).1, (hother.dtmcs hselected).2, Bool.and_false]
        exact ⟨rfl, rfl⟩
      · rw [Regs.updatesDtmcs, DmiJtagTap.Regs.dtmcsSelect, hir,
          show (start.tap.ir == dtmcsr) = false from beq_eq_false_iff_ne.mpr hselected]
        exact ⟨rfl, rfl⟩
    constructor
    · rw [resets, Regs.dmiClear, hscan.trst time le_rfl, hupdate, hdtmcs.1]
      rfl
    · rw [Regs.updatesDmi, hselect, Bool.and_false]
    · rw [Regs.clearsError, hdtmcs.2]

/-- Two strobes of a scan can overlap a transaction. -/
theorem DrScan.overlaps (hscan : DrScan idcodeValue start inputs capture update) {time : ℕ}
    (hle : time ≤ update) :
    (runFrom idcodeValue start inputs time).overlaps = true ↔
      time = capture ∧ (runFrom idcodeValue start inputs time).reading = true ∨
        time = update ∧ (runFrom idcodeValue start inputs time).state ≠ .idle := by
  have horder := hscan.order
  rcases Nat.lt_or_eq_of_le hle with hlt | rfl
  · rcases hscan.tapState hlt with ⟨htime, hstate⟩ | ⟨htime, hstate⟩
    · have hupdate : (runFrom idcodeValue start inputs time).tap.updateDr = false := by
        rw [DmiJtagTap.Regs.updateDr, hstate]
        rfl
      have hcapture : (runFrom idcodeValue start inputs time).tap.captureDr = true := by
        rw [DmiJtagTap.Regs.captureDr, hstate]
        rfl
      rw [Regs.overlaps, hupdate, hcapture]
      simp [htime, horder.ne]
    · have hupdate : (runFrom idcodeValue start inputs time).tap.updateDr = false :=
        beq_eq_false_iff_ne.mpr (hscan.strobes hlt).2.2
      have hcapture : (runFrom idcodeValue start inputs time).tap.captureDr = false := by
        refine beq_eq_false_iff_ne.mpr fun heq ↦ ?_
        rw [heq] at hstate
        exact absurd hstate (by decide)
      rw [Regs.overlaps, hupdate, hcapture]
      simp [htime, hlt.ne]
  · simp [Regs.overlaps, DmiJtagTap.Regs.updateDr, DmiJtagTap.Regs.captureDr, hscan.updates,
      horder.ne']

section Compare

variable (hscan : DrScan idcodeValue start inputs capture update)
  (hother : ScansOther idcodeValue start inputs update)
include hscan hother

/-- The transaction goes on in a scan as it does in Run-Test/Idle. -/
theorem sameTransaction {time : ℕ} (hle : time ≤ update + 1) :
    SameTransaction (runFrom idcodeValue start inputs time)
      (parkedRun idcodeValue start inputs time) := by
  induction time with
  | zero => exact ⟨rfl, rfl, rfl⟩
  | succ time ih =>
    exact (ih (by omega)).next idcodeValue (hscan.undirected hother (by omega))
      (parkedRun_undirected hscan.trst (by omega)) rfl rfl rfl

/-- The answers are those of the other run. -/
theorem answers_eq {time : ℕ} (hle : time ≤ update) :
    answersBusy (runFrom idcodeValue start inputs time) (inputs time) =
        answersBusy (parkedRun idcodeValue start inputs time) (inputs time) ∧
      answersFailed (runFrom idcodeValue start inputs time) (inputs time) =
        answersFailed (parkedRun idcodeValue start inputs time) (inputs time) := by
  have hsame := sameTransaction hscan hother (show time ≤ update + 1 by omega)
  rw [answersBusy, answersBusy, answersFailed, answersFailed, answers, answers, hsame.state]
  exact ⟨rfl, rfl⟩

/-- The error of the scan. -/
theorem scan_error_succ {time : ℕ} (hle : time ≤ update) :
    (runFrom idcodeValue start inputs (time + 1)).error =
      if (runFrom idcodeValue start inputs time).error ≠ .noError then
        (runFrom idcodeValue start inputs time).error
      else if answersFailed (parkedRun idcodeValue start inputs time) (inputs time) then .opFailed
      else if answersBusy (parkedRun idcodeValue start inputs time) (inputs time) ||
        (runFrom idcodeValue start inputs time).overlaps then .busy else .noError := by
  obtain ⟨hbusy, hfailed⟩ := answers_eq hscan hother hle
  rw [← hbusy, ← hfailed]
  exact error_next idcodeValue (hscan.undirected hother hle).resets
    (hscan.undirected hother hle).clearsError

omit hother in
/-- The error of the run that the scan is compared with. -/
theorem parkedRun_error_succ {time : ℕ} (hle : time ≤ update) :
    (parkedRun idcodeValue start inputs (time + 1)).error =
      if (parkedRun idcodeValue start inputs time).error ≠ .noError then
        (parkedRun idcodeValue start inputs time).error
      else if answersFailed (parkedRun idcodeValue start inputs time) (inputs time) then .opFailed
      else if answersBusy (parkedRun idcodeValue start inputs time) (inputs time) then .busy
      else .noError := by
  have hcycle : Undirected (parkedRun idcodeValue start inputs time) (idling inputs time) :=
    parkedRun_undirected hscan.trst hle
  have hnext := error_next idcodeValue hcycle.resets hcycle.clearsError
  rw [parkedRun_overlaps hscan.trst hle, Bool.or_false] at hnext
  exact hnext

/-- Errors stick in both runs. -/
theorem scan_error_sticks {time later : ℕ} (hle : time ≤ later) (hlater : later ≤ update + 1)
    (herror : (runFrom idcodeValue start inputs time).error ≠ .noError) :
    (runFrom idcodeValue start inputs later).error =
      (runFrom idcodeValue start inputs time).error := by
  refine eq_start_of_step (q := fun time ↦ (runFrom idcodeValue start inputs time).error) hle
    fun cycle hcycle hlt hsame ↦ ?_
  rw [scan_error_succ hscan hother (by omega), if_pos (hsame ▸ herror), hsame]

omit hother in
theorem parkedRun_error_sticks {time later : ℕ} (hle : time ≤ later) (hlater : later ≤ update + 1)
    (herror : (parkedRun idcodeValue start inputs time).error ≠ .noError) :
    (parkedRun idcodeValue start inputs later).error =
      (parkedRun idcodeValue start inputs time).error := by
  refine eq_start_of_step (q := fun time ↦ (parkedRun idcodeValue start inputs time).error) hle
    fun cycle hcycle hlt hsame ↦ ?_
  rw [parkedRun_error_succ hscan (by omega), if_pos (hsame ▸ herror), hsame]

omit hother in
/-- A module that has become idle stays so. -/
theorem parkedRun_idle {time later : ℕ} (hle : time ≤ later) (hlater : later ≤ update + 1)
    (hidle : (parkedRun idcodeValue start inputs time).state = .idle) :
    (parkedRun idcodeValue start inputs later).state = .idle := by
  induction later, hle using Nat.le_induction with
  | base => exact hidle
  | succ later hle ih =>
    exact (state_next_of_undirected idcodeValue
      (parkedRun_undirected hscan.trst (by omega))).mpr (Or.inl (ih (by omega)))

omit hother in
/-- From a state without an error, an error comes with the end of the transaction. -/
theorem parkedRun_idle_of_error (hstart : start.error = .noError) {time : ℕ}
    (hle : time ≤ update + 1)
    (herror : (parkedRun idcodeValue start inputs time).error ≠ .noError) :
    (parkedRun idcodeValue start inputs time).state = .idle := by
  induction time with
  | zero => exact absurd hstart herror
  | succ time ih =>
    have hcycle : Undirected (parkedRun idcodeValue start inputs time) (idling inputs time) :=
      parkedRun_undirected hscan.trst (by omega)
    refine (state_next_of_undirected idcodeValue hcycle).mpr ?_
    rw [parkedRun_error_succ hscan (by omega)] at herror
    split_ifs at herror with hbefore hfailed hbusy
    · exact Or.inl (ih (by omega) hbefore)
    · exact Or.inr (Bool.and_eq_true_iff.mp hfailed).1
    · exact Or.inr (Bool.and_eq_true_iff.mp hbusy).1
    · exact absurd rfl herror

/-- Without an overlap the errors stay the same. -/
theorem error_eq_of_no_overlap {time later : ℕ} (hle : time ≤ later) (hlater : later ≤ update + 1)
    (hnone : ∀ cycle, time ≤ cycle → cycle < later →
      (runFrom idcodeValue start inputs cycle).overlaps = false)
    (hsame : (runFrom idcodeValue start inputs time).error =
      (parkedRun idcodeValue start inputs time).error) :
    (runFrom idcodeValue start inputs later).error =
      (parkedRun idcodeValue start inputs later).error := by
  induction later, hle using Nat.le_induction with
  | base => exact hsame
  | succ later hle ih =>
    have hbefore := ih (by omega) fun cycle hcycle hlt ↦ hnone cycle hcycle (by omega)
    rw [scan_error_succ hscan hother (by omega), parkedRun_error_succ hscan (by omega), hbefore,
      hnone later hle (by omega), Bool.or_false]

/-- The Update-DR raises no error of its own when the module is idle, or when the response of the
same cycle reports an error. -/
theorem error_after_update (hstart : start.error = .noError)
    (hsame : (runFrom idcodeValue start inputs update).error =
      (parkedRun idcodeValue start inputs update).error) :
    (runFrom idcodeValue start inputs (update + 1)).error =
        (parkedRun idcodeValue start inputs (update + 1)).error ↔
      (parkedRun idcodeValue start inputs update).state = .idle ∨
        answersError (parkedRun idcodeValue start inputs update) (inputs update) = true := by
  have horder := hscan.order
  have hstate := (sameTransaction hscan hother (show update ≤ update + 1 by omega)).state
  have hoverlaps : (runFrom idcodeValue start inputs update).overlaps = true ↔
      (parkedRun idcodeValue start inputs update).state ≠ .idle := by
    rw [hscan.overlaps le_rfl, hstate]
    simp [horder.ne']
  by_cases hidle : (parkedRun idcodeValue start inputs update).state = .idle
  · have hnone : (runFrom idcodeValue start inputs update).overlaps = false := by
      rw [Bool.eq_false_iff]
      exact fun hset ↦ hoverlaps.mp hset hidle
    rw [scan_error_succ hscan hother le_rfl, parkedRun_error_succ hscan le_rfl, hsame, hnone,
      Bool.or_false]
    exact ⟨fun _ ↦ Or.inl hidle, fun _ ↦ rfl⟩
  · have herror : (parkedRun idcodeValue start inputs update).error = .noError := by
      by_contra herror
      exact hidle (parkedRun_idle_of_error hscan hstart (by omega) herror)
    rw [scan_error_succ hscan hother le_rfl, parkedRun_error_succ hscan le_rfl, hsame, herror,
      hoverlaps.mpr hidle, answersError]
    cases answersFailed (parkedRun idcodeValue start inputs update) (inputs update) <;>
      cases answersBusy (parkedRun idcodeValue start inputs update) (inputs update) <;>
        simp [hidle]

/-- Before its Capture-DR a scan raises no error of its own. -/
theorem error_at_capture :
    (runFrom idcodeValue start inputs capture).error =
      (parkedRun idcodeValue start inputs capture).error := by
  have horder := hscan.order
  refine error_eq_of_no_overlap hscan hother (Nat.zero_le capture) (by omega)
    (fun cycle _ hlt ↦ ?_) rfl
  rw [Bool.eq_false_iff, ne_eq, hscan.overlaps (by omega)]
  rintro (⟨htime, -⟩ | ⟨htime, -⟩) <;> omega

omit hother in
/-- The Capture-DR overlaps an outstanding read. -/
theorem overlaps_at_capture :
    (runFrom idcodeValue start inputs capture).overlaps =
      (runFrom idcodeValue start inputs capture).reading := by
  have horder := hscan.order
  rw [Bool.eq_iff_iff, hscan.overlaps (by omega)]
  simp [horder.ne]

theorem reading_eq {time : ℕ} (hle : time ≤ update + 1) :
    (runFrom idcodeValue start inputs time).reading =
      (parkedRun idcodeValue start inputs time).reading := by
  rw [Regs.reading, Regs.reading, (sameTransaction hscan hother hle).state]

/-- The Capture-DR raises no error of its own when no read is outstanding, or when the response of
the same cycle reports an error. -/
theorem error_after_capture
    (hharmless : (parkedRun idcodeValue start inputs capture).reading = false ∨
      answersError (parkedRun idcodeValue start inputs capture) (inputs capture) = true) :
    (runFrom idcodeValue start inputs (capture + 1)).error =
      (parkedRun idcodeValue start inputs (capture + 1)).error := by
  have horder := hscan.order
  rw [scan_error_succ hscan hother (by omega), parkedRun_error_succ hscan (by omega),
    error_at_capture hscan hother, overlaps_at_capture hscan, reading_eq hscan hother (by omega)]
  rcases hharmless with hreading | hanswers
  · rw [hreading, Bool.or_false]
  · -- The error of the response is raised in both runs, and hides that of the overlap.
    rw [answersError] at hanswers
    cases hfailed : answersFailed (parkedRun idcodeValue start inputs capture) (inputs capture) with
    | true => rfl
    | false =>
      rw [hfailed, Bool.false_or] at hanswers
      rw [hanswers, Bool.true_or]

/-- Otherwise it raises the busy error. -/
theorem busy_after_capture (hstart : start.error = .noError)
    (hreading : (parkedRun idcodeValue start inputs capture).reading = true)
    (hanswers : answersError (parkedRun idcodeValue start inputs capture) (inputs capture) =
      false) :
    (runFrom idcodeValue start inputs (capture + 1)).error = .busy ∧
      (parkedRun idcodeValue start inputs (capture + 1)).error = .noError := by
  have horder := hscan.order
  have herror : (parkedRun idcodeValue start inputs capture).error = .noError := by
    by_contra herror
    have hidle := parkedRun_idle_of_error hscan hstart (by omega) herror
    rw [Regs.reading, hidle] at hreading
    exact Bool.false_ne_true hreading
  obtain ⟨hfailed, hbusy⟩ := Bool.or_eq_false_iff.mp hanswers
  rw [scan_error_succ hscan hother (by omega), parkedRun_error_succ hscan (by omega),
    error_at_capture hscan hother, overlaps_at_capture hscan, reading_eq hscan hother (by omega),
    herror, hfailed, hbusy, hreading]
  exact ⟨rfl, rfl⟩

omit hother in
/-- From a cycle without an error, the error at the end of a stretch is the busy one when an answer
has been busy. -/
theorem parkedRun_busy_iff (hstart : start.error = .noError) {time : ℕ}
    (hle : time ≤ update + 1)
    (hnone : (parkedRun idcodeValue start inputs time).error = .noError) :
    (parkedRun idcodeValue start inputs (update + 1)).error = .busy ↔
      ∃ later, time ≤ later ∧ later ≤ update ∧
        answersBusy (parkedRun idcodeValue start inputs later) (inputs later) = true := by
  constructor
  · intro herror
    by_contra hnever
    push Not at hnever
    -- Without a busy answer the error is never the busy one.
    have hother : ∀ later, time ≤ later → later ≤ update + 1 →
        (parkedRun idcodeValue start inputs later).error ≠ .busy := by
      intro later hlater
      induction later, hlater using Nat.le_induction with
      | base => exact fun _ ↦ by rw [hnone]; decide
      | succ later hlater ih =>
        intro hend
        rw [parkedRun_error_succ hscan (by omega),
          if_neg (hnever later hlater (by omega))]
        split_ifs
        · exact ih (by omega)
        · decide
        · decide
    exact hother (update + 1) hle le_rfl herror
  · rintro ⟨later, -, hend, hbusy⟩
    obtain ⟨hanswers, -⟩ := Bool.and_eq_true_iff.mp hbusy
    have herror : (parkedRun idcodeValue start inputs later).error = .noError := by
      by_contra herror
      have hidle := parkedRun_idle_of_error hscan hstart (by omega) herror
      rw [answers, hidle] at hanswers
      exact Bool.false_ne_true hanswers
    have hfailed :
        answersFailed (parkedRun idcodeValue start inputs later) (inputs later) = false :=
      not_answersFailed_of_busy hbusy
    have hafter : (parkedRun idcodeValue start inputs (later + 1)).error = .busy := by
      rw [parkedRun_error_succ hscan hend, herror, hfailed, hbusy]
      rfl
    rw [parkedRun_error_sticks hscan (show later + 1 ≤ update + 1 by omega) le_rfl
      (by rw [hafter]; decide), hafter]

omit hother in
/-- A busy answer ends the transaction. -/
theorem ended_of_answersBusy {time : ℕ} (hle : time ≤ update)
    (hbusy : answersBusy (parkedRun idcodeValue start inputs time) (inputs time) = true) :
    (parkedRun idcodeValue start inputs update).state = .idle ∨
      answersError (parkedRun idcodeValue start inputs update) (inputs update) = true := by
  rcases Nat.lt_or_eq_of_le hle with hlt | rfl
  · have hcycle : Undirected (parkedRun idcodeValue start inputs time) (idling inputs time) :=
      parkedRun_undirected hscan.trst hle
    have hended : (parkedRun idcodeValue start inputs (time + 1)).state = .idle :=
      (state_next_of_undirected idcodeValue hcycle).mpr
        (Or.inr (Bool.and_eq_true_iff.mp hbusy).1)
    exact Or.inl (parkedRun_idle hscan (show time + 1 ≤ update by omega) (by omega) hended)
  · exact Or.inr (by rw [answersError, hbusy, Bool.or_true])

/-- The two runs end alike when they end with the same error. -/
theorem transaction_eq_iff :
    (runFrom idcodeValue start inputs (update + 1)).transaction =
        (parkedRun idcodeValue start inputs (update + 1)).transaction ↔
      (runFrom idcodeValue start inputs (update + 1)).error =
        (parkedRun idcodeValue start inputs (update + 1)).error := by
  obtain ⟨hstate, haddress, hdata⟩ := sameTransaction hscan hother (le_refl (update + 1))
  constructor
  · intro hsame
    exact congrArg Transaction.error hsame
  · intro herror
    rw [Regs.transaction, Regs.transaction, hstate, haddress, hdata, herror]

/-- Between the Capture-DR and the Update-DR a scan raises no error of its own. -/
theorem error_at_update
    (hsame : (runFrom idcodeValue start inputs (capture + 1)).error =
      (parkedRun idcodeValue start inputs (capture + 1)).error) :
    (runFrom idcodeValue start inputs update).error =
      (parkedRun idcodeValue start inputs update).error := by
  have horder := hscan.order
  refine error_eq_of_no_overlap hscan hother (show capture + 1 ≤ update by omega) (by omega)
    (fun cycle hafter hlt ↦ ?_) hsame
  rw [Bool.eq_false_iff, ne_eq, hscan.overlaps (by omega)]
  rintro (⟨htime, -⟩ | ⟨htime, -⟩) <;> omega

/-- A scan of another register leaves the transaction as Run-Test/Idle does in exactly the cases in
which an error sticks already, or neither strobe of the scan raises one that the answer to the
transaction does not raise anyway: the Capture-DR meets no outstanding read, and the Update-DR no
outstanding transaction. -/
theorem undisturbed_iff :
    (runFrom idcodeValue start inputs (update + 1)).transaction =
        (parkedRun idcodeValue start inputs (update + 1)).transaction ↔
      start.error ≠ .noError ∨
        ((parkedRun idcodeValue start inputs capture).reading = false ∨
          answersError (parkedRun idcodeValue start inputs capture) (inputs capture) = true ∨
            ∃ later, capture < later ∧ later ≤ update ∧
              answersBusy (parkedRun idcodeValue start inputs later) (inputs later) = true) ∧
        ((parkedRun idcodeValue start inputs update).state = .idle ∨
          answersError (parkedRun idcodeValue start inputs update) (inputs update) = true) := by
  have horder := hscan.order
  rw [transaction_eq_iff hscan hother]
  by_cases hstart : start.error = .noError
  · by_cases hharmless : (parkedRun idcodeValue start inputs capture).reading = false ∨
        answersError (parkedRun idcodeValue start inputs capture) (inputs capture) = true
    · have hsame := error_at_update hscan hother (error_after_capture hscan hother hharmless)
      rw [error_after_update hscan hother hstart hsame]
      constructor
      · intro hupdate
        exact Or.inr ⟨hharmless.imp id Or.inl, hupdate⟩
      · rintro (hsticky | ⟨-, hupdate⟩)
        · exact absurd hstart hsticky
        · exact hupdate
    · -- The Capture-DR raises the busy error, which the other run must raise by an answer.
      rw [not_or, Bool.not_eq_false, Bool.not_eq_true] at hharmless
      obtain ⟨hreading, hanswers⟩ := hharmless
      obtain ⟨hbusy, hnone⟩ := busy_after_capture hscan hother hstart hreading hanswers
      have hend : (runFrom idcodeValue start inputs (update + 1)).error = .busy := by
        rw [scan_error_sticks hscan hother (show capture + 1 ≤ update + 1 by omega) le_rfl
          (by rw [hbusy]; decide), hbusy]
      rw [hend, eq_comm, parkedRun_busy_iff hscan hstart (by omega) hnone]
      constructor
      · rintro ⟨later, hafter, hle, hanswer⟩
        exact Or.inr ⟨Or.inr (Or.inr ⟨later, hafter, hle, hanswer⟩),
          ended_of_answersBusy hscan hle hanswer⟩
      · rintro (hsticky | ⟨hreads | hanswered | hlater, -⟩)
        · exact absurd hstart hsticky
        · rw [hreading] at hreads
          exact absurd hreads.symm Bool.false_ne_true
        · rw [hanswers] at hanswered
          exact absurd hanswered Bool.false_ne_true
        · exact hlater
  · rw [scan_error_sticks hscan hother (Nat.zero_le (update + 1)) le_rfl hstart,
      parkedRun_error_sticks hscan (Nat.zero_le (update + 1)) le_rfl hstart]
    exact ⟨fun _ ↦ Or.inl hstart, fun _ ↦ rfl⟩

end Compare

end Runs

/-! ### A scan of BYPASS -/

/-- The pins of a session up to Run-Test/Idle: a scan of a read, and an instruction scan of
BYPASS. -/
def bypassSession : List DmiJtagTap.Inputs :=
  readSession.take 57 ++ [⟨true, false⟩, ⟨true, false⟩, ⟨false, false⟩, ⟨false, false⟩] ++
    [⟨false, true⟩, ⟨false, true⟩, ⟨false, true⟩, ⟨false, true⟩, ⟨true, true⟩] ++
    [⟨true, false⟩, ⟨false, false⟩]

/-- The pins of a scan of one bit. -/
def bitScan : List DmiJtagTap.Inputs :=
  [⟨true, false⟩, ⟨false, false⟩, ⟨false, false⟩, ⟨true, false⟩, ⟨true, false⟩, ⟨false, false⟩]

/-- The debug module takes a request at once. It answers the read with success when `responds`
says so, or not yet. -/
def drive (responds : Bool) (pins : List DmiJtagTap.Inputs) (time : ℕ) : Inputs where
  trst := false
  pins := pins.getD time ⟨false, false⟩
  reqReady := true
  respValid := responds
  resp := ⟨0, dtmSuccess⟩

/-- The state before the scan of BYPASS. -/
def beforeBypass (responds : Bool) : Regs := run 0xdb3 (drive responds bypassSession) 68

theorem bypass_scan (responds : Bool) :
    DrScan 0xdb3 (beforeBypass responds) (drive responds bitScan) 2 5 := by
  have hbetween : ∀ time < 5, 2 < time →
      (runFrom 0xdb3 (beforeBypass responds) (drive responds bitScan) time).tap.tapState ∈
        [TapState.shiftDr, TapState.exit1Dr, TapState.pauseDr, TapState.exit2Dr] := by
    cases responds <;> decide +kernel
  cases responds <;>
    exact ⟨by decide +kernel, by decide +kernel, by decide,
      fun time hafter hlt ↦ hbetween time hlt hafter, by decide +kernel, fun _ _ ↦ rfl⟩

theorem bypass_scansOther (responds : Bool) :
    ScansOther 0xdb3 (beforeBypass responds) (drive responds bitScan) 5 := by
  have hir : (beforeBypass responds).tap.ir = bypass1 := by
    cases responds <;> decide +kernel
  constructor
  · rw [hir]
    decide
  · intro hselected
    rw [hir] at hselected
    exact absurd hselected (by decide)

/-- When the read has been answered before, the scan leaves the transaction alone. -/
theorem answeredRead_undisturbed :
    (runFrom 0xdb3 (beforeBypass true) (drive true bitScan) 6).transaction =
      (parkedRun 0xdb3 (beforeBypass true) (drive true bitScan) 6).transaction :=
  (undisturbed_iff (bypass_scan true) (bypass_scansOther true)).mpr
    (Or.inr ⟨Or.inl (by decide +kernel), Or.inl (by decide +kernel)⟩)

/-- When it has not, the scan of BYPASS leaves the busy error behind. -/
theorem outstandingRead_disturbed :
    ¬ ∀ (start : Regs) (inputs : ℕ → Inputs) (capture update : ℕ),
      (machine 0xdb3).Reachable start → DrScan 0xdb3 start inputs capture update →
        ScansOther 0xdb3 start inputs update →
          (runFrom 0xdb3 start inputs (update + 1)).transaction =
            (parkedRun 0xdb3 start inputs (update + 1)).transaction := by
  intro hundisturbed
  have hsame := hundisturbed (beforeBypass false) (drive false bitScan) 2 5
    ((machine 0xdb3).reachable_states (drive false bypassSession) 68) (bypass_scan false)
    (bypass_scansOther false)
  revert hsame
  decide +kernel

end RiscvDebug.DmiJtag
