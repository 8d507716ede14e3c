import RiscvDebug.DebugModule.BusyAnswers
import RiscvDebug.Jtag.DmiLink
import RiscvDebug.Jtag.OtherScans

/-!
# Reads and their data

The Capture-DR that follows the scan of a read shows the busy error, or the data that `dm_csrs` has
put into the answer to that very read. One thing comes between: a read that `dm_csrs` answers busy
leaves the marker of a busy answer in the data register, and a `dmireset` takes the error away that
says so (`paired`).
-/

set_option autoImplicit false
set_option relaxedAutoImplicit false

namespace RiscvDebug.DmiJtag

open Foundations DmiJtagTap

/-! ### Cycles without a scan of `dmi` -/

section Cycle

variable (idcodeValue : BitVec 32) {r : Regs} {i : Inputs}

theorem ofBits_bits (dmi : Dmi) : Dmi.ofBits dmi.bits = dmi := by
  have haddress : (dmi.address ++ dmi.data ++ dmi.op).extractLsb' 34 7 = dmi.address := by
    rw [BitVec.extractLsb'_append_eq_of_le (by decide)]
    exact BitVec.extractLsb'_append_eq_left
  have hdata : (dmi.address ++ dmi.data ++ dmi.op).extractLsb' 2 32 = dmi.data := by
    rw [BitVec.extractLsb'_append_eq_of_le (by decide)]
    exact BitVec.extractLsb'_append_eq_right
  have hop : (dmi.address ++ dmi.data ++ dmi.op).extractLsb' 0 2 = dmi.op :=
    BitVec.extractLsb'_append_eq_right
  rw [Dmi.ofBits, Dmi.bits, haddress, hdata, hop]

/-- A scan of the register `dmi` is past its Capture-DR. -/
def Regs.scansDmi (r : Regs) : Bool :=
  r.tap.dmiSelect &&
    decide (r.tap.tapState ∈
      [TapState.shiftDr, .exit1Dr, .pauseDr, .exit2Dr, .updateDr])

theorem updatesDmi_of_not_scansDmi (hscans : r.scansDmi = false) : r.updatesDmi = false := by
  rw [Bool.eq_false_iff] at hscans ⊢
  intro hupdates
  obtain ⟨hupdate, hselect⟩ := Bool.and_eq_true_iff.mp hupdates
  refine hscans (Bool.and_eq_true_iff.mpr ⟨hselect, ?_⟩)
  rw [eq_of_beq hupdate]
  rfl

theorem next_tap (htrst : i.trst = false) :
    (next r i idcodeValue).tap = DmiJtagTap.next idcodeValue r.tap i.pins := by
  rw [next, htrst, if_neg Bool.false_ne_true]

/-- The states after a Capture-DR come from it or from each other. -/
theorem mem_of_next_mem {tms : Bool} {state : TapState}
    (hnext : state.next tms ∈ [TapState.shiftDr, .exit1Dr, .pauseDr, .exit2Dr, .updateDr]) :
    state = .captureDr ∨ state ∈ [TapState.shiftDr, .exit1Dr, .pauseDr, .exit2Dr] := by
  revert hnext
  cases state <;> cases tms <;> decide

/-- A scan of the register `dmi` begins with its Capture-DR. -/
theorem scansDmi_next (htrst : i.trst = false) (hscans : r.scansDmi = false)
    (hcaptures : r.capturesDmi = false) : (next r i idcodeValue).scansDmi = false := by
  rw [Bool.eq_false_iff] at hscans hcaptures ⊢
  intro hnext
  rw [Regs.scansDmi, next_tap idcodeValue htrst] at hnext
  obtain ⟨hselect, hmem⟩ := Bool.and_eq_true_iff.mp hnext
  have hstate := mem_of_next_mem (of_decide_eq_true hmem)
  have hir : irNext r.tap = r.tap.ir := by
    rw [irNext, DmiJtagTap.Regs.testLogicReset, DmiJtagTap.Regs.updateIr]
    rcases hstate with heq | hshifts
    · rw [heq]
      rfl
    · simp only [List.mem_cons, List.not_mem_nil, or_false] at hshifts
      rcases hshifts with heq | heq | heq | heq <;> rw [heq] <;> rfl
  have hselected : r.tap.dmiSelect = true := by
    rw [DmiJtagTap.Regs.dmiSelect, ← hir]
    exact hselect
  rcases hstate with heq | hshifts
  · refine hcaptures (Bool.and_eq_true_iff.mpr ⟨?_, hselected⟩)
    rw [DmiJtagTap.Regs.captureDr, heq]
    rfl
  · refine hscans (Bool.and_eq_true_iff.mpr ⟨hselected, decide_eq_true ?_⟩)
    exact List.mem_append_left [TapState.updateDr] hshifts

/-- It ends with its Update-DR. -/
theorem scansDmi_next_of_updates (hupdates : r.updatesDmi = true) (htrst : i.trst = false) :
    (next r i idcodeValue).scansDmi = false := by
  obtain ⟨hupdate, -⟩ := Bool.and_eq_true_iff.mp hupdates
  rw [Regs.scansDmi, next_tap idcodeValue htrst, DmiJtagTap.next, eq_of_beq hupdate]
  cases i.pins.tms <;> exact Bool.and_false _

/-- The error without an answer that reports a failed operation. -/
theorem error_next_mem (hresets : resets r i = false) (hfailed : answersFailed r i = false)
    (herror : r.error = .noError ∨ r.error = .busy) :
    (next r i idcodeValue).error = .noError ∨ (next r i idcodeValue).error = .busy := by
  obtain ⟨htrst, hclear⟩ := Bool.or_eq_false_iff.mp hresets
  rw [next_error idcodeValue htrst, errorNext, hclear, if_neg Bool.false_ne_true,
    fsm_errorDmiOpFailed, (stateBranch_errors r i).2, hfailed]
  split_ifs <;> simp_all

/-- A busy answer leaves the busy error, unless a `dmireset` clears it at once. -/
theorem error_next_of_busy (hresets : resets r i = false) (hbusy : answersBusy r i = true)
    (herror : r.error = .noError ∨ r.error = .busy) :
    r.clearsError = true ∨ (next r i idcodeValue).error = .busy := by
  cases hclears : r.clearsError with
  | true => exact Or.inl rfl
  | false =>
    right
    rcases herror with hnone | hsticky
    · rw [error_next idcodeValue hresets hclears, hnone, not_answersFailed_of_busy hbusy, hbusy]
      rfl
    · rw [error_of_sticky idcodeValue hresets hclears (by rw [hsticky]; decide), hsticky]

/-- An idle module without a scan of `dmi` keeps its data. -/
theorem data_next_of_idle (hresets : resets r i = false) (hidle : r.state = .idle)
    (hupdates : r.updatesDmi = false) : (next r i idcodeValue).data = r.data := by
  rw [(next_of_branch idcodeValue hresets).2.2, stateBranch_of_idle hidle, idleBranch_eq, hupdates,
    if_neg fun hboth ↦ Bool.false_ne_true hboth.1]
  rfl

/-- What the answer to a read leaves in the data register, when it is a success or busy. -/
theorem data_next_of_answer (hresets : resets r i = false) (hwait : r.state = .waitReadValid)
    (hvalid : i.respValid = true) :
    (next r i idcodeValue).data =
      if i.resp.resp = dtmSuccess then i.resp.data
      else if i.resp.resp = dtmErr then 0xDEADBEEF
      else if i.resp.resp = dtmBusy then 0xB051B051
      else 0xBAADC0DE := by
  rw [(next_of_branch idcodeValue hresets).2.2, stateBranch, hwait]
  show (waitReadBranch r i).data = _
  rw [waitReadBranch, hvalid, if_pos rfl]
  split_ifs <;> rfl

/-- A Capture-DR that overlaps a read shows the busy error. -/
theorem captured_of_reading (htrst : i.trst = false) (hcaptures : r.capturesDmi = true)
    (hreading : r.reading = true) :
    (Dmi.ofBits (next r i idcodeValue).dr).op = DmiError.busy.bits := by
  have hbusy : errorDmiBusy r i = true := by
    rw [errorDmiBusy, dmiClear_of_capturesDmi hcaptures, fsm_errorDmiBusy, hreading,
      (Bool.and_eq_true_iff.mp hcaptures).1]
    simp
  rw [next_dr idcodeValue htrst, drNext_of_captures hcaptures, hbusy,
    if_neg fun hboth ↦ Bool.false_ne_true hboth.2.symm, if_pos (Or.inr rfl), op_bits]

/-- In an idle module it shows the data register, or the busy error. -/
theorem captured_of_idle (htrst : i.trst = false) (hcaptures : r.capturesDmi = true)
    (hidle : r.state = .idle) (herror : r.error = .noError ∨ r.error = .busy) :
    r.error = .busy ∧ (Dmi.ofBits (next r i idcodeValue).dr).op = DmiError.busy.bits ∨
      r.error = .noError ∧ Dmi.ofBits (next r i idcodeValue).dr =
        ⟨r.address, r.data, DmiError.noError.bits⟩ := by
  have hbusy := errorDmiBusy_of_idle (i := i) hcaptures hidle
  rw [next_dr idcodeValue htrst, drNext_of_captures hcaptures, hbusy]
  rcases herror with hnone | hsticky
  · exact Or.inr ⟨hnone, by rw [if_pos ⟨hnone, rfl⟩, ofBits_bits]⟩
  · refine Or.inl ⟨hsticky, ?_⟩
    rw [hsticky, if_neg (by decide), if_pos (Or.inl rfl), op_bits]

end Cycle

end RiscvDebug.DmiJtag

namespace RiscvDebug.DmiLink

open Foundations DmiJtag

variable {cfg : Config}

/-! ### Reads -/

section Definitions

variable (link : Link cfg)

/-- A Capture-DR of the register `dmi`. -/
def captures : Event cfg → Bool
  | .tck _ _ _ => link.jtag.capturesDmi
  | .clk _ _ _ => false

/-- A `dmireset`. -/
def clears : Event cfg → Bool
  | .tck _ _ _ => link.jtag.clearsError
  | .clk _ _ _ => false

/-- The channel takes the request that the transport module offers. -/
def takesRequest : Event cfg → Bool
  | .tck pins takes gives => accepts link.jtag (jtagInputs link pins takes gives)
  | .clk _ _ _ => false

/-- What `dm_csrs` computes for the request that it accepts. -/
def answer : Event cfg → DmiResp
  | .tck _ _ _ => ⟨0, dtmSuccess⟩
  | .clk environment gives takes =>
    (DmCsrs.csrReadWrite link.csrs (csrsInputs link environment gives takes)).resp

variable (idcodeValue : BitVec 32) (start : Link cfg) (events : ℕ → Event cfg)

/-- What a Capture-DR has loaded. -/
def loaded (time : ℕ) : Dmi := Dmi.ofBits (run idcodeValue start events (time + 1)).jtag.dr

/-- The first Capture-DR of the register `dmi` after the scan of a read. -/
structure FirstCapture (scan capture : ℕ) (request : DmiReq) : Prop where
  issued : issuedAt idcodeValue start events scan = [request]
  reads : request.op = dtmRead
  order : scan < capture
  captures : captures (run idcodeValue start events capture) (events capture) = true
  first : ∀ time, scan < time → time < capture →
    DmiLink.captures (run idcodeValue start events time) (events time) = false

/-- `dm_csrs` accepts the request of a scan: it has accepted those issued before, and no other. -/
structure AcceptedAt (scan acceptance : ℕ) (request : DmiReq) : Prop where
  order : scan < acceptance
  delivered : deliveredAt idcodeValue start events acceptance = [request]
  earlier : history (deliveredAt idcodeValue start events) acceptance =
    history (issuedAt idcodeValue start events) scan

/-- The answer to the request that `dm_csrs` accepts at an edge of the run. -/
def answerAt (time : ℕ) : DmiResp := answer (run idcodeValue start events time) (events time)

/-- A `dmireset` at an edge of a stretch of the run. -/
def ClearedBetween (first last : ℕ) : Prop :=
  ∃ time, first < time ∧ time < last ∧
    clears (run idcodeValue start events time) (events time) = true

/-- Each channel hands on what it holds in the end, and the clocks go on. -/
structure Fair : Prop where
  tck : ∀ time, ∃ later, time ≤ later ∧ ∃ pins gives, events later = .tck pins true gives
  clk : ∀ time, ∃ later, time ≤ later ∧
    ∃ environment takes, events later = .clk environment true takes

end Definitions

/-! ### From the scan of a read to the Capture-DR -/

section Served

variable (idcodeValue : BitVec 32) (start : Link cfg) (events : ℕ → Event cfg)

/-- What an answer has left in an idle transport module. -/
structure Answered (acceptance time : ℕ) : Prop where
  idle : stages idcodeValue start events time = .idle
  data : (run idcodeValue start events time).jtag.data =
    if (answerAt idcodeValue start events acceptance).resp = dtmSuccess then
      (answerAt idcodeValue start events acceptance).data
    else 0xB051B051
  busy : (answerAt idcodeValue start events acceptance).resp = dtmBusy →
    (run idcodeValue start events time).jtag.error = .busy ∨
      ClearedBetween idcodeValue start events acceptance time

/-- The request has been accepted. -/
def Accepted (scan time : ℕ) (request : DmiReq) : Prop :=
  ∃ acceptance, AcceptedAt idcodeValue start events scan acceptance request ∧ acceptance < time ∧
    (stages idcodeValue start events time =
        .queued request (answerAt idcodeValue start events acceptance) ∨
      stages idcodeValue start events time =
        .returned request (answerAt idcodeValue start events acceptance) ∨
      Answered idcodeValue start events acceptance time)

/-- What holds after the scan of a read, up to the next Capture-DR of the register `dmi`. -/
structure Served (scan time : ℕ) (request : DmiReq) : Prop where
  order : scan < time
  issuedOnce : history (issuedAt idcodeValue start events) time =
    history (issuedAt idcodeValue start events) scan ++ [request]
  unscanned : (run idcodeValue start events time).jtag.scansDmi = false
  error : (run idcodeValue start events time).jtag.error = .noError ∨
    (run idcodeValue start events time).jtag.error = .busy
  progress : stages idcodeValue start events time = .offered request ∨
    stages idcodeValue start events time = .sent request ∨
      Accepted idcodeValue start events scan time request

end Served

/-! ### One edge after the scan of a read -/

section Edges

variable {idcodeValue : BitVec 32} {start : Link cfg} {events : ℕ → Event cfg} {scan time : ℕ}
  {request : DmiReq}

theorem jtag_succ_tck {pins : DmiJtagTap.Inputs} {takes gives : Bool}
    (hevent : events time = .tck pins takes gives) :
    (run idcodeValue start events (time + 1)).jtag =
      DmiJtag.next (run idcodeValue start events time).jtag
        (jtagInputs (run idcodeValue start events time) pins takes gives) idcodeValue := by
  rw [run, hevent]
  rfl

theorem jtag_succ_clk {environment : DmCsrs.Inputs cfg} {gives takes : Bool}
    (hevent : events time = .clk environment gives takes) :
    (run idcodeValue start events (time + 1)).jtag = (run idcodeValue start events time).jtag := by
  rw [run, hevent]
  rfl

theorem stages_succ (time : ℕ) :
    stages idcodeValue start events (time + 1) =
      (stages idcodeValue start events time).next (run idcodeValue start events time)
        (events time) := rfl

theorem Stage.eq_idle {stage : Stage} (hstate : stage.state = .idle) : stage = .idle := by
  cases stage with
  | idle => rfl
  | offered request | sent request | queued request response | returned request response =>
    rw [Stage.state] at hstate
    split_ifs at hstate

/-- `dm_csrs` answers with success or busy. -/
theorem answerAt_resp (idcodeValue : BitVec 32) (start : Link cfg) (events : ℕ → Event cfg)
    (time : ℕ) :
    (answerAt idcodeValue start events time).resp = dtmSuccess ∨
      (answerAt idcodeValue start events time).resp = dtmBusy := by
  unfold answerAt answer
  cases events time with
  | tck pins takes gives => exact Or.inl rfl
  | clk environment gives takes =>
    show (DmCsrs.csrReadWrite _ _).resp.resp = _ ∨ (DmCsrs.csrReadWrite _ _).resp.resp = _
    rw [DmCsrs.resp_eq]
    split_ifs
    · exact Or.inr rfl
    · exact Or.inl rfl

/-- A request is issued at an edge of TCK. -/
theorem exists_starts_of_issued {link : Link cfg} {event : Event cfg}
    (hissued : issued link event = [request]) :
    ∃ pins takes gives, event = .tck pins takes gives ∧
      starts link.jtag (jtagInputs link pins takes gives) = true := by
  cases event with
  | tck pins takes gives =>
    refine ⟨pins, takes, gives, rfl, ?_⟩
    rw [issued_tck] at hissued
    by_contra hnot
    rw [if_neg hnot] at hissued
    exact (List.cons_ne_nil _ _).symm hissued
  | clk environment gives takes => exact absurd hissued (List.cons_ne_nil _ _).symm

/-- A request is issued by an Update-DR of the register `dmi`. -/
theorem issued_of_not_updates {link : Link cfg} (hupdates : link.jtag.updatesDmi = false)
    (event : Event cfg) : issued link event = [] := by
  cases event with
  | tck pins takes gives => simp [issued, operates, hupdates]
  | clk environment gives takes => rfl

theorem ClearedBetween.succ (hcleared : ClearedBetween idcodeValue start events scan time) :
    ClearedBetween idcodeValue start events scan (time + 1) := by
  obtain ⟨cleared, hafter, hbefore, hclears⟩ := hcleared
  exact ⟨cleared, hafter, by omega, hclears⟩

/-- Only a response that has returned answers the transport module. -/
theorem At.answers_eq {link : Link cfg} {stage : Stage} (hat : At link stage)
    (pins : DmiJtagTap.Inputs) (takes gives : Bool)
    (hanswers : answers link.jtag (jtagInputs link pins takes gives) = true) :
    ∃ request response, stage = .returned request response ∧ gives = true ∧
      (jtagInputs link pins takes gives).resp = response := by
  obtain ⟨-, -, hresponse⟩ := Link.contents_eq.mp hat.contents
  obtain ⟨-, hvalid⟩ := Bool.and_eq_true_iff.mp hanswers
  obtain ⟨hgives, hsome⟩ := Bool.and_eq_true_iff.mp hvalid
  rw [hresponse] at hsome
  cases stage with
  | idle | offered request | sent request | queued request response =>
    exact absurd hsome Bool.false_ne_true
  | returned request response =>
    refine ⟨request, response, rfl, hgives, ?_⟩
    rw [jtagInputs, hresponse]
    rfl

section Served

variable (hidle : At start .idle) (hclear : NoClear idcodeValue start events)
include hidle hclear

/-- The module offers a request that has been issued. -/
theorem offered_of_issued (hissued : issuedAt idcodeValue start events scan = [request]) :
    stages idcodeValue start events (scan + 1) = .offered request := by
  have hat := stage_run hidle hclear scan
  have hone : issued (run idcodeValue start events scan) (events scan) = [request] := hissued
  have hstage : stages idcodeValue start events scan = .idle := by
    refine Stage.eq_idle ?_
    rw [← hat.state]
    by_contra hbusy
    rw [issued_of_ne_idle hbusy] at hone
    exact (List.cons_ne_nil _ _).symm hone
  obtain ⟨pins, takes, gives, hevent, -⟩ := exists_starts_of_issued hone
  rw [hevent] at hone
  rw [stages_succ, hstage, hevent, Stage.next, hone]

/-- The scan of a read. -/
theorem served_start (hissued : issuedAt idcodeValue start events scan = [request]) :
    Served idcodeValue start events scan (scan + 1) request := by
  obtain ⟨pins, takes, gives, hevent, hstarts⟩ := exists_starts_of_issued hissued
  obtain ⟨htrst, hstate, hnone, hoperates⟩ := starts_iff.mp hstarts
  have hresets : resets (run idcodeValue start events scan).jtag
      (jtagInputs (run idcodeValue start events scan) pins takes gives) = false := hclear scan
  have hfailed : answersFailed (run idcodeValue start events scan).jtag
      (jtagInputs (run idcodeValue start events scan) pins takes gives) = false := by
    rw [answersFailed, answers, hstate]
    rfl
  refine ⟨Nat.lt_succ_self scan, ?_, ?_, ?_, Or.inl (offered_of_issued hidle hclear hissued)⟩
  · rw [history_succ, hissued]
  · rw [jtag_succ_tck hevent]
    exact scansDmi_next_of_updates idcodeValue (Bool.and_eq_true_iff.mp hoperates).1 htrst
  · rw [jtag_succ_tck hevent]
    exact error_next_mem idcodeValue hresets hfailed (Or.inl hnone)

/-- No answer reports a failed operation. -/
theorem not_answersFailed (hserved : Served idcodeValue start events scan time request)
    (pins : DmiJtagTap.Inputs) (takes gives : Bool) :
    answersFailed (run idcodeValue start events time).jtag
      (jtagInputs (run idcodeValue start events time) pins takes gives) ≠ true := by
  intro hfailed
  obtain ⟨hanswers, hresp⟩ := Bool.and_eq_true_iff.mp hfailed
  obtain ⟨returned, response, hstage, -, hresponse⟩ :=
    (stage_run hidle hclear time).answers_eq pins takes gives hanswers
  have hstatus : response.resp = dtmErr := by
    rw [← hresponse]
    exact eq_of_beq hresp
  rcases hserved.progress with hoffered | hsent | ⟨acceptance, -, -, hphase⟩
  · exact nomatch hoffered.symm.trans hstage
  · exact nomatch hsent.symm.trans hstage
  · rcases hphase with hqueued | hreturned | hanswered
    · exact nomatch hqueued.symm.trans hstage
    · have hsame := hreturned.symm.trans hstage
      rw [Stage.returned.injEq] at hsame
      rcases answerAt_resp idcodeValue start events acceptance with hsuccess | hbusy
      · rw [hsame.2, hstatus] at hsuccess
        exact absurd hsuccess (by decide)
      · rw [hsame.2, hstatus] at hbusy
        exact absurd hbusy (by decide)
    · exact nomatch hanswered.idle.symm.trans hstage

/-- The answer ends the read. -/
theorem answered_of_returned {acceptance : ℕ} (hreads : request.op = dtmRead)
    (hlt : acceptance < time)
    (herror : (run idcodeValue start events time).jtag.error = .noError ∨
      (run idcodeValue start events time).jtag.error = .busy)
    (hreturned : stages idcodeValue start events time =
      .returned request (answerAt idcodeValue start events acceptance))
    {pins : DmiJtagTap.Inputs} {takes : Bool} (hevent : events time = .tck pins takes true) :
    Answered idcodeValue start events acceptance (time + 1) := by
  have hat := stage_run hidle hclear time
  rw [hreturned] at hat
  obtain ⟨-, -, hresponse⟩ := Link.contents_eq.mp hat.contents
  have hresets : resets (run idcodeValue start events time).jtag
      (jtagInputs (run idcodeValue start events time) pins takes true) = false := hclear time
  have hwait : (run idcodeValue start events time).jtag.state = .waitReadValid := by
    rw [hat.state, Stage.state, hreads]
    rfl
  have hvalid :
      (jtagInputs (run idcodeValue start events time) pins takes true).respValid = true := by
    rw [jtagInputs, hresponse]
    rfl
  have hresp : (jtagInputs (run idcodeValue start events time) pins takes true).resp =
      answerAt idcodeValue start events acceptance := by
    rw [jtagInputs, hresponse]
    rfl
  constructor
  · rw [stages_succ, hreturned, hevent]
    rfl
  · rw [jtag_succ_tck hevent, data_next_of_answer idcodeValue hresets hwait hvalid, hresp]
    rcases answerAt_resp idcodeValue start events acceptance with hsuccess | hbusy
    · rw [if_pos hsuccess, if_pos hsuccess]
    · rw [hbusy]
      rfl
  · intro hbusy
    have hanswers : answersBusy (run idcodeValue start events time).jtag
        (jtagInputs (run idcodeValue start events time) pins takes true) = true := by
      rw [answersBusy, answers, hwait, hvalid, hresp, hbusy]
      rfl
    rw [jtag_succ_tck hevent]
    rcases error_next_of_busy idcodeValue hresets hanswers herror with hclears | hsticky
    · exact Or.inr ⟨time, hlt, Nat.lt_succ_self time, by rw [hevent]; exact hclears⟩
    · exact Or.inl hsticky

/-- The data stay until the next scan of the register `dmi`, and the error until a `dmireset`. -/
theorem answered_succ {acceptance : ℕ} (hlt : acceptance < time)
    (hanswered : Answered idcodeValue start events acceptance time)
    (hupdates : (run idcodeValue start events time).jtag.updatesDmi = false)
    {pins : DmiJtagTap.Inputs} {takes gives : Bool} (hevent : events time = .tck pins takes gives) :
    Answered idcodeValue start events acceptance (time + 1) := by
  have hat := stage_run hidle hclear time
  rw [hanswered.idle] at hat
  have hresets : resets (run idcodeValue start events time).jtag
      (jtagInputs (run idcodeValue start events time) pins takes gives) = false := hclear time
  constructor
  · rw [stages_succ, hanswered.idle, hevent, Stage.next, issued_of_not_updates hupdates]
  · rw [jtag_succ_tck hevent, data_next_of_idle idcodeValue hresets hat.state hupdates]
    exact hanswered.data
  · intro hbusy
    rcases hanswered.busy hbusy with hsticky | hcleared
    · rw [jtag_succ_tck hevent]
      cases hclears : (run idcodeValue start events time).jtag.clearsError with
      | true => exact Or.inr ⟨time, hlt, Nat.lt_succ_self time, by rw [hevent]; exact hclears⟩
      | false =>
        left
        rw [error_of_sticky idcodeValue hresets hclears (by rw [hsticky]; decide), hsticky]
    · exact Or.inr hcleared.succ

/-- An edge of TCK that is no Capture-DR of the register `dmi`. -/
theorem served_tck (hreads : request.op = dtmRead)
    (hserved : Served idcodeValue start events scan time request)
    {pins : DmiJtagTap.Inputs} {takes gives : Bool} (hevent : events time = .tck pins takes gives)
    (hcaptures : (run idcodeValue start events time).jtag.capturesDmi = false) :
    Served idcodeValue start events scan (time + 1) request := by
  have hat := stage_run hidle hclear time
  have hupdates := updatesDmi_of_not_scansDmi hserved.unscanned
  have honce : history (issuedAt idcodeValue start events) (time + 1) =
      history (issuedAt idcodeValue start events) scan ++ [request] := by
    rw [history_succ, issuedAt, issued_of_not_updates hupdates, List.append_nil, hserved.issuedOnce]
  have horder := hserved.order
  have hjtag : (run idcodeValue start events (time + 1)).jtag = _ := jtag_succ_tck hevent
  have hresets : resets (run idcodeValue start events time).jtag
      (jtagInputs (run idcodeValue start events time) pins takes gives) = false := hclear time
  have herror : (run idcodeValue start events (time + 1)).jtag.error = .noError ∨
      (run idcodeValue start events (time + 1)).jtag.error = .busy := by
    rw [hjtag]
    refine error_next_mem idcodeValue hresets ?_ hserved.error
    rw [Bool.eq_false_iff]
    exact not_answersFailed hidle hclear hserved pins takes gives
  refine ⟨by omega, honce, ?_, herror, ?_⟩
  · rw [hjtag]
    exact scansDmi_next idcodeValue rfl hserved.unscanned hcaptures
  · rw [stages_succ, hevent]
    rcases hserved.progress with hoffered | hsent | ⟨acceptance, hacceptance, hlt, hphase⟩
    · rw [hoffered]
      cases takes with
      | true => exact Or.inr (Or.inl rfl)
      | false => exact Or.inl rfl
    · rw [hsent]
      exact Or.inr (Or.inl rfl)
    · refine Or.inr (Or.inr ⟨acceptance, hacceptance, by omega, ?_⟩)
      rw [stages_succ, hevent]
      rcases hphase with hqueued | hreturned | hanswered
      · rw [hqueued]
        exact Or.inl rfl
      · cases gives with
        | false =>
          rw [hreturned]
          exact Or.inr (Or.inl rfl)
        | true =>
          exact Or.inr (Or.inr (answered_of_returned hidle hclear hreads hlt hserved.error hreturned
            hevent))
      · exact Or.inr (Or.inr (answered_succ hidle hclear hlt hanswered hupdates hevent))

/-- An edge of the core clock. -/
theorem served_clk (hserved : Served idcodeValue start events scan time request)
    {environment : DmCsrs.Inputs cfg} {gives takes : Bool}
    (hevent : events time = .clk environment gives takes) :
    Served idcodeValue start events scan (time + 1) request := by
  have hat := stage_run hidle hclear time
  have hnone := issued_of_not_updates (updatesDmi_of_not_scansDmi hserved.unscanned) (events time)
  have honce : history (issuedAt idcodeValue start events) (time + 1) =
      history (issuedAt idcodeValue start events) scan ++ [request] := by
    rw [history_succ, issuedAt, hnone, List.append_nil, hserved.issuedOnce]
  have hjtag : (run idcodeValue start events (time + 1)).jtag =
      (run idcodeValue start events time).jtag := jtag_succ_clk hevent
  have horder := hserved.order
  refine ⟨by omega, honce, hjtag ▸ hserved.unscanned, hjtag ▸ hserved.error, ?_⟩
  rw [stages_succ, hevent]
  rcases hserved.progress with hoffered | hsent | ⟨acceptance, hacceptance, hlt, hphase⟩
  · rw [hoffered]
    exact Or.inl rfl
  · rw [hsent] at hat ⊢
    cases gives with
    | false => exact Or.inr (Or.inl rfl)
    | true =>
      have hdelivered : deliveredAt idcodeValue start events time = [request] := by
        rw [deliveredAt, hevent, hat.delivered_clk]
        rfl
      have hearlier : history (deliveredAt idcodeValue start events) time =
          history (issuedAt idcodeValue start events) scan := by
        have hissued := issued_eq hidle hclear time
        rw [hserved.issuedOnce, hsent] at hissued
        exact (List.append_cancel_right hissued).symm
      refine Or.inr (Or.inr ⟨time, ⟨horder, hdelivered, hearlier⟩, by omega, Or.inl ?_⟩)
      rw [stages_succ, hsent, answerAt, hevent]
      rfl
  · refine Or.inr (Or.inr ⟨acceptance, hacceptance, by omega, ?_⟩)
    rw [stages_succ, hevent]
    rcases hphase with hqueued | hreturned | hanswered
    · rw [hqueued]
      cases takes with
      | true => exact Or.inr (Or.inl rfl)
      | false => exact Or.inl rfl
    · rw [hreturned]
      exact Or.inr (Or.inl rfl)
    · refine Or.inr (Or.inr ⟨?_, ?_, fun hbusy ↦ ?_⟩)
      · rw [stages_succ, hevent, hanswered.idle]
        rfl
      · rw [hjtag]
        exact hanswered.data
      · rw [hjtag]
        exact (hanswered.busy hbusy).imp id ClearedBetween.succ

/-- From the scan of a read up to the next Capture-DR of the register `dmi`. -/
theorem served_run {capture : ℕ}
    (hfirst : FirstCapture idcodeValue start events scan capture request) {time : ℕ}
    (hafter : scan < time) (hle : time ≤ capture) :
    Served idcodeValue start events scan time request := by
  induction time, hafter using Nat.le_induction with
  | base => exact served_start hidle hclear hfirst.issued
  | succ time hafter ih =>
    have hserved := ih (by omega)
    have hcaptures := hfirst.first time (by omega) (by omega)
    cases hevent : events time with
    | tck pins takes gives =>
      rw [hevent] at hcaptures
      exact served_tck hidle hclear hfirst.reads hserved hevent hcaptures
    | clk environment gives takes => exact served_clk hidle hclear hserved hevent

/-- What the Capture-DR loads: the busy error, the data of the answer, or the marker of a busy
answer whose error has been cleared. -/
theorem loaded_of_firstCapture {capture : ℕ}
    (hfirst : FirstCapture idcodeValue start events scan capture request) :
    (loaded idcodeValue start events capture).op = DmiError.busy.bits ∨
      ∃ acceptance, AcceptedAt idcodeValue start events scan acceptance request ∧
        acceptance < capture ∧
          (loaded idcodeValue start events capture).op = DmiError.noError.bits ∧
          ((answerAt idcodeValue start events acceptance).resp = dtmSuccess ∧
              (loaded idcodeValue start events capture).data =
                (answerAt idcodeValue start events acceptance).data ∨
            (answerAt idcodeValue start events acceptance).resp = dtmBusy ∧
              (loaded idcodeValue start events capture).data = 0xB051B051 ∧
                ClearedBetween idcodeValue start events acceptance capture) := by
  have hserved := served_run hidle hclear hfirst hfirst.order le_rfl
  have hat := stage_run hidle hclear capture
  have hcaptures := hfirst.captures
  unfold loaded
  cases hevent : events capture with
  | clk environment gives takes =>
    rw [hevent] at hcaptures
    exact absurd hcaptures Bool.false_ne_true
  | tck pins takes gives =>
    rw [hevent] at hcaptures
    have hnotWrite : ¬ request.op = dtmWrite := by
      rw [hfirst.reads]
      decide
    have hbusy (hreading : (run idcodeValue start events capture).jtag.reading = true) :
        (Dmi.ofBits (run idcodeValue start events (capture + 1)).jtag.dr).op =
          DmiError.busy.bits := by
      rw [jtag_succ_tck hevent]
      exact captured_of_reading idcodeValue rfl hcaptures hreading
    have hwaiting : (run idcodeValue start events capture).jtag.state = .waitReadValid →
        (run idcodeValue start events capture).jtag.reading = true := by
      intro hwait
      rw [Regs.reading, hwait]
      rfl
    rcases hserved.progress with hoffered | hsent | ⟨acceptance, hacceptance, hlt, hphase⟩
    · left
      refine hbusy ?_
      rw [Regs.reading, hat.state, hoffered, Stage.state, if_neg hnotWrite]
      rfl
    · left
      refine hbusy (hwaiting ?_)
      rw [hat.state, hsent, Stage.state, if_neg hnotWrite]
    · rcases hphase with hqueued | hreturned | hanswered
      · left
        refine hbusy (hwaiting ?_)
        rw [hat.state, hqueued, Stage.state, if_neg hnotWrite]
      · left
        refine hbusy (hwaiting ?_)
        rw [hat.state, hreturned, Stage.state, if_neg hnotWrite]
      · rw [hanswered.idle] at hat
        rw [jtag_succ_tck hevent]
        rcases captured_of_idle (i := jtagInputs _ pins takes gives) idcodeValue rfl hcaptures
          hat.state hserved.error with ⟨-, hop⟩ | ⟨hnone, hloaded⟩
        · exact Or.inl hop
        · right
          refine ⟨acceptance, hacceptance, hlt, by rw [hloaded], ?_⟩
          rw [hloaded]
          rcases answerAt_resp idcodeValue start events acceptance with hsuccess | hrefused
          · left
            refine ⟨hsuccess, ?_⟩
            show (run idcodeValue start events capture).jtag.data = _
            rw [hanswered.data, if_pos hsuccess]
          · right
            refine ⟨hrefused, ?_, ?_⟩
            · show (run idcodeValue start events capture).jtag.data = _
              rw [hanswered.data, hrefused]
              rfl
            · refine (hanswered.busy hrefused).resolve_left ?_
              rw [hnone]
              decide

end Served

end Edges

end RiscvDebug.DmiLink
