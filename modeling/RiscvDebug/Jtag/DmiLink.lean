import RiscvDebug.DebugModule.DmCsrsUpdates
import RiscvDebug.Foundations.Transfers
import RiscvDebug.Jtag.DroppedOperations

/-!
# The transport module and the debug CSRs

`dmi_jtag` joined with `dm_csrs` by a channel for the requests and one for the responses. Each
channel holds one element and delays it as long as it likes: it may refuse to take an element even
when it is empty, and hold back the one it has. The two clocks are independent, so a run is any
sequence of edges of TCK and edges of the core clock. `Stage` says what is under way, and
`stage_run` that the joined modules follow it when nothing clears the channels.
-/

set_option autoImplicit false
set_option relaxedAutoImplicit false

namespace RiscvDebug.DmiLink

open Foundations DmiJtag

/-! ### The joined modules -/

/-- The registers of the two modules, and what the channels hold. -/
structure Link (cfg : Config) where
  jtag : DmiJtag.Regs
  request : Option DmiReq
  csrs : DmCsrs.Regs cfg
  response : Option DmiResp
deriving DecidableEq

/-- The edges of the two clocks, with what the channels choose to do at that edge, and with the
inputs of the modules from elsewhere. -/
inductive Event (cfg : Config)
  /-- An edge of TCK. The request channel `takes` a request if it is empty, and the response channel
  `gives` the response it holds. -/
  | tck (pins : DmiJtagTap.Inputs) (takes gives : Bool)
  /-- An edge of the core clock. The request channel `gives` the request it holds, and the response
  channel `takes` a response if it is empty. -/
  | clk (environment : DmCsrs.Inputs cfg) (gives takes : Bool)

variable {cfg : Config} (idcodeValue : BitVec 32) (link : Link cfg)

/-- The inputs of `dmi_jtag`. -/
def jtagInputs (pins : DmiJtagTap.Inputs) (takes gives : Bool) : DmiJtag.Inputs where
  trst := false
  pins := pins
  reqReady := takes && link.request.isNone
  respValid := gives && link.response.isSome
  resp := link.response.getD ⟨0, 0⟩

/-- The inputs of `dm_csrs`, without a clear. -/
def csrsInputs (environment : DmCsrs.Inputs cfg) (gives takes : Bool) : DmCsrs.Inputs cfg :=
  { environment with
    dmiRstN := true
    dmiReqValid := gives && link.request.isSome
    dmiReq := link.request.getD environment.dmiReq
    dmiRespReady := takes && link.response.isNone }

/-- An edge of TCK. -/
def tckStep (i : DmiJtag.Inputs) : Link cfg :=
  { link with
    jtag := DmiJtag.next link.jtag i idcodeValue
    request := if accepts link.jtag i then some link.jtag.dmiReq else link.request
    response := if i.respValid && dmiRespReady then none else link.response }

/-- An edge of the core clock. -/
def clkStep (i : DmCsrs.Inputs cfg) : Link cfg :=
  { link with
    request := if DmCsrs.accepts link.csrs i then none else link.request
    csrs := DmCsrs.next link.csrs i
    response :=
      if link.csrs.dmiRespValid && i.dmiRespReady then some link.csrs.dmiResp else link.response }

/-- One edge. -/
def step : Event cfg → Link cfg
  | .tck pins takes gives => tckStep idcodeValue link (jtagInputs link pins takes gives)
  | .clk environment gives takes => clkStep link (csrsInputs link environment gives takes)

/-- The run from a state. -/
def run (start : Link cfg) (events : ℕ → Event cfg) : ℕ → Link cfg
  | 0 => start
  | time + 1 => step idcodeValue (run start events time) (events time)

/-! ### Requests -/

/-- The request of an Update-DR of a read or a write that finds the module idle and no error. -/
def issued : Event cfg → List DmiReq
  | .tck _ _ _ =>
    if operates link.jtag && link.jtag.state == .idle && link.jtag.error == .noError then
      [link.jtag.scanned]
    else []
  | .clk _ _ _ => []

/-- The request that `dm_csrs` accepts. -/
def delivered : Event cfg → List DmiReq
  | .tck _ _ _ => []
  | .clk environment gives takes =>
    let i := csrsInputs link environment gives takes
    if DmCsrs.accepts link.csrs i then [i.dmiReq] else []

/-- The requests that have not been delivered. -/
def underway : List DmiReq :=
  (if link.jtag.requesting then [link.jtag.dmiReq] else []) ++ link.request.toList

/-- The transactions that have begun and not ended: a request offered, a request or a response in a
channel, or a response in the queue of `dm_csrs`. -/
def outstanding : ℕ :=
  (underway link).length + link.csrs.respQueue.entries.length + link.response.toList.length

/-! ### Stages -/

/-- What is under way, as the host sees it. -/
inductive Stage
  | idle
  | offered (request : DmiReq)
  | sent (request : DmiReq)
  | queued (request : DmiReq) (response : DmiResp)
  | returned (request : DmiReq) (response : DmiResp)

/-- The state of the transport module. -/
def Stage.state : Stage → State
  | .idle => .idle
  | .offered request => if request.op = dtmWrite then .write else .read
  | .sent request | .queued request _ | .returned request _ =>
    if request.op = dtmWrite then .waitWriteValid else .waitReadValid

/-- What the request channel, the response queue and the response channel hold. -/
structure Contents where
  request : Option DmiReq
  queue : List DmiResp
  response : Option DmiResp

def Link.contents : Contents where
  request := link.request
  queue := link.csrs.respQueue.entries
  response := link.response

def Stage.contents : Stage → Contents
  | .idle | .offered _ => ⟨none, [], none⟩
  | .sent request => ⟨some request, [], none⟩
  | .queued _ response => ⟨none, [response], none⟩
  | .returned _ response => ⟨none, [], some response⟩

/-- The requests that have not been delivered. -/
def Stage.underway : Stage → List DmiReq
  | .offered request | .sent request => [request]
  | _ => []

/-- The joined modules are in a stage. -/
structure At (stage : Stage) : Prop where
  state : link.jtag.state = stage.state
  contents : link.contents = stage.contents
  offers : ∀ request, stage = .offered request → link.jtag.dmiReq = request

/-- The stage after an edge. -/
def Stage.next (stage : Stage) (event : Event cfg) : Stage :=
  match event, stage with
  | .tck _ _ _, .idle =>
    match issued link event with
    | [] => .idle
    | request :: _ => .offered request
  | .tck _ takes _, .offered request => if takes then .sent request else stage
  | .tck _ _ gives, .returned _ _ => if gives then .idle else stage
  | .clk environment gives takes, .sent request =>
    if gives then
      let i := csrsInputs link environment gives takes
      .queued request (DmCsrs.csrReadWrite link.csrs i).resp
    else stage
  | .clk _ _ takes, .queued request response => if takes then .returned request response else stage
  | _, _ => stage

/-- The stages of a run that begins idle. -/
def stages (start : Link cfg) (events : ℕ → Event cfg) : ℕ → Stage
  | 0 => .idle
  | time + 1 =>
    (stages start events time).next (run idcodeValue start events time) (events time)

/-! ### The transport module in a stage -/

section Jtag

variable {r : DmiJtag.Regs} {i : DmiJtag.Inputs}

theorem issued_tck (pins : DmiJtagTap.Inputs) (takes gives : Bool) :
    issued link (.tck pins takes gives) =
      if starts link.jtag (jtagInputs link pins takes gives) then [link.jtag.scanned] else [] := by
  have hstarts : (operates link.jtag && link.jtag.state == .idle && link.jtag.error == .noError) =
      starts link.jtag (jtagInputs link pins takes gives) := by
    rw [Bool.eq_iff_iff, starts_iff]
    simp only [Bool.and_eq_true, beq_iff_eq]
    constructor
    · rintro ⟨⟨hoperates, hidle⟩, herror⟩
      exact ⟨rfl, hidle, herror, hoperates⟩
    · rintro ⟨-, hidle, herror, hoperates⟩
      exact ⟨⟨hoperates, hidle⟩, herror⟩
  rw [issued, hstarts]

/-- A request that is offered shows the state of the module. -/
theorem state_of_requesting (hrequesting : r.requesting = true) :
    r.state = (Stage.offered r.dmiReq).state := by
  simp only [Regs.requesting, Bool.or_eq_true, beq_iff_eq] at hrequesting
  rcases hrequesting with hstate | hstate <;>
    simp [Stage.state, Regs.dmiReq, hstate, dtmRead, dtmWrite]

theorem requesting_of_offered {request : DmiReq}
    (hstate : r.state = (Stage.offered request).state) :
    r.requesting = true := by
  rw [Stage.state] at hstate
  rw [Regs.requesting, hstate]
  split_ifs <;> rfl

/-- An idle module that starts nothing stays idle. -/
theorem next_idle (hclear : resets r i = false) (hidle : r.state = .idle)
    (hstarts : starts r i = false) : (next r i idcodeValue).state = .idle := by
  obtain ⟨htrst, -⟩ := Bool.or_eq_false_iff.mp hclear
  rw [next_state idcodeValue htrst]
  rw [starts, htrst, hidle] at hstarts
  rw [stateNext_of_idle hidle] at hstarts ⊢
  split_ifs at hstarts ⊢ <;> simp_all

/-- A request that the channel takes is followed by the wait for its response. -/
theorem next_sent (hclear : resets r i = false) (hrequesting : r.requesting = true)
    (hready : i.reqReady = true) :
    (next r i idcodeValue).state = (Stage.sent r.dmiReq).state := by
  rw [(next_of_branch idcodeValue hclear).1, stateBranch_of_requesting hrequesting, hready,
    if_pos rfl]
  simp only [Regs.requesting, Bool.or_eq_true, beq_iff_eq] at hrequesting
  rcases hrequesting with hstate | hstate <;>
    simp [Stage.state, Regs.dmiReq, hstate, dtmRead, dtmWrite]

theorem waiting_of_sent {request : DmiReq} (hstate : r.state = (Stage.sent request).state) :
    r.state = .waitReadValid ∨ r.state = .waitWriteValid := by
  rw [hstate, Stage.state]
  split_ifs
  · exact Or.inr rfl
  · exact Or.inl rfl

/-- A module that waits for a response goes idle with it. -/
theorem next_waiting {request : DmiReq} (hclear : resets r i = false)
    (hstate : r.state = (Stage.sent request).state) :
    (next r i idcodeValue).state =
      if i.respValid then .idle else (Stage.sent request).state := by
  rw [(next_of_branch idcodeValue hclear).1, stateBranch_of_waiting (waiting_of_sent hstate),
    hstate]

theorem not_accepts_of_waiting {request : DmiReq}
    (hstate : r.state = (Stage.sent request).state) : accepts r i = false := by
  rw [accepts, Regs.dmiReqValid]
  rcases waiting_of_sent hstate with hwait | hwait <;> simp [hwait]

end Jtag

/-! ### The debug CSRs in a stage -/

section Csrs

variable {q : DmCsrs.Regs cfg} {i : DmCsrs.Inputs cfg}

/-- The response queue without a clear. -/
theorem respQueue_next (hclear : i.dmiRstN = true) :
    (DmCsrs.next q i).respQueue.entries =
      q.respQueue.cycleEntries (DmCsrs.accepts q i) (i.dmiRespReady && q.dmiRespValid)
        (DmCsrs.csrReadWrite q i).resp := by
  rw [DmCsrs.respQueue_eq, hclear]
  rfl

/-- An empty queue takes the response of an accepted request. -/
theorem respQueue_next_of_empty (hclear : i.dmiRstN = true) (hempty : q.respQueue.entries = []) :
    DmCsrs.accepts q i = i.dmiReqValid ∧ q.dmiRespValid = false ∧
      (DmCsrs.next q i).respQueue.entries =
        if i.dmiReqValid then [(DmCsrs.csrReadWrite q i).resp] else [] := by
  have hfull : q.respQueue.isFull = false := by
    rw [BoundedQueue.isFull, hempty]
    rfl
  have haccepts : DmCsrs.accepts q i = i.dmiReqValid := by
    rw [DmCsrs.accepts, DmCsrs.Regs.dmiReqReady, hfull]
    simp
  have hvalid : q.dmiRespValid = false := by
    rw [DmCsrs.Regs.dmiRespValid, BoundedQueue.isEmpty, hempty]
    rfl
  refine ⟨haccepts, hvalid, ?_⟩
  rw [respQueue_next hclear, BoundedQueue.cycleEntries, haccepts, hvalid, hfull, hempty]
  cases i.dmiReqValid <;> simp

/-- A queue of one response gives it away without taking another one. -/
theorem respQueue_next_of_single {response : DmiResp} (hclear : i.dmiRstN = true)
    (hnone : i.dmiReqValid = false) (hsingle : q.respQueue.entries = [response]) :
    DmCsrs.accepts q i = false ∧ q.dmiRespValid = true ∧ q.dmiResp = response ∧
      (DmCsrs.next q i).respQueue.entries = if i.dmiRespReady then [] else [response] := by
  have haccepts : DmCsrs.accepts q i = false := by
    rw [DmCsrs.accepts, hnone, Bool.false_and]
  have hvalid : q.dmiRespValid = true := by
    rw [DmCsrs.Regs.dmiRespValid, BoundedQueue.isEmpty, hsingle]
    rfl
  refine ⟨haccepts, hvalid, by rw [DmCsrs.Regs.dmiResp, hsingle]; rfl, ?_⟩
  rw [respQueue_next hclear, BoundedQueue.cycleEntries, haccepts, hvalid, hsingle]
  cases i.dmiRespReady <;> simp

end Csrs

/-! ### One edge -/

section Edge

variable {idcodeValue link} {stage : Stage}

theorem Link.contents_eq {contents : Contents} :
    link.contents = contents ↔ link.request = contents.request ∧
      link.csrs.respQueue.entries = contents.queue ∧ link.response = contents.response := by
  rw [Link.contents, Contents.mk.injEq]

/-- An edge of TCK without a clear. -/
theorem At.tck (hat : At link stage) (hclear : link.jtag.dmiClear = false)
    (pins : DmiJtagTap.Inputs) (takes gives : Bool) :
    At (step idcodeValue link (.tck pins takes gives))
      (stage.next link (.tck pins takes gives)) := by
  obtain ⟨hstate, hcontents, hoffers⟩ := hat
  obtain ⟨hrequest, hqueue, hresponse⟩ := Link.contents_eq.mp hcontents
  have hresets : resets link.jtag (jtagInputs link pins takes gives) = false := hclear
  cases stage with
  | idle =>
    have hnone : accepts link.jtag (jtagInputs link pins takes gives) = false := by
      rw [accepts, Regs.dmiReqValid, hstate]
      simp [Stage.state]
    have hkept : (step idcodeValue link (.tck pins takes gives)).contents = ⟨none, [], none⟩ := by
      rw [Link.contents_eq]
      simp_all [step, tckStep, jtagInputs, Stage.contents]
    rw [Stage.next, issued_tck]
    cases hstarts : starts link.jtag (jtagInputs link pins takes gives) with
    | true =>
      obtain ⟨hrequesting, hreq⟩ := next_of_starts idcodeValue hstarts
      refine ⟨?_, hkept, fun request hrequest ↦ ?_⟩
      · rw [← hreq]
        exact state_of_requesting hrequesting
      · cases hrequest
        exact hreq
    | false =>
      exact ⟨next_idle idcodeValue hresets hstate hstarts, hkept,
        fun _ hoffered ↦ by cases hoffered⟩
  | offered request =>
    have hreq := hoffers request rfl
    have hrequesting := requesting_of_offered hstate
    have haccepts : accepts link.jtag (jtagInputs link pins takes gives) = takes := by
      rw [accepts_of_requesting hrequesting hresets]
      simp [jtagInputs, hrequest, Stage.contents]
    cases takes with
    | true =>
      refine ⟨?_, ?_, fun _ hoffered ↦ by cases hoffered⟩
      · rw [Stage.next, if_pos rfl, ← hreq]
        exact next_sent idcodeValue hresets hrequesting (by
          simp [jtagInputs, hrequest, Stage.contents])
      · rw [Link.contents_eq]
        simp_all [step, tckStep, jtagInputs, Stage.contents, Stage.next]
    | false =>
      obtain ⟨hstill, hsame⟩ := next_of_requesting idcodeValue hrequesting haccepts (by
        rw [withdraws, hresets, Bool.false_and])
      refine ⟨?_, ?_, fun offered hoffered ↦ ?_⟩
      · rw [Stage.next, if_neg Bool.false_ne_true, ← hreq, ← hsame]
        exact state_of_requesting hstill
      · rw [Link.contents_eq]
        simp_all [step, tckStep, jtagInputs, Stage.contents, Stage.next]
      · cases hoffered
        exact hsame.trans hreq
  | sent request | queued request response =>
    have haccepts : accepts link.jtag (jtagInputs link pins takes gives) = false :=
      not_accepts_of_waiting hstate
    refine ⟨?_, ?_, fun _ hoffered ↦ by cases hoffered⟩
    · show (next _ _ idcodeValue).state = _
      rw [next_waiting idcodeValue hresets hstate]
      simp [jtagInputs, hresponse, Stage.contents, Stage.next, Stage.state]
    · rw [Link.contents_eq]
      simp_all [step, tckStep, jtagInputs, Stage.contents, Stage.next]
  | returned request response =>
    have haccepts : accepts link.jtag (jtagInputs link pins takes gives) = false :=
      not_accepts_of_waiting hstate
    refine ⟨?_, ?_, fun offered hoffered ↦ ?_⟩
    · show (next _ _ idcodeValue).state = _
      rw [next_waiting idcodeValue hresets hstate]
      cases gives <;> simp [jtagInputs, hresponse, Stage.contents, Stage.next, Stage.state]
    · rw [Link.contents_eq]
      cases gives <;>
        simp_all [step, tckStep, jtagInputs, Stage.contents, Stage.next, dmiRespReady]
    · cases gives <;> cases hoffered

/-- An edge of the core clock. -/
theorem At.clk (hat : At link stage) (environment : DmCsrs.Inputs cfg) (gives takes : Bool) :
    At (step idcodeValue link (.clk environment gives takes))
      (stage.next link (.clk environment gives takes)) := by
  obtain ⟨hstate, hcontents, hoffers⟩ := hat
  obtain ⟨hrequest, hqueue, hresponse⟩ := Link.contents_eq.mp hcontents
  have hclear : (csrsInputs link environment gives takes).dmiRstN = true := rfl
  cases stage with
  | idle | offered request | returned request response =>
    obtain ⟨haccepts, hvalid, hentries⟩ := respQueue_next_of_empty hclear hqueue
    refine ⟨hstate, ?_, hoffers⟩
    rw [Link.contents_eq]
    simp_all [step, clkStep, csrsInputs, Stage.contents, Stage.next]
  | sent request =>
    obtain ⟨haccepts, hvalid, hentries⟩ := respQueue_next_of_empty hclear hqueue
    have hgives : (csrsInputs link environment gives takes).dmiReqValid = gives := by
      simp [csrsInputs, hrequest, Stage.contents]
    rw [hgives] at haccepts hentries
    refine ⟨?_, ?_, fun offered hoffered ↦ ?_⟩
    · cases gives <;> exact hstate
    · rw [Link.contents_eq]
      cases gives <;> simp_all [step, clkStep, Stage.contents, Stage.next]
    · cases gives <;> cases hoffered
  | queued request response =>
    have hnone : (csrsInputs link environment gives takes).dmiReqValid = false := by
      simp [csrsInputs, hrequest, Stage.contents]
    obtain ⟨haccepts, hvalid, hresp, hentries⟩ := respQueue_next_of_single hclear hnone hqueue
    have htakes : (csrsInputs link environment gives takes).dmiRespReady = takes := by
      simp [csrsInputs, hresponse, Stage.contents]
    rw [htakes] at hentries
    refine ⟨?_, ?_, fun offered hoffered ↦ ?_⟩
    · cases takes <;> exact hstate
    · rw [Link.contents_eq]
      cases takes <;> simp_all [step, clkStep, Stage.contents, Stage.next]
    · cases takes <;> exact nomatch hoffered

/-- The joined modules follow the stages. -/
theorem At.next (hat : At link stage) (hclear : link.jtag.dmiClear = false) (event : Event cfg) :
    At (step idcodeValue link event) (stage.next link event) := by
  cases event with
  | tck pins takes gives => exact hat.tck hclear pins takes gives
  | clk environment gives takes => exact hat.clk environment gives takes

/-- What has not been delivered, in each stage. -/
theorem At.underway_eq (hat : At link stage) : underway link = stage.underway := by
  obtain ⟨hstate, hcontents, hoffers⟩ := hat
  obtain ⟨hrequest, -, -⟩ := Link.contents_eq.mp hcontents
  unfold underway
  cases stage with
  | idle => simp [hstate, hrequest, Regs.requesting, Stage.state, Stage.contents, Stage.underway]
  | offered request =>
    rw [requesting_of_offered hstate, hoffers request rfl, hrequest]
    rfl
  | sent request | queued request response | returned request response =>
    have hrequesting : link.jtag.requesting = false := by
      rcases waiting_of_sent hstate with hwait | hwait <;> rw [Regs.requesting, hwait] <;> rfl
    rw [hrequesting, hrequest]
    rfl

/-- No more than one transaction is outstanding, and none when the transport module is idle. -/
theorem At.outstanding_eq (hat : At link stage) :
    outstanding link = if link.jtag.state = .idle then 0 else 1 := by
  rw [outstanding, hat.underway_eq, hat.state]
  obtain ⟨-, hqueue, hresponse⟩ := Link.contents_eq.mp hat.contents
  rw [hqueue, hresponse]
  cases stage with
  | idle => rfl
  | offered request | sent request | queued request response | returned request response =>
    simp only [Stage.underway, Stage.contents, Stage.state]
    split_ifs <;> simp_all

theorem issued_of_ne_idle (hidle : link.jtag.state ≠ .idle) (event : Event cfg) :
    issued link event = [] := by
  cases event with
  | tck pins takes gives => simp [issued, hidle]
  | clk environment gives takes => rfl

/-- The request that has been sent is the one that is delivered. -/
theorem At.delivered_clk (hat : At link stage) (environment : DmCsrs.Inputs cfg)
    (gives takes : Bool) :
    delivered link (.clk environment gives takes) =
      if gives then stage.contents.request.toList else [] := by
  obtain ⟨hrequest, hqueue, -⟩ := Link.contents_eq.mp hat.contents
  show (if DmCsrs.accepts link.csrs (csrsInputs link environment gives takes) then
    [(csrsInputs link environment gives takes).dmiReq] else []) = _
  cases stage with
  | sent request =>
    have hclear : (csrsInputs link environment gives takes).dmiRstN = true := rfl
    rw [(respQueue_next_of_empty hclear hqueue).1]
    simp [csrsInputs, hrequest, Stage.contents]
  | idle | offered request | queued request response | returned request response =>
    simp [DmCsrs.accepts, csrsInputs, hrequest, Stage.contents]

/-- An edge loses no request and delivers none twice. -/
theorem At.conserves (hat : At link stage) (event : Event cfg) :
    stage.underway ++ issued link event =
      delivered link event ++ (stage.next link event).underway := by
  cases event with
  | tck pins takes gives =>
    cases stage with
    | idle =>
      rw [Stage.next, issued]
      split_ifs <;> rfl
    | offered request =>
      rw [issued_of_ne_idle (by rw [hat.state, Stage.state]; split_ifs <;> decide)]
      cases takes <;> rfl
    | sent request | queued request response =>
      rw [issued_of_ne_idle (by rw [hat.state, Stage.state]; split_ifs <;> decide)]
      rfl
    | returned request response =>
      rw [issued_of_ne_idle (by rw [hat.state, Stage.state]; split_ifs <;> decide)]
      cases gives <;> rfl
  | clk environment gives takes =>
    rw [hat.delivered_clk]
    cases stage with
    | idle | offered request | returned request response | sent request => cases gives <;> rfl
    | queued request response => cases gives <;> cases takes <;> rfl

end Edge

/-! ### Runs -/

section Runs

variable {idcodeValue} {start : Link cfg} {events : ℕ → Event cfg}

/-- The requests that the host issues at an edge of the run. -/
def issuedAt (idcodeValue : BitVec 32) (start : Link cfg) (events : ℕ → Event cfg) (time : ℕ) :
    List DmiReq :=
  issued (run idcodeValue start events time) (events time)

/-- The requests that `dm_csrs` accepts at an edge of the run. -/
def deliveredAt (idcodeValue : BitVec 32) (start : Link cfg) (events : ℕ → Event cfg) (time : ℕ) :
    List DmiReq :=
  delivered (run idcodeValue start events time) (events time)

/-- No clear occurs in the run. -/
def NoClear (idcodeValue : BitVec 32) (start : Link cfg) (events : ℕ → Event cfg) : Prop :=
  ∀ time, (run idcodeValue start events time).jtag.dmiClear = false

variable (hidle : At start .idle) (hclear : NoClear idcodeValue start events)
include hidle hclear

/-- A run that begins idle follows the stages. -/
theorem stage_run (time : ℕ) :
    At (run idcodeValue start events time) (stages idcodeValue start events time) := by
  induction time with
  | zero => exact hidle
  | succ time ih => exact ih.next (hclear time) (events time)

/-- The requests issued are those delivered, in the same order, but for one under way. -/
theorem issued_eq (time : ℕ) :
    history (issuedAt idcodeValue start events) time =
      history (deliveredAt idcodeValue start events) time ++
        (stages idcodeValue start events time).underway := by
  have hconserves : Conserves (issuedAt idcodeValue start events)
      (deliveredAt idcodeValue start events)
      fun time ↦ (stages idcodeValue start events time).underway :=
    fun time ↦ (stage_run hidle hclear time).conserves (events time)
  exact history_eq rfl hconserves time

end Runs

end RiscvDebug.DmiLink
