import RiscvDebug.DebugModule.DmTopCycles
import RiscvDebug.Foundations.Transfers

/-!
# The handshake of the debug module interface

A host on the other side of the debug module interface offers requests and takes responses whenever
it likes, also several requests before it takes a response. The response queue of `dm_csrs` is all
that keeps them apart. `AnswersInOrder` is what the host gets, from any cycle after which the queue
is not flushed: a request is accepted exactly when fewer than two responses wait, every accepted
request is answered once, the responses come in the order of the requests, and a host that keeps
taking responses gets all of them and has every request accepted. `answersInOrder_of_kept` shows it
of the module with its bounded queue.
-/

set_option autoImplicit false
set_option relaxedAutoImplicit false

namespace RiscvDebug.DmTop

open Foundations

variable {cfg : Config}

/-! ### Requests and responses -/

/-- The response to the request that is accepted in a cycle. -/
def answers (s : Regs cfg) (i : Inputs cfg) : List DmiResp :=
  if accepts s i then [(csrSignals s i).resp] else []

/-- The response that the host takes in a cycle. -/
def takes (s : Regs cfg) (i : Inputs cfg) : List DmiResp :=
  if i.dmiRespReady && s.csrs.dmiRespValid then [s.csrs.dmiResp] else []

/-- The responses that wait for the host. -/
def queued (s : Regs cfg) : List DmiResp := s.csrs.respQueue.entries

theorem length_queued_le (s : Regs cfg) : (queued s).length ≤ 2 := s.csrs.respQueue.length_le

/-- A request is accepted when it is offered while fewer than two responses wait. -/
theorem accepts_iff (s : Regs cfg) (i : Inputs cfg) :
    accepts s i = true ↔ i.dmiReqValid = true ∧ (queued s).length < 2 := by
  have hle := length_queued_le s
  have hready : s.csrs.dmiReqReady = true ↔ (queued s).length < 2 := by
    rw [DmCsrs.Regs.dmiReqReady, BoundedQueue.isFull, Bool.not_eq_true', decide_eq_false_iff_not]
    unfold queued at hle ⊢
    omega
  rw [← hready]
  exact Bool.and_eq_true_iff

theorem takes_eq (s : Regs cfg) (i : Inputs cfg) :
    takes s i = if i.dmiRespReady then (queued s).head?.toList else [] := by
  unfold takes queued DmCsrs.Regs.dmiRespValid DmCsrs.Regs.dmiResp BoundedQueue.isEmpty
  cases i.dmiRespReady <;> cases s.csrs.respQueue.entries <;> rfl

/-- A response that waits is taken by a host that is ready. -/
theorem takes_ne_nil {s : Regs cfg} {i : Inputs cfg} (hready : i.dmiRespReady = true)
    (hwaiting : queued s ≠ []) : takes s i ≠ [] := by
  rw [takes_eq, if_pos hready]
  cases hentries : queued s with
  | nil => exact absurd hentries hwaiting
  | cons first rest => exact List.cons_ne_nil _ _

/-- A cycle without a flush conserves the responses. -/
theorem queued_next (s : Regs cfg) {i : Inputs cfg} (hkept : i.dmiRstN = true) :
    queued s ++ answers s i = takes s i ++ queued (next s i) := by
  have hcycle := s.csrs.respQueue.append_cycle (accepts s i)
    (i.dmiRespReady && s.csrs.dmiRespValid) (csrSignals s i).resp
  have hnext : queued (next s i) = (s.csrs.respQueue.cycle false (accepts s i)
      (i.dmiRespReady && s.csrs.dmiRespValid) (csrSignals s i).resp).entries := by
    have hqueue := DmCsrs.respQueue_eq s.csrs (csrInputs s i)
    have hflush : (csrInputs s i).dmiRstN = true := hkept
    rw [hflush] at hqueue
    exact congrArg BoundedQueue.entries hqueue
  have hroom : (accepts s i && !s.csrs.respQueue.isFull) = accepts s i := by
    rw [Bool.and_eq_left_iff_imp]
    exact fun haccepts ↦ (Bool.and_eq_true_iff.mp haccepts).2
  have htaken : (if (i.dmiRespReady && s.csrs.dmiRespValid) then
      s.csrs.respQueue.entries.head?.toList else []) = takes s i := by
    rw [takes_eq]
    unfold queued DmCsrs.Regs.dmiRespValid BoundedQueue.isEmpty
    cases i.dmiRespReady <;> cases s.csrs.respQueue.entries <;> rfl
  rw [hroom, htaken] at hcycle
  rw [hnext, ← hcycle]
  rfl

/-! ### Requests that are not accepted -/

/-- The cycle without its request. -/
def Inputs.withoutRequest (i : Inputs cfg) : Inputs cfg := { i with dmiReqValid := false }

/-- A request that is not accepted is as good as none for the signals of `dm_csrs`. -/
theorem csrSignals_withoutRequest {s : Regs cfg} {i : Inputs cfg} (hrefused : accepts s i = false) :
    csrSignals s i = csrSignals s i.withoutRequest := by
  have haccepts : DmCsrs.accepts s.csrs (csrInputs s i) = false := hrefused
  have hread : DmCsrs.acceptsRead s.csrs (csrInputs s i) = false := by
    rw [DmCsrs.acceptsRead, haccepts, Bool.false_and]
  have hwrite : DmCsrs.acceptsWrite s.csrs (csrInputs s i) = false := by
    rw [DmCsrs.acceptsWrite, haccepts, Bool.false_and]
  have haccess : DmCsrs.dmiAccess s.csrs (csrInputs s i) =
      DmCsrs.defaults s.csrs (csrInputs s i) := by
    unfold DmCsrs.dmiAccess
    rw [hread, hwrite]
    rfl
  unfold csrSignals DmCsrs.csrReadWrite
  rw [haccess]
  rfl

/-- A request that is not accepted leaves no trace. -/
theorem next_withoutRequest {s : Regs cfg} {i : Inputs cfg} (hrefused : accepts s i = false) :
    next s i = next s i.withoutRequest := by
  have hsignals := csrSignals_withoutRequest hrefused
  have hcsrs : DmCsrs.next s.csrs (csrInputs s i) =
      DmCsrs.next s.csrs (csrInputs s i.withoutRequest) := by
    have hread : DmCsrs.csrReadWrite s.csrs (csrInputs s i) =
      DmCsrs.csrReadWrite s.csrs (csrInputs s i.withoutRequest) := hsignals
    have haccepts : DmCsrs.accepts s.csrs (csrInputs s i) = false := hrefused
    unfold DmCsrs.next
    rw [hread, haccepts]
    rfl
  unfold next strobes
  rw [hcsrs, hsignals]
  rfl

/-! ### Runs -/

/-- What happens at the interface in the cycles of a run: whether a request is accepted, the answer
to it, the response that the host takes, and the responses that wait. -/
structure Handshake where
  accepted : ℕ → Bool
  answers : ℕ → List DmiResp
  takes : ℕ → List DmiResp
  waiting : ℕ → List DmiResp

/-- The interface of the debug module in a run. -/
def handshake (inputs : ℕ → Inputs cfg) : Handshake where
  accepted time := accepts (run inputs time) (inputs time)
  answers time := answers (run inputs time) (inputs time)
  takes time := takes (run inputs time) (inputs time)
  waiting time := queued (run inputs time)

/-- The queue is not flushed from the start on. -/
def KeepsResponses (inputs : ℕ → Inputs cfg) (start : ℕ) : Prop :=
  ∀ time, start ≤ time → (inputs time).dmiRstN = true

/-- The host keeps taking responses. -/
def TakesResponses (inputs : ℕ → Inputs cfg) : Prop :=
  ∀ time, ∃ later, time ≤ later ∧ (inputs later).dmiRespReady = true

/-- The host offers a request until it is accepted. -/
def OffersFrom (inputs : ℕ → Inputs cfg) (accepted : ℕ → Bool) (time : ℕ) : Prop :=
  ∀ later, time ≤ later →
    (∀ earlier, time ≤ earlier → earlier < later → accepted earlier = false) →
    (inputs later).dmiReqValid = true

/-- What a host gets from a cycle on. -/
structure AnswersInOrder (inputs : ℕ → Inputs cfg) (h : Handshake) (start : ℕ) : Prop where
  acceptsOffered : ∀ time, h.accepted time = true ↔
    (inputs time).dmiReqValid = true ∧ (h.waiting time).length < 2
  inOrder : ∀ time, h.waiting start ++ history (fun elapsed ↦ h.answers (start + elapsed)) time =
    history (fun elapsed ↦ h.takes (start + elapsed)) time ++ h.waiting (start + time)
  answered : TakesResponses inputs → ∀ time, ∃ later, time ≤ later ∧
    h.waiting start ++ history (fun elapsed ↦ h.answers (start + elapsed)) time <+:
      history (fun elapsed ↦ h.takes (start + elapsed)) later
  accepted : TakesResponses inputs → ∀ time, start ≤ time → OffersFrom inputs h.accepted time →
    ∃ later, time ≤ later ∧ h.accepted later = true

section Runs

variable {inputs : ℕ → Inputs cfg} {start : ℕ} (hkept : KeepsResponses inputs start)
include hkept

theorem conserves_waiting :
    Conserves (fun elapsed ↦ (handshake inputs).answers (start + elapsed))
      (fun elapsed ↦ (handshake inputs).takes (start + elapsed))
      fun elapsed ↦ (handshake inputs).waiting (start + elapsed) :=
  fun elapsed ↦ queued_next _ (hkept _ (Nat.le_add_right start elapsed))

/-- A request that is offered for long enough is accepted. -/
theorem exists_accepts (htakes : TakesResponses inputs) {time : ℕ} (hle : start ≤ time)
    (hoffers : OffersFrom inputs (handshake inputs).accepted time) :
    ∃ later, time ≤ later ∧ accepts (run inputs later) (inputs later) = true := by
  by_contra hnone
  push Not at hnone
  have hrefused (later : ℕ) (hlater : time ≤ later) :
      accepts (run inputs later) (inputs later) = false := by
    simpa using hnone later hlater
  have hfull (later : ℕ) (hlater : time ≤ later) : (queued (run inputs later)).length = 2 := by
    have hvalid := hoffers later hlater fun earlier hearlier _ ↦ hrefused earlier hearlier
    have hlength := length_queued_le (run inputs later)
    by_contra hroom
    exact hnone later hlater ((accepts_iff _ _).mpr ⟨hvalid, by omega⟩)
  -- In a cycle in which the host takes a response without another one coming in, a place is free.
  obtain ⟨later, hlater, hready⟩ := htakes time
  have hnonempty : queued (run inputs later) ≠ [] := by
    intro hempty
    have hlength := hfull later hlater
    rw [hempty] at hlength
    exact absurd hlength (by decide)
  have hone := List.length_pos_iff.mpr (takes_ne_nil hready hnonempty)
  have hconserved := congrArg List.length
    (queued_next (run inputs later) (hkept later (hle.trans hlater)))
  have hanswers : answers (run inputs later) (inputs later) = [] :=
    if_neg (Bool.eq_false_iff.mp (hrefused later hlater))
  have hbefore := hfull later hlater
  have hafter := hfull (later + 1) (by omega)
  rw [run_succ] at hafter
  rw [hanswers, List.length_append, List.length_append, List.length_nil, hbefore, hafter]
    at hconserved
  omega

/-- Whatever a host does, from any cycle after which the queue is not flushed its requests are
answered once and in order, all of them if it keeps taking responses. -/
theorem answersInOrder_of_kept : AnswersInOrder inputs (handshake inputs) start where
  acceptsOffered time := accepts_iff _ _
  inOrder time := append_history_eq (fun elapsed _ ↦ conserves_waiting hkept elapsed) (le_refl time)
  answered htakes := by
    have hleaves (elapsed : ℕ) (hready : (inputs (start + elapsed)).dmiRespReady = true)
        (hwaiting : (handshake inputs).waiting (start + elapsed) ≠ []) :
        (handshake inputs).takes (start + elapsed) ≠ [] := takes_ne_nil hready hwaiting
    refine exists_handedOn (conserves_waiting hkept) hleaves fun elapsed ↦ ?_
    obtain ⟨later, hlater, hready⟩ := htakes (start + elapsed)
    exact ⟨later - start, by omega, by rwa [Nat.add_sub_cancel' (by omega)]⟩
  accepted htakes _ hle hoffers := exists_accepts hkept htakes hle hoffers

end Runs

end RiscvDebug.DmTop
