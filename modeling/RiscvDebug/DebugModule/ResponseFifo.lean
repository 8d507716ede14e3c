import RiscvDebug.DebugModule.DmiHandshake
import RiscvDebug.DebugModule.Inactive
import RiscvDebug.Foundations.Fifo

/-!
# The response queue as a component

`dm_csrs` keeps its responses in a `fifo_v3` of depth two, whose source is elsewhere, and sees its
ports only: a request is accepted while the buffer is not full, its response is pushed, and the
entry that the ports show is popped when the host takes it. The results are about the debug module
with any buffer in this place (`fifoMachine`) that is first-in first-out for a user who neither
overfills it nor pops it when it is empty (`Fifo.Lawful`). Such a module agrees with the one with a
bounded queue in all other registers (`represents_fifoRun`), a request that is not accepted leaves
no trace (`next_withoutRequest`), and the host gets its answers in order (`servesHost_of_lawful`).
-/

set_option autoImplicit false
set_option relaxedAutoImplicit false

namespace RiscvDebug.DmTop

open Foundations

variable {cfg : Config} {fifo : Fifo DmiResp}

/-! ### The debug module around a buffer -/

/-- The registers of the debug module with those of the buffer apart. -/
structure FifoRegs (cfg : Config) (fifo : Fifo DmiResp) where
  rest : Regs cfg
  responses : fifo.State

/-- A queue with the ports of a buffer: as full, as empty, and with the same head. -/
def portQueue (responses : fifo.State) : BoundedQueue DmiResp 2 :=
  if fifo.full responses then ⟨[fifo.dataOut responses, fifo.dataOut responses], le_rfl⟩
  else if fifo.empty responses then BoundedQueue.empty
  else ⟨[fifo.dataOut responses], Nat.le_succ 1⟩

namespace FifoRegs

/-- The registers as the processes of `dm_csrs` see them. -/
def seen (r : FifoRegs cfg fifo) : Regs cfg :=
  { r.rest with csrs := { r.rest.csrs with respQueue := portQueue r.responses } }

/-- A request is accepted, and its response pushed. -/
def pushes (r : FifoRegs cfg fifo) (i : Inputs cfg) : Bool :=
  i.dmiReqValid && !fifo.full r.responses

/-- The host takes the response at the head of the buffer. -/
def pops (r : FifoRegs cfg fifo) (i : Inputs cfg) : Bool :=
  i.dmiRespReady && !fifo.empty r.responses

/-- The registers of the next cycle. -/
def next (r : FifoRegs cfg fifo) (i : Inputs cfg) : FifoRegs cfg fifo where
  rest := DmTop.next r.seen i
  responses :=
    fifo.next r.responses (!i.dmiRstN) (r.pushes i) (r.pops i) (csrSignals r.seen i).resp

end FifoRegs

/-- The debug module with a buffer for its responses. -/
def fifoMachine (cfg : Config) (fifo : Fifo DmiResp) :
    ClockedMachine (FifoRegs cfg fifo) (Inputs cfg) where
  reset := ⟨Regs.reset cfg, fifo.reset⟩
  step := FifoRegs.next

/-- The registers at the start of every cycle. -/
def fifoRun (fifo : Fifo DmiResp) (inputs : ℕ → Inputs cfg) (time : ℕ) : FifoRegs cfg fifo :=
  (fifoMachine cfg fifo).states inputs time

theorem fifoRun_succ (inputs : ℕ → Inputs cfg) (time : ℕ) :
    fifoRun fifo inputs (time + 1) = (fifoRun fifo inputs time).next (inputs time) :=
  ClockedMachine.states_succ _ inputs time

/-! ### The interface -/

theorem isFull_portQueue (responses : fifo.State) :
    (portQueue responses).isFull = fifo.full responses := by
  unfold portQueue
  cases fifo.full responses with
  | true => rfl
  | false => cases fifo.empty responses <;> rfl

/-- The module never pushes into a full buffer, nor pops an empty one. -/
theorem FifoRegs.usesLegally (r : FifoRegs cfg fifo) (i : Inputs cfg) :
    (r.pushes i = true → fifo.full r.responses = false) ∧
      (r.pops i = true → fifo.empty r.responses = false) := by
  constructor
  · intro hpushes
    simpa using (Bool.and_eq_true_iff.mp hpushes).2
  · intro hpops
    simpa using (Bool.and_eq_true_iff.mp hpops).2

/-- What the processes of `dm_csrs` take for an accepted request is one whose response is pushed. -/
theorem FifoRegs.accepts_seen (r : FifoRegs cfg fifo) (i : Inputs cfg) :
    accepts r.seen i = r.pushes i := by
  rw [FifoRegs.pushes, ← isFull_portQueue]
  rfl

/-- A request that is not accepted leaves no trace, in the buffer neither. -/
theorem FifoRegs.next_withoutRequest {r : FifoRegs cfg fifo} {i : Inputs cfg}
    (hrefused : r.pushes i = false) : r.next i = r.next i.withoutRequest := by
  have hseen : accepts r.seen i = false := by rw [r.accepts_seen, hrefused]
  have hpushes : r.pushes i.withoutRequest = false := rfl
  unfold FifoRegs.next
  rw [DmTop.next_withoutRequest hseen, csrSignals_withoutRequest hseen, hrefused, hpushes]
  rfl

/-- The interface of the debug module with the buffer in a run, from the ports of the buffer. What
waits is what the queue of the module with a bounded queue holds. -/
def fifoHandshake (fifo : Fifo DmiResp) (inputs : ℕ → Inputs cfg) : Handshake where
  accepted time := (fifoRun fifo inputs time).pushes (inputs time)
  answers time :=
    if (fifoRun fifo inputs time).pushes (inputs time) then
      [(csrSignals (fifoRun fifo inputs time).seen (inputs time)).resp]
    else []
  takes time :=
    if (fifoRun fifo inputs time).pops (inputs time) then
      [fifo.dataOut (fifoRun fifo inputs time).responses]
    else []
  waiting time := queued (run inputs time)

/-! ### The buffer and the queue -/

section Lawful

variable {holds : fifo.State → BoundedQueue DmiResp 2 → Prop}

/-- The registers are those of a debug module whose queue the buffer holds. -/
structure Represents (holds : fifo.State → BoundedQueue DmiResp 2 → Prop) (r : FifoRegs cfg fifo)
    (s : Regs cfg) : Prop where
  csrs : withoutResponses r.rest.csrs = withoutResponses s.csrs
  responses : holds r.responses s.csrs.respQueue
  mem : r.rest.mem = s.mem
  sba : r.rest.sba = s.sba

variable (hlawful : fifo.Lawful 2 holds)
include hlawful

/-- The queue with the ports of a buffer has as many entries as the queue that the buffer holds. -/
theorem length_portQueue {responses : fifo.State} {queue : BoundedQueue DmiResp 2}
    (hholds : holds responses queue) :
    (portQueue responses).entries.length = queue.entries.length := by
  have hle := queue.length_le
  unfold portQueue
  rw [hlawful.full hholds, hlawful.empty hholds, BoundedQueue.isFull, BoundedQueue.isEmpty]
  cases hentries : queue.entries with
  | nil => rfl
  | cons first rest =>
    cases rest with
    | nil => rfl
    | cons second rest =>
      rw [hentries] at hle
      cases rest with
      | nil => rfl
      | cons third rest =>
        simp only [List.length_cons] at hle
        omega

variable {r : FifoRegs cfg fifo} {s : Regs cfg} (hrepresents : Represents holds r s)
include hrepresents

/-- What the processes see differs from the represented registers in the queued responses only. -/
theorem Represents.sameButResponses : SameButResponses r.seen s :=
  ⟨hrepresents.csrs, length_portQueue hlawful hrepresents.responses, hrepresents.mem,
    hrepresents.sba⟩

theorem Represents.pushes_eq (i : Inputs cfg) : r.pushes i = accepts s i := by
  rw [FifoRegs.pushes, hlawful.full hrepresents.responses]
  rfl

theorem Represents.pops_eq (i : Inputs cfg) :
    r.pops i = (i.dmiRespReady && s.csrs.dmiRespValid) := by
  rw [FifoRegs.pops, hlawful.empty hrepresents.responses]
  rfl

theorem Represents.resp_eq (i : Inputs cfg) :
    (csrSignals r.seen i).resp = (csrSignals s i).resp := by
  rw [((hrepresents.sameButResponses hlawful).csrSignals_eq i).2]

/-- A cycle of the module keeps the buffer in step with the queue. -/
theorem Represents.next (i : Inputs cfg) : Represents holds (r.next i) (DmTop.next s i) := by
  have hsame := (hrepresents.sameButResponses hlawful).next i
  refine ⟨hsame.csrs, ?_, hsame.mem, hsame.sba⟩
  obtain ⟨hroom, hsome⟩ := r.usesLegally i
  have hqueue : (DmTop.next s i).csrs.respQueue = s.csrs.respQueue.cycle (!i.dmiRstN) (r.pushes i)
      (r.pops i) (csrSignals r.seen i).resp := by
    rw [hrepresents.pushes_eq hlawful, hrepresents.pops_eq hlawful, hrepresents.resp_eq hlawful]
    exact DmCsrs.respQueue_eq s.csrs (csrInputs s i)
  rw [hqueue]
  exact hlawful.next hrepresents.responses (!i.dmiRstN) _ hroom hsome

/-- The response that the host takes is the first one that waits. -/
theorem Represents.takes_eq (i : Inputs cfg) :
    (if r.pops i then [fifo.dataOut r.responses] else []) = takes s i := by
  unfold takes
  rw [hrepresents.pops_eq hlawful]
  split_ifs with hpops
  · have hsome : s.csrs.respQueue.isEmpty = false := by
      simpa [DmCsrs.Regs.dmiRespValid] using (Bool.and_eq_true_iff.mp hpops).2
    rw [DmCsrs.Regs.dmiResp]
    cases hentries : s.csrs.respQueue.entries with
    | nil =>
      rw [BoundedQueue.isEmpty, hentries] at hsome
      exact absurd hsome (by decide)
    | cons first rest =>
      have hfirst : first ∈ s.csrs.respQueue.entries.head? := by rw [hentries]; rfl
      rw [hlawful.dataOut hrepresents.responses first hfirst]
      rfl
  · rfl

omit hrepresents in
/-- Along every run the registers but for those of the buffer are the ones of the module with a
bounded queue, and the buffer holds the queue. -/
theorem represents_fifoRun (inputs : ℕ → Inputs cfg) (time : ℕ) :
    Represents holds (fifoRun fifo inputs time) (run inputs time) := by
  have hreset : Represents holds (fifoMachine cfg fifo).reset (machine cfg).reset :=
    ⟨rfl, hlawful.reset, rfl, rfl⟩
  exact ClockedMachine.lockstep_states hreset
    (fun time hrepresents ↦ hrepresents.next hlawful (inputs time)) time

omit hrepresents in
/-- At the interface the two modules do the same. -/
theorem fifoHandshake_eq (inputs : ℕ → Inputs cfg) :
    fifoHandshake fifo inputs = handshake inputs := by
  have hrepresents (time : ℕ) := represents_fifoRun hlawful inputs time
  unfold fifoHandshake handshake answers
  simp only [(hrepresents _).pushes_eq hlawful, (hrepresents _).resp_eq hlawful,
    (hrepresents _).takes_eq hlawful]

end Lawful

/-! ### What the host gets -/

/-- The debug module with a buffer behaves as the host expects. -/
structure ServesHost (fifo : Fifo DmiResp) (holds : fifo.State → BoundedQueue DmiResp 2 → Prop)
    (inputs : ℕ → Inputs cfg) : Prop where
  legal : ∀ time,
    ((fifoHandshake fifo inputs).accepted time = true →
      fifo.full (fifoRun fifo inputs time).responses = false) ∧
      ((fifoRun fifo inputs time).pops (inputs time) = true →
        fifo.empty (fifoRun fifo inputs time).responses = false)
  represents : ∀ time, Represents holds (fifoRun fifo inputs time) (run inputs time)
  refused : ∀ time, (fifoHandshake fifo inputs).accepted time = false →
    fifoRun fifo inputs (time + 1) = (fifoRun fifo inputs time).next (inputs time).withoutRequest
  answers : ∀ start, KeepsResponses inputs start →
    AnswersInOrder inputs (fifoHandshake fifo inputs) start

/-- With any lawful buffer of depth two the module serves every host, whatever the harts and the bus
do: it keeps to the rules of the buffer, its registers are those of the module with a bounded queue,
a request is accepted or leaves no trace, and as long as the buffer is not flushed the accepted
requests are answered once and in order. -/
theorem servesHost_of_lawful {holds : fifo.State → BoundedQueue DmiResp 2 → Prop}
    (hlawful : fifo.Lawful 2 holds) (inputs : ℕ → Inputs cfg) : ServesHost fifo holds inputs where
  legal time := FifoRegs.usesLegally _ _
  represents := represents_fifoRun hlawful inputs
  refused time hrefused := by
    rw [fifoRun_succ]
    exact FifoRegs.next_withoutRequest hrefused
  answers start hkept := by
    rw [fifoHandshake_eq hlawful]
    exact answersInOrder_of_kept hkept

/-- The cycle with a request and no response taken. -/
def Inputs.withRequestOnly (i : Inputs cfg) (request : DmiReq) : Inputs cfg :=
  { i.withRequest request with dmiRespReady := false }

/-- The host activates the module and reads `dmcontrol` before it takes a response; a third request
finds the buffer full. -/
def pipelinedRequests : ℕ → Inputs oneHart :=
  script
    [(Inputs.quiet oneHart).withRequestOnly ⟨0x10, dtmWrite, 0x00000001⟩,
      (Inputs.quiet oneHart).withRequestOnly ⟨0x10, dtmRead, 0⟩,
      (Inputs.quiet oneHart).withRequestOnly ⟨0x16, dtmRead, 0⟩]

/-- A module with a circular buffer accepts two of the three requests, and hands on both answers. -/
theorem pipelinedRequests_served :
    (fifoHandshake (circularFifo 2 ⟨0, 0⟩) pipelinedRequests).accepted 2 = false ∧
      ∃ later, [⟨0, dtmSuccess⟩, ⟨1, dtmSuccess⟩] <+:
        history (fifoHandshake (circularFifo 2 ⟨0, 0⟩) pipelinedRequests).takes later := by
  have hquiet (time : ℕ) (hle : 3 ≤ time) : pipelinedRequests time = Inputs.quiet oneHart :=
    List.getD_eq_default _ _ hle
  have hkept : KeepsResponses pipelinedRequests 0 := by
    intro time _
    by_cases hearly : time < 3
    · interval_cases time <;> rfl
    · rw [hquiet time (by omega)]
      rfl
  have htakes : TakesResponses pipelinedRequests :=
    fun time ↦ ⟨time + 3, by omega, by rw [hquiet _ (by omega)]; rfl⟩
  have hserves := servesHost_of_lawful (circularFifo_lawful 2 ⟨0, 0⟩) pipelinedRequests
  obtain ⟨later, -, hanswered⟩ := (hserves.answers 0 hkept).answered htakes 3
  have hanswers : history (fun elapsed ↦
      (fifoHandshake (circularFifo 2 ⟨0, 0⟩) pipelinedRequests).answers (0 + elapsed)) 3 =
        [⟨0, dtmSuccess⟩, ⟨1, dtmSuccess⟩] := by
    decide +kernel
  rw [hanswers] at hanswered
  simp only [Nat.zero_add] at hanswered
  exact ⟨by decide +kernel, later, hanswered⟩

end RiscvDebug.DmTop
