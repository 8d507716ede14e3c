import RiscvDebug.DebugModule.DmTop
import RiscvDebug.Foundations.BitStreams
import RiscvDebug.Jtag.ReadPairing

/-!
# Operations end to end

What a host can rely on between the scans of the register `dmi` and `dm_csrs`, in every run without
a clear: one transaction at a time, requests that stay as they are until they are taken, each scan
delivered once and in order, and reads that show their own data (`paired`). The last of these has an
exception, a read answered busy whose error the host clears before it looks
(`clearedRead_unpaired`).
-/

set_option autoImplicit false
set_option relaxedAutoImplicit false

namespace RiscvDebug.DmiLink

open Foundations DmiJtag
open DmTop (oneHart)

variable {cfg : Config}

/-! ### Delivery -/

section Delivery

variable {idcodeValue : BitVec 32} {start : Link cfg} {events : ℕ → Event cfg} {scan time : ℕ}
  {request : DmiReq}

/-- A request is under way in a stage, and no other has been issued since its scan. -/
def Waits (idcodeValue : BitVec 32) (start : Link cfg) (events : ℕ → Event cfg) (scan : ℕ)
    (request : DmiReq) (stage : Stage) (time : ℕ) : Prop :=
  scan < time ∧ stages idcodeValue start events time = stage ∧
    history (issuedAt idcodeValue start events) time =
      history (issuedAt idcodeValue start events) scan ++ [request]

section Steps

variable (hidle : At start .idle) (hclear : NoClear idcodeValue start events)
include hidle hclear

/-- Nothing is issued while a request is under way. -/
theorem waits_succ {stage stage' : Stage}
    (hwaits : Waits idcodeValue start events scan request stage time)
    (hbusy : stage.state ≠ .idle)
    (hnext : stage.next (run idcodeValue start events time) (events time) = stage') :
    Waits idcodeValue start events scan request stage' (time + 1) := by
  obtain ⟨horder, hstage, hissued⟩ := hwaits
  refine ⟨by omega, by rw [stages_succ, hstage, hnext], ?_⟩
  have hstate : (run idcodeValue start events time).jtag.state ≠ .idle := by
    rw [(stage_run hidle hclear time).state, hstage]
    exact hbusy
  rw [history_succ, issuedAt, issued_of_ne_idle hstate, List.append_nil, hissued]

/-- An offered request is sent when the channel has the opportunity to take it. -/
theorem sent_until (hissued : issuedAt idcodeValue start events scan = [request])
    (hfair : ∀ time, ∃ later, time ≤ later ∧ ∃ pins gives, events later = .tck pins true gives) :
    ∃ time, Waits idcodeValue start events scan request (.sent request) time := by
  have hbusy : (Stage.offered request).state ≠ .idle := by
    rw [Stage.state]
    split_ifs <;> decide
  have hoffered : Waits idcodeValue start events scan request (.offered request) (scan + 1) :=
    ⟨Nat.lt_succ_self scan, offered_of_issued hidle hclear hissued, by rw [history_succ, hissued]⟩
  have hstays : ∀ time, scan + 1 ≤ time →
      Waits idcodeValue start events scan request (.offered request) time →
        ¬ (∃ pins gives, events time = .tck pins true gives) →
          Waits idcodeValue start events scan request (.offered request) (time + 1) := by
    intro time _ hwaits hnot
    refine waits_succ hidle hclear hwaits hbusy ?_
    cases hevent : events time with
    | tck pins takes gives =>
      cases takes with
      | true => exact absurd ⟨pins, gives, hevent⟩ hnot
      | false => rfl
    | clk environment gives takes => rfl
  obtain ⟨time, -, -, hwaits, pins, gives, hevent⟩ :=
    until_of_opportunity hoffered hstays fun time _ _ ↦ hfair time
  exact ⟨time + 1, waits_succ hidle hclear hwaits hbusy (by rw [hevent]; rfl)⟩

/-- A request that has been sent is delivered when the channel has the opportunity to give it. -/
theorem acceptedAt_of_sent
    (hwaits : Waits idcodeValue start events scan request (.sent request) time)
    (hfair : ∀ time, ∃ later, time ≤ later ∧
      ∃ environment takes, events later = .clk environment true takes) :
    ∃ acceptance, AcceptedAt idcodeValue start events scan acceptance request := by
  have hbusy : (Stage.sent request).state ≠ .idle := by
    rw [Stage.state]
    split_ifs <;> decide
  have hstays : ∀ later, time ≤ later →
      Waits idcodeValue start events scan request (.sent request) later →
        ¬ (∃ environment takes, events later = .clk environment true takes) →
          Waits idcodeValue start events scan request (.sent request) (later + 1) := by
    intro later _ hwaits hnot
    refine waits_succ hidle hclear hwaits hbusy ?_
    cases hevent : events later with
    | tck pins takes gives => rfl
    | clk environment gives takes =>
      cases gives with
      | true => exact absurd ⟨environment, takes, hevent⟩ hnot
      | false => rfl
  obtain ⟨acceptance, -, -, ⟨horder, hstage, hissued⟩, environment, takes, hevent⟩ :=
    until_of_opportunity hwaits hstays fun time _ _ ↦ hfair time
  have hat := stage_run hidle hclear acceptance
  have hconserved := issued_eq hidle hclear acceptance
  rw [hissued, hstage] at hconserved
  rw [hstage] at hat
  refine ⟨acceptance, horder, ?_, (List.append_cancel_right hconserved).symm⟩
  rw [deliveredAt, hevent, hat.delivered_clk]
  rfl

omit hidle in
/-- A request that the channel does not take stays as it is. -/
theorem request_stable
    (hvalid : (run idcodeValue start events time).jtag.dmiReqValid = true)
    (htakes : takesRequest (run idcodeValue start events time) (events time) = false) :
    (run idcodeValue start events (time + 1)).jtag.dmiReqValid = true ∧
      (run idcodeValue start events (time + 1)).jtag.dmiReq =
        (run idcodeValue start events time).jtag.dmiReq := by
  cases hevent : events time with
  | clk environment gives takes =>
    rw [jtag_succ_clk hevent]
    exact ⟨hvalid, rfl⟩
  | tck pins takes gives =>
    rw [hevent] at htakes
    have hrequesting : (run idcodeValue start events time).jtag.requesting = true :=
      (Bool.and_eq_true_iff.mp hvalid).2
    have hresets : resets (run idcodeValue start events time).jtag
        (jtagInputs (run idcodeValue start events time) pins takes gives) = false := hclear time
    obtain ⟨hstill, hsame⟩ := next_of_requesting idcodeValue hrequesting htakes
      (by rw [withdraws, hresets, Bool.false_and])
    have hvalidNext := hclear (time + 1)
    rw [jtag_succ_tck hevent] at hvalidNext ⊢
    refine ⟨?_, hsame⟩
    rw [Regs.dmiReqValid, hvalidNext]
    exact hstill

end Steps

/-! ### Runs without a clear -/

/-- What a host relies on. -/
structure Paired (idcodeValue : BitVec 32) (start : Link cfg) (events : ℕ → Event cfg) :
    Prop where
  single : ∀ time, outstanding (run idcodeValue start events time) =
    if (run idcodeValue start events time).jtag.state = .idle then 0 else 1
  stable : ∀ time, (run idcodeValue start events time).jtag.dmiReqValid = true →
    takesRequest (run idcodeValue start events time) (events time) = false →
      (run idcodeValue start events (time + 1)).jtag.dmiReqValid = true ∧
        (run idcodeValue start events (time + 1)).jtag.dmiReq =
          (run idcodeValue start events time).jtag.dmiReq
  ordered : ∀ time, history (issuedAt idcodeValue start events) time =
    history (deliveredAt idcodeValue start events) time ++
      underway (run idcodeValue start events time)
  delivers : Fair events → ∀ scan request, issuedAt idcodeValue start events scan = [request] →
    ∃ acceptance, AcceptedAt idcodeValue start events scan acceptance request
  captured : ∀ scan capture request,
    FirstCapture idcodeValue start events scan capture request →
      (loaded idcodeValue start events capture).op = DmiError.busy.bits ∨
        ∃ acceptance, AcceptedAt idcodeValue start events scan acceptance request ∧
          acceptance < capture ∧
            (loaded idcodeValue start events capture).op = DmiError.noError.bits ∧
              ((answerAt idcodeValue start events acceptance).resp = dtmSuccess ∧
                  (loaded idcodeValue start events capture).data =
                    (answerAt idcodeValue start events acceptance).data ∨
                (answerAt idcodeValue start events acceptance).resp = dtmBusy ∧
                  (loaded idcodeValue start events capture).data = 0xB051B051 ∧
                    ClearedBetween idcodeValue start events acceptance capture)

/-- Operations are paired in every run without a clear that begins with nothing under way. -/
theorem paired (hidle : At start .idle) (hclear : NoClear idcodeValue start events) :
    Paired idcodeValue start events where
  single := fun time ↦ (stage_run hidle hclear time).outstanding_eq
  stable := fun _ hvalid htakes ↦ request_stable hclear hvalid htakes
  ordered := fun time ↦ by
    rw [(stage_run hidle hclear time).underway_eq]
    exact issued_eq hidle hclear time
  delivers := fun hfair scan request hissued ↦ by
    obtain ⟨time, hwaits⟩ := sent_until hidle hclear hissued hfair.tck
    exact acceptedAt_of_sent hidle hclear hwaits hfair.clk
  captured := fun _ _ _ hfirst ↦ loaded_of_firstCapture hidle hclear hfirst

end Delivery

/-! ### A read whose error is cleared -/

/-- The pins while bits are shifted in, the lowest first, up to the exit. -/
def shiftIn : List Bool → List DmiJtagTap.Inputs
  | [] => []
  | [bit] => [⟨true, bit⟩]
  | bit :: bits => ⟨false, bit⟩ :: shiftIn bits

/-- An instruction scan from Run-Test/Idle and back. -/
def scanIr (instruction : BitVec DmiJtagTap.irLength) : List DmiJtagTap.Inputs :=
  [⟨true, false⟩, ⟨true, false⟩, ⟨false, false⟩, ⟨false, false⟩] ++ shiftIn (bitsOf instruction) ++
    [⟨true, false⟩, ⟨false, false⟩]

/-- A data scan from Run-Test/Idle and back. -/
def scanDr {width : ℕ} (word : BitVec width) : List DmiJtagTap.Inputs :=
  [⟨true, false⟩, ⟨false, false⟩, ⟨false, false⟩] ++ shiftIn (bitsOf word) ++
    [⟨true, false⟩, ⟨false, false⟩]

/-- The inputs of `dm_csrs` while a command is executing. -/
def commandRunning : DmCsrs.Inputs oneHart where
  dmiRstN := true
  dmiReqValid := false
  dmiReq := ⟨0, 0, 0⟩
  dmiRespReady := false
  ndmresetAck := false
  halted := 0
  unavailable := 0
  resumeack := 0
  cmderrorValid := false
  cmderror := 0
  cmdbusy := true
  data := Vector.replicate oneHart.dataCount 0
  dataValid := false
  sbaddress := 0
  sbdata := 0
  sbdataValid := false
  sbbusy := false
  sberrorValid := false
  sberror := 0

/-- Edges of TCK with channels that take and give at once. -/
def edges (pins : List DmiJtagTap.Inputs) : List (Event oneHart) :=
  pins.map fun pins ↦ .tck pins true true

/-- A scan of a read of `Data0`, two edges of the core clock for its answer, a `dmireset`, and the
register `dmi` again up to its Capture-DR. -/
def clearedSession : List (Event oneHart) :=
  edges (scanIr DmiJtagTap.dmiAccess ++ scanDr (Dmi.mk 4 0 dtmRead).bits ++ [⟨false, false⟩]) ++
    [.clk commandRunning true true, .clk commandRunning true true] ++
      edges ([⟨false, false⟩] ++ scanIr DmiJtagTap.dtmcsr ++ scanDr (0x10000#32) ++
        scanIr DmiJtagTap.dmiAccess ++ [⟨true, false⟩, ⟨false, false⟩, ⟨false, false⟩])

def clearedRead (time : ℕ) : Event oneHart :=
  clearedSession.getD time (.tck ⟨false, false⟩ true true)

/-- The modules after a reset, with the debug module active and the TAP in Run-Test/Idle. -/
def afterReset : Link oneHart where
  jtag :=
    { DmiJtag.Regs.reset 0xdb3 with
      tap := { DmiJtagTap.Regs.reset 0xdb3 with tapState := .runTestIdle } }
  request := none
  csrs :=
    { DmCsrs.Regs.reset oneHart with dmcontrol := { Dmcontrol.reset with dmactive := true } }
  response := none

theorem at_afterReset : At afterReset .idle := ⟨rfl, rfl, fun _ hoffered ↦ nomatch hoffered⟩

theorem clearedRead_of_le {time : ℕ} (hle : 125 ≤ time) :
    clearedRead time = .tck ⟨false, false⟩ true true := by
  have hlength : clearedSession.length ≤ 125 := by decide +kernel
  rw [clearedRead, List.getD_eq_default _ _ (by omega)]

/-- After the session the TAP stays in Shift-DR. -/
theorem clearedRead_shifts {time : ℕ} (hle : 125 ≤ time) :
    (run 0xdb3 afterReset clearedRead time).jtag.tap.tapState = .shiftDr := by
  induction time, hle using Nat.le_induction with
  | base => decide +kernel
  | succ time hle ih =>
    rw [jtag_succ_tck (clearedRead_of_le hle), next_tap 0xdb3 rfl, DmiJtagTap.next, ih]
    rfl

theorem clearedRead_noClear : NoClear 0xdb3 afterReset clearedRead := by
  have hsession : ∀ time < 125,
      (run 0xdb3 afterReset clearedRead time).jtag.dmiClear = false := by
    decide +kernel
  intro time
  rcases Nat.lt_or_ge time 125 with hlt | hle
  · exact hsession time hlt
  · rw [Regs.dmiClear, Regs.updatesDtmcs, DmiJtagTap.Regs.testLogicReset,
      DmiJtagTap.Regs.updateDr, clearedRead_shifts hle]
    simp

/-- The Capture-DR at the end of the session is the first one after the scan of the read. -/
theorem clearedRead_firstCapture :
    FirstCapture 0xdb3 afterReset clearedRead 56 122 ⟨4, dtmRead, 0⟩ := by
  have hfirst : ∀ time < 122, 56 < time →
      captures (run 0xdb3 afterReset clearedRead time) (clearedRead time) = false := by
    decide +kernel
  exact ⟨by decide +kernel, rfl, by decide, by decide +kernel,
    fun time hafter hlt ↦ hfirst time hlt hafter⟩

theorem clearedRead_paired :
    FirstCapture 0xdb3 afterReset clearedRead 56 122 ⟨4, dtmRead, 0⟩ ∧
      Paired 0xdb3 afterReset clearedRead :=
  ⟨clearedRead_firstCapture, paired at_afterReset clearedRead_noClear⟩

/-- The Capture-DR shows neither the busy error nor the data of the answer. -/
theorem clearedRead_unpaired :
    ¬ ∀ (start : Link oneHart) (events : ℕ → Event oneHart), At start .idle →
      NoClear 0xdb3 start events → ∀ scan capture request,
        FirstCapture 0xdb3 start events scan capture request →
          (loaded 0xdb3 start events capture).op = DmiError.busy.bits ∨
            ∃ acceptance, AcceptedAt 0xdb3 start events scan acceptance request ∧
              (loaded 0xdb3 start events capture).data =
                (answerAt 0xdb3 start events acceptance).data := by
  intro hpaired
  rcases hpaired afterReset clearedRead at_afterReset clearedRead_noClear 56 122 _
    clearedRead_firstCapture with hop | ⟨acceptance, haccepted, hdata⟩
  · revert hop
    decide +kernel
  · have hsession : ∀ time < 125,
        deliveredAt 0xdb3 afterReset clearedRead time = [⟨4, dtmRead, 0⟩] →
          (loaded 0xdb3 afterReset clearedRead 122).data ≠
            (answerAt 0xdb3 afterReset clearedRead time).data := by
      decide +kernel
    rcases Nat.lt_or_ge acceptance 125 with hlt | hle
    · exact hsession acceptance hlt haccepted.delivered hdata
    · have hdelivered := haccepted.delivered
      rw [deliveredAt, clearedRead_of_le hle] at hdelivered
      exact (List.cons_ne_nil _ _).symm hdelivered

end RiscvDebug.DmiLink
