import RiscvDebug.DebugModule.DmTopCycles

/-!
# An inactive debug module

While `dmactive` is zero the registers of `dm_csrs` are held at their reset values, but the strobes
to the other modules and the reset flags follow the DMI as if the module were active. The results
compare a run with the one in which each request to the inactive module is replaced by a request
that can only change `dmactive` (`neutralised`). `sameButResponses_next_iff` finds the three
requests with another effect, and `inertWhileInactive_iff` lifts this to runs.
-/

set_option autoImplicit false
set_option relaxedAutoImplicit false

namespace RiscvDebug.DmTop

open Foundations

variable {cfg : Config}

/-! ### States that differ in the queued responses -/

/-- The registers with an emptied response queue. -/
def withoutResponses (q : DmCsrs.Regs cfg) : DmCsrs.Regs cfg :=
  { q with respQueue := BoundedQueue.empty }

/-- Two states agree in everything but the contents of the queued responses. -/
structure SameButResponses (s s' : Regs cfg) : Prop where
  csrs : withoutResponses s.csrs = withoutResponses s'.csrs
  responses : s.csrs.respQueue.entries.length = s'.csrs.respQueue.entries.length
  mem : s.mem = s'.mem
  sba : s.sba = s'.sba

theorem SameButResponses.refl (s : Regs cfg) : SameButResponses s s := ⟨rfl, rfl, rfl, rfl⟩

theorem SameButResponses.symm {s s' : Regs cfg} (hsame : SameButResponses s s') :
    SameButResponses s' s :=
  ⟨hsame.csrs.symm, hsame.responses.symm, hsame.mem.symm, hsame.sba.symm⟩

theorem SameButResponses.trans {s s' s'' : Regs cfg} (hfirst : SameButResponses s s')
    (hsecond : SameButResponses s' s'') : SameButResponses s s'' :=
  ⟨hfirst.csrs.trans hsecond.csrs, hfirst.responses.trans hsecond.responses,
    hfirst.mem.trans hsecond.mem, hfirst.sba.trans hsecond.sba⟩

section Responses

variable {q q' : DmCsrs.Regs cfg} (hsame : withoutResponses q = withoutResponses q')
  (hlength : q.respQueue.entries.length = q'.respQueue.entries.length)

include hlength in
/-- A request is accepted by the room in the response queue. -/
theorem accepts_congr (i : DmCsrs.Inputs cfg) : DmCsrs.accepts q i = DmCsrs.accepts q' i := by
  rw [DmCsrs.accepts, DmCsrs.accepts, DmCsrs.Regs.dmiReqReady, DmCsrs.Regs.dmiReqReady,
    BoundedQueue.isFull_congr hlength]

include hsame hlength in
/-- The process `csr_read_write` reads the response queue only through its handshake. -/
theorem csrReadWrite_congr (i : DmCsrs.Inputs cfg) :
    DmCsrs.csrReadWrite q i = DmCsrs.csrReadWrite q' i := by
  have haccepts := accepts_congr hlength i
  have hread : DmCsrs.acceptsRead q i = DmCsrs.acceptsRead q' i := by
    rw [DmCsrs.acceptsRead, DmCsrs.acceptsRead, haccepts]
  have hwrite : DmCsrs.acceptsWrite q i = DmCsrs.acceptsWrite q' i := by
    rw [DmCsrs.acceptsWrite, DmCsrs.acceptsWrite, haccepts]
  have hdmiRead : ∀ signals, DmCsrs.dmiRead q i signals = DmCsrs.dmiRead q' i signals :=
    fun signals ↦
      show DmCsrs.dmiRead (withoutResponses q) i signals =
        DmCsrs.dmiRead (withoutResponses q') i signals
      by rw [hsame]
  have hdmiWrite : ∀ signals, DmCsrs.dmiWrite q i signals = DmCsrs.dmiWrite q' i signals :=
    fun signals ↦
      show DmCsrs.dmiWrite (withoutResponses q) i signals =
        DmCsrs.dmiWrite (withoutResponses q') i signals
      by rw [hsame]
  have hdefaults : DmCsrs.defaults q i = DmCsrs.defaults q' i :=
    show DmCsrs.defaults (withoutResponses q) i = DmCsrs.defaults (withoutResponses q') i
    by rw [hsame]
  have hrules : ∀ signals, DmCsrs.dmcontrolRules q i signals = DmCsrs.dmcontrolRules q' i signals :=
    fun signals ↦
      show DmCsrs.dmcontrolRules (withoutResponses q) i signals =
        DmCsrs.dmcontrolRules (withoutResponses q') i signals
      by rw [hsame]
  unfold DmCsrs.csrReadWrite DmCsrs.dmiAccess
  simp only [hread, hwrite, hdmiRead, hdmiWrite, hdefaults, hrules]

include hsame hlength in
/-- The registers of the next cycle, the contents of the responses apart. -/
theorem dmCsrs_next_congr (i : DmCsrs.Inputs cfg) :
    withoutResponses (DmCsrs.next q i) = withoutResponses (DmCsrs.next q' i) ∧
      (DmCsrs.next q i).respQueue.entries.length =
        (DmCsrs.next q' i).respQueue.entries.length := by
  have hactive : q.dmcontrol.dmactive = q'.dmcontrol.dmactive :=
    show (withoutResponses q).dmcontrol.dmactive = (withoutResponses q').dmcontrol.dmactive
    by rw [hsame]
  have hvalid : q.dmiRespValid = q'.dmiRespValid := by
    rw [DmCsrs.Regs.dmiRespValid, DmCsrs.Regs.dmiRespValid, BoundedQueue.isEmpty_congr hlength]
  have hqueue := BoundedQueue.length_cycle_congr hlength (!i.dmiRstN) (DmCsrs.accepts q' i)
    (i.dmiRespReady && q'.dmiRespValid) (DmCsrs.csrReadWrite q' i).resp
    (DmCsrs.csrReadWrite q' i).resp
  unfold DmCsrs.next
  rw [csrReadWrite_congr hsame hlength i, accepts_congr hlength i, hvalid, hactive]
  cases q'.dmcontrol.dmactive with
  | false => exact ⟨rfl, hqueue⟩
  | true => exact ⟨rfl, hqueue⟩

end Responses

/-- What `dm_csrs` sees of the other modules does not depend on the responses, and neither do its
signals. -/
theorem SameButResponses.csrSignals_eq {s s' : Regs cfg} (hsame : SameButResponses s s')
    (i : Inputs cfg) : csrInputs s i = csrInputs s' i ∧ csrSignals s i = csrSignals s' i := by
  obtain ⟨csrs, mem, sba⟩ := s
  obtain ⟨csrs', mem', sba'⟩ := s'
  obtain ⟨hcsrs, hlength, rfl, rfl⟩ := hsame
  have hinputs : csrInputs ⟨csrs, mem, sba⟩ i = csrInputs ⟨csrs', mem, sba⟩ i :=
    show csrInputs ⟨withoutResponses csrs, mem, sba⟩ i =
      csrInputs ⟨withoutResponses csrs', mem, sba⟩ i
    by rw [show withoutResponses csrs = withoutResponses csrs' from hcsrs]
  refine ⟨hinputs, ?_⟩
  unfold csrSignals
  rw [hinputs]
  exact csrReadWrite_congr hcsrs hlength _

/-- States that agree but for the responses agree after the same step. -/
theorem SameButResponses.next {s s' : Regs cfg} (hsame : SameButResponses s s') (i : Inputs cfg) :
    SameButResponses (next s i) (next s' i) := by
  obtain ⟨hinputs, hsignals⟩ := hsame.csrSignals_eq i
  obtain ⟨csrs, mem, sba⟩ := s
  obtain ⟨csrs', mem', sba'⟩ := s'
  obtain ⟨hcsrs, hlength, rfl, rfl⟩ := hsame
  have hmemInputs : ∀ clearResumeack, memInputs ⟨csrs, mem, sba⟩ i clearResumeack =
      memInputs ⟨csrs', mem, sba⟩ i clearResumeack := fun clearResumeack ↦
    show memInputs ⟨withoutResponses csrs, mem, sba⟩ i clearResumeack =
      memInputs ⟨withoutResponses csrs', mem, sba⟩ i clearResumeack
    by rw [show withoutResponses csrs = withoutResponses csrs' from hcsrs]
  have hsbaInputs : sbaInputs ⟨csrs, mem, sba⟩ i = sbaInputs ⟨csrs', mem, sba⟩ i :=
    show sbaInputs ⟨withoutResponses csrs, mem, sba⟩ i =
      sbaInputs ⟨withoutResponses csrs', mem, sba⟩ i
    by rw [show withoutResponses csrs = withoutResponses csrs' from hcsrs]
  obtain ⟨hnext, hlengthNext⟩ := dmCsrs_next_congr hcsrs hlength (csrInputs ⟨csrs', mem, sba⟩ i)
  refine ⟨?_, ?_, ?_, ?_⟩
  · show withoutResponses (DmCsrs.next csrs (csrInputs ⟨csrs, mem, sba⟩ i)) = _
    rw [hinputs]
    exact hnext
  · show (DmCsrs.next csrs (csrInputs ⟨csrs, mem, sba⟩ i)).respQueue.entries.length = _
    rw [hinputs]
    exact hlengthNext
  · show DmMem.next mem
      (memInputs ⟨csrs, mem, sba⟩ i (csrSignals ⟨csrs, mem, sba⟩ i).clearResumeack) = _
    rw [hsignals, hmemInputs]
    rfl
  · show DmSba.nextState sba (sbaInputs ⟨csrs, mem, sba⟩ i) (strobes ⟨csrs, mem, sba⟩ i) = _
    rw [hsbaInputs, show strobes ⟨csrs, mem, sba⟩ i = strobes ⟨csrs', mem, sba⟩ i by
      unfold strobes
      rw [hsignals]]
    rfl

/-! ### Requests that only change `dmactive` -/

/-- The request with every effect but that on `dmactive` removed: a write of `dmcontrol` keeps its
lowest bit, and every other request is no operation. -/
def neutralRequest (cfg : Config) (request : DmiReq) : DmiReq :=
  if request.op = dtmWrite ∧ cfg.dmCsr request.addr = .dmControl then
    { request with data := request.data &&& 1 }
  else { request with op := dtmNop }

/-- The cycle with its request replaced. -/
def Inputs.neutral (i : Inputs cfg) : Inputs cfg := { i with dmiReq := neutralRequest cfg i.dmiReq }

/-- The stream of inputs in which the requests to the inactive module are replaced. -/
def neutralised (inputs : ℕ → Inputs cfg) (time : ℕ) : Inputs cfg :=
  if (run inputs time).csrs.dmcontrol.dmactive then inputs time else (inputs time).neutral

/-- A replaced request is no read. -/
theorem acceptsRead_neutral (s : Regs cfg) (i : Inputs cfg) :
    DmCsrs.acceptsRead s.csrs (csrInputs s i.neutral) = false := by
  have hop : (neutralRequest cfg i.dmiReq).op ≠ dtmRead := by
    unfold neutralRequest
    split_ifs with hcontrol
    · rw [hcontrol.1]
      decide
    · show dtmNop ≠ dtmRead
      decide
  show (_ && (neutralRequest cfg i.dmiReq).op == dtmRead) = false
  rw [beq_false_of_ne hop, Bool.and_false]

/-- A replaced request writes `dmcontrol` when the request did, and no other register. -/
theorem writes_neutral (s : Regs cfg) (i : Inputs cfg) (csr : DmCsr) :
    writes s i.neutral csr = (writes s i csr && csr == .dmControl) := by
  show (DmCsrs.accepts s.csrs (csrInputs s i) && (neutralRequest cfg i.dmiReq).op == dtmWrite &&
      cfg.dmCsr (neutralRequest cfg i.dmiReq).addr == csr) =
    (DmCsrs.accepts s.csrs (csrInputs s i) && i.dmiReq.op == dtmWrite &&
      cfg.dmCsr i.dmiReq.addr == csr && csr == .dmControl)
  unfold neutralRequest
  split_ifs with hcontrol
  · obtain ⟨-, hcsr⟩ := hcontrol
    dsimp only
    rw [hcsr]
    cases csr <;> simp
  · show (_ && dtmNop == dtmWrite && _) = _
    rw [show (dtmNop == dtmWrite) = false by decide, Bool.and_false, Bool.false_and]
    by_cases hop : i.dmiReq.op = dtmWrite
    · have hcsr : cfg.dmCsr i.dmiReq.addr ≠ .dmControl := fun hcsr ↦ hcontrol ⟨hop, hcsr⟩
      cases csr <;> simp [hcsr]
    · simp [hop]

/-- The data of a replaced write of `dmcontrol`. -/
theorem data_neutral {s : Regs cfg} {i : Inputs cfg} (hwrites : writes s i .dmControl = true) :
    i.neutral.dmiReq.data = i.dmiReq.data &&& 1 := by
  obtain ⟨hwrite, haddressed⟩ := Bool.and_eq_true_iff.mp hwrites
  have hop : i.dmiReq.op = dtmWrite := beq_iff_eq.mp (Bool.and_eq_true_iff.mp hwrite).2
  have hcsr : cfg.dmCsr i.dmiReq.addr = .dmControl := beq_iff_eq.mp haddressed
  show (neutralRequest cfg i.dmiReq).data = _
  rw [neutralRequest, if_pos ⟨hop, hcsr⟩]

/-- A word with only its lowest bit kept, as a control register. -/
theorem dmcontrol_and_one (w : BitVec 32) :
    (Dmcontrol.ofBits (w &&& 1)).dmactive = (Dmcontrol.ofBits w).dmactive ∧
      (Dmcontrol.ofBits (w &&& 1)).ackhavereset = false ∧
      (Dmcontrol.ofBits (w &&& 1)).resumereq = false := by
  refine ⟨?_, ?_, ?_⟩ <;> simp [Dmcontrol.ofBits]

/-! ### The requests with another effect -/

/-- The request makes an idle bus master start: a write of `sbdata0`, or, while `sbcs` still holds
its old contents, an access with the read options of `sbcs`. -/
def startsBus (s : Regs cfg) (i : Inputs cfg) : Bool :=
  s.sba == .idle && !s.csrs.sbcs.sbbusyerror && s.csrs.sbcs.sberror == 0 &&
    (writes s i .sbData0 || (writes s i .sbAddress0 && s.csrs.sbcs.sbreadonaddr) ||
      (DmCsrs.readsCsr s.csrs (csrInputs s i) .sbData0 && s.csrs.sbcs.sbreadondata))

/-- The request acknowledges a reset of the selected hart. -/
def clearsHavereset (s : Regs cfg) (i : Inputs cfg) : Bool :=
  writes s i .dmControl && (Dmcontrol.ofBits i.dmiReq.data).ackhavereset && !i.ndmresetAck &&
    (cfg.selectableHarts &&& s.csrs.havereset).getLsbD s.selected

/-- The request clears the resume acknowledgement of the selected hart. -/
def clearsResumeack (s : Regs cfg) (i : Inputs cfg) : Bool :=
  writes s i .dmControl && (Dmcontrol.ofBits i.dmiReq.data).resumereq &&
    !s.csrs.dmcontrol.resumereq && !s.csrs.dmcontrol.ndmreset &&
    !i.hartWrites DmMem.resumingAddr s.selected &&
    (cfg.selectableHarts &&& s.mem.resuming).getLsbD s.selected

/-- An idle bus master stays idle exactly when the request does not start it. -/
theorem sba_next_eq_idle_iff {s : Regs cfg} (i : Inputs cfg) (hidle : s.sba = .idle) :
    (next s i).sba = .idle ↔ startsBus s i = false := by
  have hbusIdle : DmCsrs.busIdle s.csrs (csrInputs s i) = !s.csrs.sbcs.sbbusyerror := by
    show (!(s.sba != .idle) && _) = _
    rw [hidle]
    rfl
  rw [sba_next_of_idle i hidle, DmSba.idleNext_eq_idle_iff, strobes_top, hbusIdle, startsBus, hidle]
  show (_ && s.csrs.sbcs.sbreadondata) = false ∧ _ ∧ (_ && s.csrs.sbcs.sbreadonaddr) = false ↔ _
  cases s.csrs.sbcs.sbbusyerror <;> cases s.csrs.sbcs.sberror == 0 <;> simp
  tauto

/-- The bus master takes the same step without the request exactly when the request does not start
it. -/
theorem sba_next_neutral_iff (s : Regs cfg) (i : Inputs cfg) :
    (next s i).sba = (next s i.neutral).sba ↔ startsBus s i = false := by
  have hneutral : strobes s i.neutral = ⟨false, false, false⟩ := by
    rw [strobes_top, writes_neutral, writes_neutral, DmCsrs.readsCsr, acceptsRead_neutral]
    simp
  have hstep : (next s i.neutral).sba =
      DmSba.nextState s.sba (sbaInputs s i) ⟨false, false, false⟩ := by
    rw [← hneutral]
    rfl
  by_cases hidle : s.sba = .idle
  · have hquiet : (next s i.neutral).sba = .idle := by
      rw [hstep]
      simp [DmSba.nextState, hidle, DmSba.idleNext]
    rw [hquiet]
    exact sba_next_eq_idle_iff i hidle
  · have hstays : (next s i).sba = (next s i.neutral).sba := by
      rw [hstep]
      exact DmSba.nextState_of_ne_idle hidle (sbaInputs s i) (strobes s i) ⟨false, false, false⟩
    have hnot : startsBus s i = false := by
      rw [startsBus, beq_false_of_ne hidle]
      rfl
    exact iff_of_true hstays hnot

/-- The reset flags after a cycle. -/
theorem havereset_next (s : Regs cfg) (i : Inputs cfg) :
    (next s i).csrs.havereset = cfg.selectableHarts &&&
      if i.ndmresetAck then BitVec.allOnes cfg.nrHarts
      else if writes s i .dmControl && (Dmcontrol.ofBits i.dmiReq.data).ackhavereset &&
          s.csrs.selectedHartValid then
        setBit s.csrs.havereset s.selected false
      else s.csrs.havereset := by
  have hmasked : (next s i).csrs.havereset =
      cfg.selectableHarts &&& (csrSignals s i).havereset := by
    show (DmCsrs.next s.csrs (csrInputs s i)).havereset = _
    unfold DmCsrs.next
    cases s.csrs.dmcontrol.dmactive <;> rfl
  rw [hmasked, csrSignals, DmCsrs.havereset_eq]
  rfl

/-- Clearing one bit under a mask changes nothing exactly when it is not set under the mask. -/
theorem and_setBit_false_iff {width : ℕ} (mask vector : BitVec width) (index : ℕ) :
    mask &&& setBit vector index false = mask &&& vector ↔
      (mask &&& vector).getLsbD index = false := by
  constructor
  · intro hsame
    rw [← hsame]
    simp
  · intro hclear
    apply BitVec.eq_of_getLsbD_eq
    intro other hother
    by_cases hindex : other = index
    · rw [hindex, hclear]
      simp
    · simp [hindex, hother]

/-- The reset flags are those of the step without the request exactly when the request does not
acknowledge a reset. -/
theorem havereset_next_neutral_iff (s : Regs cfg) (i : Inputs cfg) :
    (next s i).csrs.havereset = (next s i.neutral).csrs.havereset ↔
      clearsHavereset s i = false := by
  have hkept : (next s i.neutral).csrs.havereset = cfg.selectableHarts &&&
      if i.ndmresetAck then BitVec.allOnes cfg.nrHarts else s.csrs.havereset := by
    rw [havereset_next]
    have hnot : (writes s i.neutral .dmControl &&
        (Dmcontrol.ofBits i.neutral.dmiReq.data).ackhavereset) = false := by
      cases hwrites : writes s i .dmControl with
      | false => rw [writes_neutral, hwrites]; rfl
      | true => rw [data_neutral hwrites, (dmcontrol_and_one _).2.1, Bool.and_false]
    rw [hnot]
    rfl
  rw [hkept, havereset_next, clearsHavereset]
  cases i.ndmresetAck with
  | true => simp
  | false =>
    cases hack : writes s i .dmControl && (Dmcontrol.ofBits i.dmiReq.data).ackhavereset with
    | false => simp
    | true =>
      simp only [Bool.false_eq_true, if_false, Bool.true_and, Bool.not_false]
      cases hvalid : s.csrs.selectedHartValid with
      | true =>
        rw [if_pos rfl]
        exact and_setBit_false_iff _ _ _
      | false =>
        have hinvalid : ¬ s.csrs.selectedHart < cfg.nrHarts := by
          rw [← selectedHartValid_iff, hvalid]
          decide
        rw [if_neg Bool.false_ne_true]
        refine iff_of_true rfl ?_
        exact BitVec.getLsbD_of_ge _ _ (not_lt.mp hinvalid)

/-- The acknowledgements are those of the step without the request exactly when the request does
not clear one. -/
theorem mem_next_neutral_iff (s : Regs cfg) (i : Inputs cfg) :
    (next s i).mem = (next s i.neutral).mem ↔ clearsResumeack s i = false := by
  have hpulse : (csrSignals s i).clearResumeack =
      (!s.csrs.dmcontrol.resumereq && (writtenDmcontrol s i).resumereq) :=
    DmCsrs.clearResumeack_eq s.csrs (csrInputs s i)
  have hneutralPulse : (csrSignals s i.neutral).clearResumeack = false := by
    have hwritten : (csrSignals s i.neutral).clearResumeack =
        (!s.csrs.dmcontrol.resumereq && (writtenDmcontrol s i.neutral).resumereq) :=
      DmCsrs.clearResumeack_eq s.csrs (csrInputs s i.neutral)
    rw [hwritten]
    have hneutral := writes_neutral s i .dmControl
    cases hwrites : writes s i .dmControl with
    | false =>
      rw [hwrites] at hneutral
      rw [writtenDmcontrol_of_not_writes hneutral, Bool.not_and_self]
    | true =>
      rw [hwrites] at hneutral
      rw [writtenDmcontrol_of_writes hneutral, data_neutral hwrites, (dmcontrol_and_one _).2.2,
        Bool.and_false]
  have hrequest : (csrSignals s i).clearResumeack = (writes s i .dmControl &&
      (Dmcontrol.ofBits i.dmiReq.data).resumereq && !s.csrs.dmcontrol.resumereq) := by
    rw [hpulse]
    cases hwrites : writes s i .dmControl with
    | false =>
      rw [writtenDmcontrol_of_not_writes hwrites, Bool.not_and_self]
      rfl
    | true =>
      rw [writtenDmcontrol_of_writes hwrites, Bool.true_and, Bool.and_comm]
  constructor
  · intro hsame
    by_contra hclears
    rw [Bool.not_eq_false] at hclears
    simp only [clearsResumeack, ← hrequest, Bool.and_eq_true] at hclears
    obtain ⟨⟨⟨hclear, hndmreset⟩, hwrites⟩, hack⟩ := hclears
    have hhart := lt_nrHarts_of_getLsbD hack
    have hbit := congrArg (fun r : DmMem.Regs cfg ↦ r.resuming.getLsbD s.selected) hsame
    rw [resuming_next s i hhart, resuming_next s i.neutral hhart, hclear, hneutralPulse] at hbit
    rw [BitVec.getLsbD_and, Bool.and_eq_true] at hack
    rw [Bool.not_eq_true'] at hndmreset hwrites
    have hwrites' : i.neutral.hartWrites DmMem.resumingAddr s.selected = false := hwrites
    rw [hack.1, hack.2, hndmreset, hwrites, hwrites', beq_self_eq_true] at hbit
    exact absurd hbit (by decide)
  · intro hkeeps
    have hresuming : (next s i).mem.resuming = (next s i.neutral).mem.resuming := by
      apply BitVec.eq_of_getLsbD_eq
      intro hart hhart
      rw [resuming_next s i hhart, resuming_next s i.neutral hhart, hneutralPulse]
      show (_ && (i.hartWrites DmMem.resumingAddr hart || _)) =
        (_ && (i.hartWrites DmMem.resumingAddr hart || _))
      cases hclear : (csrSignals s i).clearResumeack with
      | false => rfl
      | true =>
        by_cases hselected : s.selected = hart
        · subst hselected
          rw [clearsResumeack, ← hrequest, hclear, BitVec.getLsbD_and] at hkeeps
          revert hkeeps
          cases cfg.selectableHarts.getLsbD s.selected <;> cases s.csrs.dmcontrol.ndmreset <;>
            cases i.hartWrites DmMem.resumingAddr s.selected <;>
            cases s.mem.resuming.getLsbD s.selected <;> simp
        · rw [beq_false_of_ne hselected]
          rfl
    show (⟨_, _, (next s i).mem.resuming, _, _, _, _⟩ : DmMem.Regs cfg) = _
    rw [hresuming]
    rfl

/-- The request has no effect but that on `dmactive`. -/
def inertStep (s : Regs cfg) (i : Inputs cfg) : Bool :=
  !startsBus s i && !clearsHavereset s i && !clearsResumeack s i

/-- The response queue takes a response to the replaced request when it takes one to the request,
and `dmactive` follows both in the same way. -/
theorem dmactive_next_neutral (s : Regs cfg) (i : Inputs cfg) :
    (next s i.neutral).csrs.dmcontrol.dmactive = (next s i).csrs.dmcontrol.dmactive := by
  rw [dmactive_next, dmactive_next]
  have hneutral := writes_neutral s i .dmControl
  cases hwrites : writes s i .dmControl with
  | false =>
    rw [hwrites] at hneutral
    rw [writtenDmcontrol_of_not_writes hneutral, writtenDmcontrol_of_not_writes hwrites]
  | true =>
    rw [hwrites] at hneutral
    rw [writtenDmcontrol_of_writes hneutral, writtenDmcontrol_of_writes hwrites,
      data_neutral hwrites, (dmcontrol_and_one _).1]

/-- A request to an inactive module has no effect but that on `dmactive` exactly when it is none of
the three. -/
theorem sameButResponses_next_iff {s : Regs cfg} (i : Inputs cfg)
    (hinactive : s.csrs.dmcontrol.dmactive = false) :
    SameButResponses (next s i) (next s i.neutral) ↔ inertStep s i = true := by
  have hinert : inertStep s i = true ↔ startsBus s i = false ∧ clearsHavereset s i = false ∧
      clearsResumeack s i = false := by
    simp [inertStep, and_assoc]
  rw [hinert, ← sba_next_neutral_iff, ← havereset_next_neutral_iff, ← mem_next_neutral_iff]
  constructor
  · intro hsame
    have hhavereset : (withoutResponses (next s i).csrs).havereset =
        (withoutResponses (next s i.neutral).csrs).havereset := by rw [hsame.csrs]
    exact ⟨hsame.sba, hhavereset, hsame.mem⟩
  · rintro ⟨hsba, hhavereset, hmem⟩
    have hdmactive := dmactive_next_neutral s i
    refine ⟨?_, ?_, hmem, hsba⟩
    · have hreset : ∀ i : Inputs cfg, withoutResponses (next s i).csrs =
          { DmCsrs.Regs.reset cfg with
            dmcontrol := { Dmcontrol.reset with dmactive := (next s i).csrs.dmcontrol.dmactive }
            havereset := (next s i).csrs.havereset } := by
        intro i
        show withoutResponses (DmCsrs.next s.csrs (csrInputs s i)) = _
        unfold next DmCsrs.next
        rw [hinactive]
        rfl
      rw [hreset, hreset, hhavereset, hdmactive]
    · have hqueue : ∀ i : Inputs cfg, (next s i).csrs.respQueue =
          s.csrs.respQueue.cycle (!i.dmiRstN) (DmCsrs.accepts s.csrs (csrInputs s i))
            (i.dmiRespReady && s.csrs.dmiRespValid) (csrSignals s i).resp := by
        intro i
        show (DmCsrs.next s.csrs (csrInputs s i)).respQueue = _
        unfold DmCsrs.next
        rw [hinactive]
        rfl
      rw [hqueue, hqueue]
      exact BoundedQueue.length_cycle_congr rfl _ _ _ _ _

/-! ### Runs -/

/-- The requests to the inactive module have no lasting effect but that on `dmactive`: the run is,
but for the responses, the one in which they are replaced. -/
def InertWhileInactive (inputs : ℕ → Inputs cfg) : Prop :=
  ∀ time, SameButResponses (run inputs time) (run (neutralised inputs) time)

/-- The requests of a run to the inactive module are inert exactly when each is: when none starts
the bus master, acknowledges a reset or clears a resume acknowledgement. -/
theorem inertWhileInactive_iff (inputs : ℕ → Inputs cfg) :
    InertWhileInactive inputs ↔
      ∀ time, (run inputs time).csrs.dmcontrol.dmactive = false →
        inertStep (run inputs time) (inputs time) = true := by
  constructor
  · intro hinert time hinactive
    rw [← sameButResponses_next_iff (inputs time) hinactive]
    have hafter := hinert (time + 1)
    have hstep := (hinert time).next (neutralised inputs time)
    rw [run_succ, run_succ] at hafter
    have hinputs : neutralised inputs time = (inputs time).neutral := by
      rw [neutralised, hinactive]
      rfl
    rw [hinputs] at hafter hstep
    exact hafter.trans hstep.symm
  · intro hsteps
    refine ClockedMachine.lockstep_states (SameButResponses.refl _) fun time hsame ↦ ?_
    have hstep : SameButResponses (next (run inputs time) (neutralised inputs time))
        (run (neutralised inputs) (time + 1)) := hsame.next (neutralised inputs time)
    show SameButResponses (next (run inputs time) (inputs time)) _
    cases hactive : (run inputs time).csrs.dmcontrol.dmactive with
    | true =>
      have hinputs : neutralised inputs time = inputs time := if_pos hactive
      rwa [hinputs] at hstep
    | false =>
      have hinputs : neutralised inputs time = (inputs time).neutral := if_neg (by simp [hactive])
      rw [hinputs] at hstep
      exact ((sameButResponses_next_iff (inputs time) hactive).mpr (hsteps time hactive)).trans
        hstep

/-- The host writes `sbdata0` right after reset, while the module is inactive. -/
def inactiveWriteRun : ℕ → Inputs oneHart :=
  script [(Inputs.quiet oneHart).withRequest ⟨0x3c, dtmWrite, 0xdeadbeef⟩]

/-- The write starts an access of the system bus. -/
theorem inactiveWriteRun_raises :
    (sbaSignals (run inactiveWriteRun 1) (inactiveWriteRun 1)).master.req = true ∧
      ¬ InertWhileInactive inactiveWriteRun := by
  refine ⟨by decide +kernel, fun hinert ↦ ?_⟩
  have hsba := (hinert 1).sba
  revert hsba
  decide +kernel

end RiscvDebug.DmTop
