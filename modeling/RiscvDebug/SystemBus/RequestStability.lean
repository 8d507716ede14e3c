import RiscvDebug.SystemBus.ErrorDiscipline

/-!
# Stability of the system bus request

The bus interface asks that a request and its outputs stay as they are until the grant, so that the
access goes to the address and carries the data that the host has programmed when it triggered it.
The outputs are computed from registers of `dm_csrs`, which the DMI cannot change during an access,
but which the module clears in every cycle in which `dmactive` is zero, while the bus master itself
is not reset. A pending request then changes, and an access that is triggered in such a cycle never
drives what was programmed. `stableRequests_iff` finds these to be the only two ways.
-/

set_option autoImplicit false
set_option relaxedAutoImplicit false

namespace RiscvDebug.DmTop

open Foundations

variable {cfg : Config}

/-! ### What the host programs -/

/-- The registers of the bus access as the host has programmed them when it triggers an access: the
access of the triggering cycle itself replaces the lower half of the address or of the data, and
asks for a write when it writes the data. -/
def programmed (s : Regs cfg) (i : Inputs cfg) : Regs cfg :=
  { s with
    csrs :=
      { s.csrs with
        sbaddr :=
          if servesWrite s i .sbAddress0 then s.csrs.sbaddr.extractLsb' 32 32 ++ i.dmiReq.data
          else s.csrs.sbaddr
        sbdata :=
          if servesWrite s i .sbData0 then s.csrs.sbdata.extractLsb' 32 32 ++ i.dmiReq.data
          else s.csrs.sbdata }
    sba := if servesWrite s i .sbData0 then .write else .read }

/-- The request for the programmed access. -/
def programmedRequest (s : Regs cfg) (i : Inputs cfg) : DmSba.MasterRequest cfg :=
  { masterRequest (programmed s i) i with req := true }

/-- The request that the bus master drives from bus registers at their reset values. -/
def resetRequest (s : Regs cfg) (i : Inputs cfg) : DmSba.MasterRequest cfg :=
  masterRequest { s with csrs := DmCsrs.Regs.reset cfg } i

/-- The access that is under way in a cycle was triggered in another one: the bus master was idle in
that one, and has not been idle since. -/
structure TriggerOf (inputs : ℕ → Inputs cfg) (triggered time : ℕ) : Prop where
  before : triggered < time
  idle : (run inputs triggered).sba = .idle
  busy : ∀ between, triggered < between → between ≤ time → (run inputs between).sba ≠ .idle

/-- A request that the bus does not grant is driven unchanged in the next cycle. -/
def HoldsRequests (inputs : ℕ → Inputs cfg) : Prop :=
  ∀ time, (masterRequest (run inputs time) (inputs time)).req = true →
    (inputs time).master.gnt = false →
      masterRequest (run inputs (time + 1)) (inputs (time + 1)) =
        masterRequest (run inputs time) (inputs time)

/-- Requests are held until the grant, and what the bus grants is the access that the host had
programmed when it was triggered. -/
structure StableRequests (inputs : ℕ → Inputs cfg) : Prop where
  held : HoldsRequests inputs
  programmed : ∀ granted, (masterRequest (run inputs granted) (inputs granted)).req = true →
    (inputs granted).master.gnt = true →
      ∃ triggered, TriggerOf inputs triggered granted ∧
        masterRequest (run inputs granted) (inputs granted) =
          programmedRequest (run inputs triggered) (inputs triggered)

/-- The bus registers are not cleared under the request: the module is active, or the request is
that of the cleared registers already. -/
def KeepsRequest (s : Regs cfg) (i : Inputs cfg) : Prop :=
  s.csrs.dmcontrol.dmactive = true ∨ masterRequest s i = resetRequest s i

instance (s : Regs cfg) (i : Inputs cfg) : Decidable (KeepsRequest s i) :=
  inferInstanceAs (Decidable (_ ∨ _))

/-- What the host programs as it triggers an access is not cleared at once: the module is active, or
the request is that of the cleared registers all the same. -/
def KeepsProgrammed (s : Regs cfg) (i : Inputs cfg) : Prop :=
  s.csrs.dmcontrol.dmactive = true ∨ programmedRequest s i = resetRequest (programmed s i) i

instance (s : Regs cfg) (i : Inputs cfg) : Decidable (KeepsProgrammed s i) :=
  inferInstanceAs (Decidable (_ ∨ _))

/-! ### From one cycle to the next -/

/-- A bus master that drives a request is not idle, and does not wait for a response. -/
theorem sba_of_req {s : Regs cfg} {i : Inputs cfg} (hreq : (masterRequest s i).req = true) :
    s.sba ≠ .idle ∧ waiting s = false := by
  unfold waiting
  rcases ((req_iff s i).mp hreq).1 with hread | hwrite
  · rw [hread]
    decide
  · rw [hwrite]
    decide

/-- The bus master stays in its state until the grant. -/
theorem sba_next_of_ungranted {s : Regs cfg} {i : Inputs cfg}
    (hreq : (masterRequest s i).req = true)
    (hgnt : i.master.gnt = false) : (next s i).sba = s.sba := by
  obtain ⟨hstate, haccepted⟩ := (req_iff s i).mp hreq
  rcases hstate with hread | hwrite
  · rw [sba_next_of_busy i (by simp [hread]), haccepted, hread, hgnt]
    rfl
  · rw [sba_next_of_busy i (by simp [hwrite]), haccepted, hwrite, hgnt]
    rfl

/-- After a cycle in which the module is inactive the bus master drives the cleared registers. -/
theorem masterRequest_next_of_inactive {s s' : Regs cfg} (i i' : Inputs cfg)
    (hinactive : s.csrs.dmcontrol.dmactive = false) (hsba : (next s i).sba = s'.sba) :
    masterRequest (next s i) i' = resetRequest s' i := by
  obtain ⟨haddress, hdata, hsbcs⟩ := busRegisters_next_of_inactive i hinactive
  refine masterRequest_congr (s := { s' with csrs := DmCsrs.Regs.reset cfg }) i i' hsba ?_ ?_ ?_
  · show (next s i).csrs.sbaddr.setWidth cfg.busWidth = _
    rw [haddress]
    rfl
  · show (next s i).csrs.sbcs.sbaccess = _
    rw [hsbcs]
    rfl
  · show (next s i).csrs.sbdata.setWidth cfg.busWidth = _
    rw [hdata]
    rfl

/-- The request after a cycle without a grant and without a response: an active module keeps it,
and an inactive module replaces it by that of the cleared registers. -/
theorem masterRequest_next_of_ungranted {s : Regs cfg} {i : Inputs cfg} (i' : Inputs cfg)
    (hreq : (masterRequest s i).req = true) (hgnt : i.master.gnt = false)
    (hunanswered : i.master.rValid = false) :
    masterRequest (next s i) i' =
      if s.csrs.dmcontrol.dmactive then masterRequest s i else resetRequest s i := by
  have hsba := sba_next_of_ungranted hreq hgnt
  cases hactive : s.csrs.dmcontrol.dmactive with
  | true =>
    have hincomplete : DmSba.completes s.sba (sbaInputs s i) = false := by
      show (_ && i.master.rValid) = false
      rw [hunanswered, Bool.and_false]
    obtain ⟨haddress, haccess, hdata⟩ :=
      busRegisters_next_of_busy i i' hactive (sba_of_req hreq).1 hincomplete
    exact masterRequest_congr i i' hsba haddress haccess (hdata hunanswered)
  | false => exact masterRequest_next_of_inactive i i' hactive hsba

/-- The host makes one access in a cycle: a read is no write. -/
theorem servesRead_of_servesWrite {s : Regs cfg} {i : Inputs cfg} {csr csr' : DmCsr}
    (hserves : servesWrite s i csr = true) : servesRead s i csr' = false := by
  have hwrite := (Bool.and_eq_true_iff.mp (Bool.and_eq_true_iff.mp hserves).1).1
  have hread : DmCsrs.acceptsRead s.csrs (csrInputs s i) = false := by
    by_contra hread
    rw [DmCsrs.acceptsWrite_of_acceptsRead (Bool.not_eq_false _ ▸ hread)] at hwrite
    exact absurd hwrite Bool.false_ne_true
  rw [servesRead, DmCsrs.readsCsr, hread, Bool.false_and, Bool.false_and]

/-- The bus master takes the direction that the host asks for. -/
theorem sba_next_of_trigger {s : Regs cfg} {i : Inputs cfg} (hidle : s.sba = .idle)
    (hleaves : (next s i).sba ≠ .idle) : (next s i).sba = (programmed s i).sba := by
  obtain ⟨hasks, hclear⟩ := (leaves_idle_iff i hidle).mp hleaves
  have hreadonaddr : (sbaInputs s i).sbreadonaddr = s.csrs.sbcs.sbreadonaddr := rfl
  have hreadondata : (sbaInputs s i).sbreadondata = s.csrs.sbcs.sbreadondata := rfl
  rw [sba_next_of_idle i hidle, strobes_eq_serves, DmSba.idleNext, hreadonaddr, hreadondata, hclear]
  show _ = if servesWrite s i .sbData0 then DmSba.State.write else .read
  cases hwrite : servesWrite s i .sbData0 with
  | true =>
    rw [servesRead_of_servesWrite hwrite]
    rfl
  | false =>
    rw [asksTransfer, hwrite] at hasks
    revert hasks
    cases servesRead s i .sbData0 <;> cases servesWrite s i .sbAddress0 <;>
      cases s.csrs.sbcs.sbreadonaddr <;> cases s.csrs.sbcs.sbreadondata <;> decide

/-- The bits above the bus width play no part when the lower half of the address is replaced. -/
theorem setWidth_lowerHalf (address : BitVec 64) (lower : BitVec 32) :
    (((address.setWidth cfg.busWidth).setWidth 64).extractLsb' 32 32 ++ lower).setWidth
        cfg.busWidth =
      (address.extractLsb' 32 32 ++ lower).setWidth cfg.busWidth := by
  apply BitVec.eq_of_getLsbD_eq
  intro index hindex
  simp only [BitVec.getLsbD_setWidth, BitVec.getLsbD_append, BitVec.getLsbD_extractLsb']
  rcases cfg.busWidth_eq with hwidth | hwidth
  · simp [show index < 32 by omega]
  · simp [hwidth, show 32 + (index - 32) < 64 by omega]

/-- The address of an active module after the cycle that triggers an access. -/
theorem busAddress_next_of_trigger {s : Regs cfg} (i : Inputs cfg)
    (hactive : s.csrs.dmcontrol.dmactive = true) (hidle : s.sba = .idle)
    (hasks : asksTransfer s i = true) : busAddress (next s i) = busAddress (programmed s i) := by
  have hincomplete : completes s i = false := by
    rw [completes, DmSba.completes, hidle]
    rfl
  have hupper : servesWrite s i .sbAddress1 = false := servesWrite_of_asksTransfer hasks (by decide)
  cases hlower : servesWrite s i .sbAddress0 with
  | false =>
    rw [busAddress_next i hactive hlower hupper, addrIncr, hincomplete, Bool.false_and,
      if_neg Bool.false_ne_true, add_zero, busAddress, busAddress, programmed, hlower]
    rfl
  | true =>
    have haddress : (csrInputs s i).sbaddress = busAddress s := by
      rw [sbaddress_csrInputs, addrIncr, hincomplete, Bool.false_and, if_neg Bool.false_ne_true,
        add_zero]
    have hwrites : (DmCsrs.writes s.csrs (csrInputs s i) .sbAddress0 &&
        DmCsrs.busIdle s.csrs (csrInputs s i)) = true := hlower
    rw [busAddress, (busRegisters_next_of_active i hactive).1, csrSignals, DmCsrs.sbaddr_eq,
      hwrites, if_pos rfl, haddress, busAddress, busAddress, programmed, hlower]
    exact setWidth_lowerHalf _ _

/-- The request after the cycle that triggers an access: an active module drives what the host has
programmed, and an inactive module drives the cleared registers. -/
theorem masterRequest_next_of_trigger {s : Regs cfg} {i : Inputs cfg} (i' : Inputs cfg)
    (hidle : s.sba = .idle) (hleaves : (next s i).sba ≠ .idle)
    (hunanswered : i.master.rValid = false) :
    masterRequest (next s i) i' =
      if s.csrs.dmcontrol.dmactive then masterRequest (programmed s i) i
      else resetRequest (programmed s i) i := by
  have hsba := sba_next_of_trigger hidle hleaves
  have hasks := (trigger_of_leaves_idle hidle hleaves).1
  cases hactive : s.csrs.dmcontrol.dmactive with
  | true =>
    refine masterRequest_congr i i' hsba ?_ ?_ ?_
    · exact busAddress_next_of_trigger i hactive hidle hasks
    · show (next s i).csrs.sbcs.sbaccess = _
      rw [(busRegisters_next_of_active i hactive).2.2, csrSignals,
        (DmCsrs.sbcs_control_eq s.csrs (csrInputs s i)).1, DmCsrs.writtenSbcs,
        show DmCsrs.writes s.csrs (csrInputs s i) .sbcs = false from
          not_writes_of_asksTransfer hasks (by decide)]
      rfl
    · show (next s i).csrs.sbdata.setWidth cfg.busWidth = _
      rw [sbdata_next i hactive, hunanswered, if_neg Bool.false_ne_true,
        servesWrite_of_asksTransfer hasks (by decide : DmCsr.sbData1 ≠ _ ∧ _),
        if_neg Bool.false_ne_true]
      rfl
  | false => exact masterRequest_next_of_inactive i i' hactive hsba

/-- A bus master that drives a request after a busy cycle has driven it in that cycle, and was not
granted it. -/
theorem requesting_of_next {s : Regs cfg} {i i' : Inputs cfg} (hbusy : s.sba ≠ .idle)
    (hreq : (masterRequest (next s i) i').req = true) :
    (masterRequest s i).req = true ∧ i.master.gnt = false := by
  have hrequesting := ((req_iff (next s i) i').mp hreq).1
  rw [sba_next_of_busy i hbusy] at hrequesting
  rw [req_iff]
  cases hrefused : refused s i with
  | true =>
    rw [hrefused, if_pos rfl] at hrequesting
    exact absurd hrequesting (by decide)
  | false =>
    rw [hrefused, if_neg Bool.false_ne_true] at hrequesting
    revert hrequesting
    cases hsba : s.sba <;> cases i.master.gnt <;> cases i.master.rValid <;> decide

/-! ### Runs -/

/-- What a request is that is driven without a grant after the cycle in which it is driven first. -/
theorem request_until_granted {inputs : ℕ → Inputs cfg} (hheld : HoldsRequests inputs)
    {first : ℕ} (hreq : (masterRequest (run inputs first) (inputs first)).req = true) {delay : ℕ}
    (hdelay : ∀ time, first ≤ time → time < first + delay → (inputs time).master.gnt = false) :
    masterRequest (run inputs (first + delay)) (inputs (first + delay)) =
      masterRequest (run inputs first) (inputs first) := by
  induction delay with
  | zero => rfl
  | succ delay ih =>
    have hbefore := ih fun time hafter hlt ↦ hdelay time hafter (by omega)
    have hstep := hheld (first + delay) (by rw [hbefore]; exact hreq)
      (hdelay (first + delay) (by omega) (by omega))
    exact hstep.trans hbefore

/-- A busy bus master has been triggered. -/
theorem exists_triggerOf {inputs : ℕ → Inputs cfg} {time : ℕ}
    (hbusy : (run inputs time).sba ≠ .idle) : ∃ triggered, TriggerOf inputs triggered time := by
  induction time with
  | zero => exact absurd rfl hbusy
  | succ time ih =>
    by_cases hidle : (run inputs time).sba = .idle
    · refine ⟨time, Nat.lt_succ_self time, hidle, fun between hafter hle ↦ ?_⟩
      obtain rfl : between = time + 1 := by omega
      exact hbusy
    · obtain ⟨triggered, htrigger⟩ := ih hidle
      refine ⟨triggered, htrigger.before.trans (Nat.lt_succ_self time), htrigger.idle,
        fun between hafter hle ↦ ?_⟩
      rcases Nat.le_succ_iff.mp hle with hearlier | rfl
      · exact htrigger.busy between hafter hearlier
      · exact hbusy

/-- An access has one trigger. -/
theorem TriggerOf.unique {inputs : ℕ → Inputs cfg} {first second time : ℕ}
    (hfirst : TriggerOf inputs first time) (hsecond : TriggerOf inputs second time) :
    first = second := by
  rcases lt_trichotomy first second with hlt | hsame | hlt
  · exact absurd hsecond.idle (hfirst.busy second hlt hsecond.before.le)
  · exact hsame
  · exact absurd hfirst.idle (hsecond.busy first hlt hfirst.before.le)

/-- Between the trigger of an access and a cycle that drives its request, the request is driven and
not granted. The induction goes back from that cycle. -/
theorem TriggerOf.requests {inputs : ℕ → Inputs cfg} {triggered last : ℕ}
    (htrigger : TriggerOf inputs triggered last)
    (hreq : (masterRequest (run inputs last) (inputs last)).req = true) {time : ℕ}
    (hafter : triggered < time) (hle : time ≤ last) :
    (masterRequest (run inputs time) (inputs time)).req = true ∧
      (time < last → (inputs time).master.gnt = false) := by
  induction hle using Nat.decreasingInduction with
  | self => exact ⟨hreq, fun hlt ↦ absurd hlt (lt_irrefl last)⟩
  | of_succ time hlt ih =>
    have hnext := (ih (by omega)).1
    rw [run_succ] at hnext
    obtain ⟨hdriven, hgnt⟩ := requesting_of_next (htrigger.busy time hafter hlt.le) hnext
    exact ⟨hdriven, fun _ ↦ hgnt⟩

/-- Where requests are held, a request is that of the registers after its trigger. -/
theorem request_of_triggerOf {inputs : ℕ → Inputs cfg} (hbus : BusConforms inputs)
    (hheld : HoldsRequests inputs) {triggered time : ℕ} (htrigger : TriggerOf inputs triggered time)
    (hreq : (masterRequest (run inputs time) (inputs time)).req = true) :
    masterRequest (run inputs time) (inputs time) =
      if (run inputs triggered).csrs.dmcontrol.dmactive then
        programmedRequest (run inputs triggered) (inputs triggered)
      else resetRequest (programmed (run inputs triggered) (inputs triggered))
        (inputs triggered) := by
  have hfirst : triggered + 1 ≤ time := htrigger.before
  obtain ⟨delay, rfl⟩ := Nat.exists_eq_add_of_le hfirst
  have hdriven := (htrigger.requests hreq (Nat.lt_succ_self triggered) hfirst).1
  have hheldUntil := request_until_granted hheld hdriven fun earlier hafter hlt ↦
    (htrigger.requests hreq hafter hlt.le).2 hlt
  have hleaves : (next (run inputs triggered) (inputs triggered)).sba ≠ .idle := by
    rw [← run_succ]
    exact htrigger.busy (triggered + 1) (Nat.lt_succ_self triggered) hfirst
  have hnext := masterRequest_next_of_trigger (inputs (triggered + 1)) htrigger.idle hleaves
    (unanswered_of_not_waiting hbus (by rw [waiting, htrigger.idle]; rfl))
  rw [← run_succ] at hnext
  rw [hheldUntil, hnext]
  split_ifs with hactive
  · rw [hnext, if_pos hactive] at hdriven
    exact (congrArg (fun req ↦ { masterRequest (programmed (run inputs triggered)
      (inputs triggered)) (inputs triggered) with req := req }) hdriven)
  · rfl

/-- With a conforming bus, the requests of a run are held exactly when the module is active in each
cycle that ends with a request pending, or the request is that of the cleared registers. -/
theorem holdsRequests_iff (inputs : ℕ → Inputs cfg) (hbus : BusConforms inputs) :
    HoldsRequests inputs ↔
      ∀ time, (masterRequest (run inputs time) (inputs time)).req = true →
        (inputs time).master.gnt = false → KeepsRequest (run inputs time) (inputs time) := by
  constructor
  · intro hheld time hreq hgnt
    have hsame := hheld time hreq hgnt
    have hunanswered := unanswered_of_not_waiting hbus (sba_of_req hreq).2
    rw [run_succ, masterRequest_next_of_ungranted _ hreq hgnt hunanswered] at hsame
    cases hactive : (run inputs time).csrs.dmcontrol.dmactive with
    | true => exact Or.inl hactive
    | false =>
      rw [hactive, if_neg Bool.false_ne_true] at hsame
      exact Or.inr hsame.symm
  · intro hkeeps time hreq hgnt
    have hunanswered := unanswered_of_not_waiting hbus (sba_of_req hreq).2
    rw [run_succ, masterRequest_next_of_ungranted _ hreq hgnt hunanswered]
    rcases hkeeps time hreq hgnt with hactive | hsame
    · rw [if_pos hactive]
    · split_ifs
      · rfl
      · exact hsame.symm

/-- With a conforming bus, the requests of a run are stable exactly when, in each cycle that ends
with a request pending and in each one that triggers an access which the bus grants, the module is
active or its cleared registers make the same request. -/
theorem stableRequests_iff (inputs : ℕ → Inputs cfg) (hbus : BusConforms inputs) :
    StableRequests inputs ↔
      (∀ time, (masterRequest (run inputs time) (inputs time)).req = true →
        (inputs time).master.gnt = false → KeepsRequest (run inputs time) (inputs time)) ∧
      ∀ triggered granted, TriggerOf inputs triggered granted →
        (masterRequest (run inputs granted) (inputs granted)).req = true →
          (inputs granted).master.gnt = true →
            KeepsProgrammed (run inputs triggered) (inputs triggered) := by
  rw [← holdsRequests_iff inputs hbus]
  constructor
  · intro hstable
    refine ⟨hstable.held, fun triggered granted htrigger hreq hgnt ↦ ?_⟩
    obtain ⟨triggered', htrigger', hsame⟩ := hstable.programmed granted hreq hgnt
    obtain rfl := htrigger.unique htrigger'
    have hdriven := request_of_triggerOf hbus hstable.held htrigger hreq
    cases hactive : (run inputs triggered).csrs.dmcontrol.dmactive with
    | true => exact Or.inl hactive
    | false =>
      rw [hactive, if_neg Bool.false_ne_true] at hdriven
      exact Or.inr (hsame.symm.trans hdriven)
  · rintro ⟨hheld, hkeeps⟩
    refine ⟨hheld, fun granted hreq hgnt ↦ ?_⟩
    obtain ⟨triggered, htrigger⟩ := exists_triggerOf (sba_of_req hreq).1
    refine ⟨triggered, htrigger, (request_of_triggerOf hbus hheld htrigger hreq).trans ?_⟩
    rcases hkeeps triggered granted htrigger hreq hgnt with hactive | hsame
    · rw [if_pos hactive]
    · split_ifs
      · rfl
      · exact hsame.symm

/-- The host programs an address, writes the data, and deactivates the module before the bus has
granted the request. -/
def abandonedWriteRun : ℕ → Inputs oneHart :=
  script
    [(Inputs.quiet oneHart).withRequest ⟨0x10, dtmWrite, 0x00000001⟩,
      (Inputs.quiet oneHart).withRequest ⟨0x39, dtmWrite, 0x00000100⟩,
      (Inputs.quiet oneHart).withRequest ⟨0x3c, dtmWrite, 0xdeadbeef⟩,
      (Inputs.quiet oneHart).withRequest ⟨0x10, dtmWrite, 0x00000000⟩]

/-- The pending write moves to address zero with zero data. -/
theorem abandonedWriteRun_moves :
    BusConforms abandonedWriteRun ∧ ¬ StableRequests abandonedWriteRun := by
  refine ⟨busConforms_script (by decide +kernel), fun hstable ↦ ?_⟩
  have hsame := congrArg DmSba.MasterRequest.add
    (hstable.held 4 (by decide +kernel) (by decide +kernel))
  revert hsame
  decide +kernel

/-- The host programs an address, deactivates the module, and writes the data in the first cycle in
which it is inactive. The bus grants the request at once. -/
def strayWriteRun : ℕ → Inputs oneHart :=
  script
    [(Inputs.quiet oneHart).withRequest ⟨0x10, dtmWrite, 0x00000001⟩,
      (Inputs.quiet oneHart).withRequest ⟨0x39, dtmWrite, 0x00000100⟩,
      (Inputs.quiet oneHart).withRequest ⟨0x10, dtmWrite, 0x00000000⟩,
      (Inputs.quiet oneHart).withRequest ⟨0x3c, dtmWrite, 0xdeadbeef⟩,
      { Inputs.quiet oneHart with master := ⟨true, false, false, false, 0⟩ }]

/-- No request of the run waits for its grant, and yet the write goes to address zero. -/
theorem strayWriteRun_strays :
    BusConforms strayWriteRun ∧ ¬ StableRequests strayWriteRun := by
  refine ⟨busConforms_script (by decide +kernel), fun hstable ↦ ?_⟩
  obtain ⟨triggered, htrigger, hsame⟩ :=
    hstable.programmed 4 (by decide +kernel) (by decide +kernel)
  have hunique : TriggerOf strayWriteRun 3 4 := by
    refine ⟨by decide, by decide +kernel, fun between hafter hle ↦ ?_⟩
    obtain rfl : between = 4 := by omega
    decide +kernel
  obtain rfl := htrigger.unique hunique
  have haddress := congrArg DmSba.MasterRequest.add hsame
  revert haddress
  decide +kernel

/-- The host programs an address and writes the data, and the bus grants the request after a
delay and answers it. -/
def grantedWrite : List (Inputs oneHart) :=
  [(Inputs.quiet oneHart).withRequest ⟨0x10, dtmWrite, 0x00000001⟩,
    (Inputs.quiet oneHart).withRequest ⟨0x39, dtmWrite, 0x00000100⟩,
    (Inputs.quiet oneHart).withRequest ⟨0x3c, dtmWrite, 0xdeadbeef⟩,
    Inputs.quiet oneHart,
    { Inputs.quiet oneHart with master := ⟨true, false, false, false, 0⟩ },
    { Inputs.quiet oneHart with master := ⟨false, true, false, false, 0⟩ }]

/-- The request of the run is driven in two cycles, and is stable. -/
theorem grantedWrite_stable :
    (masterRequest (run (script grantedWrite) 3) (script grantedWrite 3)).req = true ∧
      StableRequests (script grantedWrite) := by
  -- The module is active in every cycle but the first one, in which no access is triggered.
  have hactive (time : ℕ) (hlate : time ≠ 0) :
      (run (script grantedWrite) time).csrs.dmcontrol.dmactive = true := by
    have hcycles : ∀ early ≤ 8,
        (run (script grantedWrite) (early + 1)).csrs.dmcontrol.dmactive = true := by decide +kernel
    obtain ⟨before, rfl⟩ := Nat.exists_eq_succ_of_ne_zero hlate
    obtain ⟨early, hearly, -, hrun, -⟩ := exists_early (show grantedWrite.length ≤ 8 by decide)
      (show run (script grantedWrite) 9 = run (script grantedWrite) 8 by decide +kernel) before
    rw [Nat.succ_eq_add_one, hrun]
    exact hcycles early hearly
  refine ⟨by decide +kernel, (stableRequests_iff (script grantedWrite)
    (busConforms_script (by decide +kernel))).mpr ⟨fun time hreq hgnt ↦ ?_,
      fun triggered granted htrigger hreq hgnt ↦ ?_⟩⟩
  · refine Or.inl (hactive time ?_)
    rintro rfl
    exact absurd hreq (by decide +kernel)
  · refine Or.inl (hactive triggered ?_)
    rintro rfl
    exact absurd (htrigger.busy 1 Nat.zero_lt_one htrigger.before) (by decide +kernel)

end RiscvDebug.DmTop
