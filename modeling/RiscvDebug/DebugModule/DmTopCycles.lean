import RiscvDebug.DebugModule.DmCsrsUpdates
import RiscvDebug.DebugModule.DmTop

/-!
# What one cycle of the debug module does

The transitions of the hart control (`state_next_of_idle` to `state_next_of_cmdExecuting`), the
registers of `dm_csrs` while the module is active and while it is not, and the bits a hart sets by
its writes. `resumeTaken` and `commandTaken` are the two conditions under which the hart control
leaves Idle.
-/

set_option autoImplicit false
set_option relaxedAutoImplicit false

namespace RiscvDebug.DmTop

open Foundations

variable {cfg : Config}

/-! ### Hart selection -/

/-- The index of the selected hart. -/
def Regs.selected (s : Regs cfg) : ℕ := s.csrs.selectedHart

theorem selected_memInputs (s : Regs cfg) (i : Inputs cfg) (clearResumeack : Bool) :
    (memInputs s i clearResumeack).selected = s.selected := rfl

/-- A bit that is set in a vector of the harts belongs to a hart that exists. -/
theorem lt_nrHarts_of_getLsbD {vector : BitVec cfg.nrHarts} {hart : ℕ}
    (hbit : vector.getLsbD hart = true) : hart < cfg.nrHarts := by
  by_contra hge
  rw [BitVec.getLsbD_of_ge vector hart (not_lt.mp hge)] at hbit
  exact Bool.false_ne_true hbit

theorem selectedHartValid_iff (q : DmCsrs.Regs cfg) :
    q.selectedHartValid = true ↔ q.selectedHart < cfg.nrHarts := by
  have hpos := cfg.nrHarts_pos
  simp only [DmCsrs.Regs.selectedHartValid, decide_eq_true_eq]
  omega

/-- The resume request of the selected hart. -/
theorem resumereq_selected {q : DmCsrs.Regs cfg} (hvalid : q.selectedHart < cfg.nrHarts) :
    q.resumereq.getLsbD q.selectedHart = q.dmcontrol.resumereq := by
  simp [DmCsrs.Regs.resumereq, (selectedHartValid_iff q).mpr hvalid, hvalid]

/-- The halt request of the selected hart. -/
theorem haltreq_selected {q : DmCsrs.Regs cfg} (hvalid : q.selectedHart < cfg.nrHarts) :
    q.haltreq.getLsbD q.selectedHart = q.dmcontrol.haltreq := by
  simp [DmCsrs.Regs.haltreq, (selectedHartValid_iff q).mpr hvalid, hvalid]

/-! ### The hart control -/

/-- In Idle a resume request of the selected hart is taken: the hart is halted, has not
acknowledged an earlier request and is not asked to halt. -/
def resumeTaken (s : Regs cfg) : Bool :=
  s.csrs.dmcontrol.resumereq && !s.mem.resuming.getLsbD s.selected &&
    !s.csrs.dmcontrol.haltreq && s.mem.halted.getLsbD s.selected

/-- In Idle the command pulse starts the command: the selected hart is halted and the command is
supported. -/
def commandTaken (s : Regs cfg) : Bool :=
  s.csrs.cmdValid && s.mem.halted.getLsbD s.selected && !cfg.unsupportedCommand s.csrs.command

theorem resumeTaken_eq (s : Regs cfg) (i : Inputs cfg) (clearResumeack : Bool) :
    ((memInputs s i clearResumeack).resumereq.getLsbD s.selected &&
        !s.mem.resuming.getLsbD s.selected &&
        !(memInputs s i clearResumeack).haltreq.getLsbD s.selected &&
        s.mem.halted.getLsbD s.selected) = resumeTaken s := by
  cases hhalted : s.mem.halted.getLsbD s.selected with
  | false => simp [resumeTaken, hhalted]
  | true =>
    have hvalid : s.csrs.selectedHart < cfg.nrHarts := lt_nrHarts_of_getLsbD hhalted
    have hresume : (memInputs s i clearResumeack).resumereq.getLsbD s.selected =
        s.csrs.dmcontrol.resumereq := resumereq_selected hvalid
    have hhalt : (memInputs s i clearResumeack).haltreq.getLsbD s.selected =
        s.csrs.dmcontrol.haltreq := haltreq_selected hvalid
    simp [resumeTaken, hresume, hhalt, hhalted]

theorem idleBranch_outputs (r : DmMem.Regs cfg) (i : DmMem.Inputs cfg) :
    (DmMem.idleBranch r i).cmdbusy = false ∧ (DmMem.idleBranch r i).go = false ∧
      (DmMem.idleBranch r i).resume = false := by
  unfold DmMem.idleBranch
  simp only
  split_ifs <;> exact ⟨rfl, rfl, rfl⟩

/-- The outputs to the harts and to `dm_csrs` depend on the state alone. -/
theorem stateBranch_outputs (r : DmMem.Regs cfg) (i : DmMem.Inputs cfg) :
    (DmMem.stateBranch r i).cmdbusy = (r.state != .idle) ∧
      (DmMem.stateBranch r i).go = (r.state == .go) ∧
      (DmMem.stateBranch r i).resume = (r.state == .resume) := by
  unfold DmMem.stateBranch
  cases r.state with
  | idle => exact idleBranch_outputs r i
  | go => exact ⟨rfl, rfl, rfl⟩
  | resume => exact ⟨rfl, rfl, rfl⟩
  | cmdExecuting => exact ⟨rfl, rfl, rfl⟩

/-- The command unit is busy in every state but Idle. -/
theorem hartCtrlQueue_cmdbusy (r : DmMem.Regs cfg) (i : DmMem.Inputs cfg) :
    (DmMem.hartCtrlQueue r i).cmdbusy = (r.state != .idle) := by
  rw [← (stateBranch_outputs r i).1]
  unfold DmMem.hartCtrlQueue
  split_ifs <;> rfl

theorem cmdbusy_eq (s : Regs cfg) (i : Inputs cfg) :
    (ctrl s i).cmdbusy = (s.mem.state != .idle) :=
  hartCtrlQueue_cmdbusy s.mem (memInputs s i false)

/-- Go is offered in the state Go only, and Resume in the state Resume only, and neither while the
harts are reset. -/
theorem hartCtrlQueue_offers (r : DmMem.Regs cfg) (i : DmMem.Inputs cfg) :
    (DmMem.hartCtrlQueue r i).go = (r.state == .go && !i.ndmreset) ∧
      (DmMem.hartCtrlQueue r i).resume = (r.state == .resume && !i.ndmreset) := by
  obtain ⟨-, hgo, hresume⟩ := stateBranch_outputs r i
  rw [← hgo, ← hresume]
  unfold DmMem.hartCtrlQueue
  cases i.ndmreset with
  | true => simp
  | false =>
    simp only [Bool.not_false, Bool.and_true, Bool.false_eq_true, if_false]
    split_ifs <;> exact ⟨rfl, rfl⟩

theorem offers_eq (s : Regs cfg) (i : Inputs cfg) :
    (ctrl s i).go = (s.mem.state == .go && !s.csrs.dmcontrol.ndmreset) ∧
      (ctrl s i).resume = (s.mem.state == .resume && !s.csrs.dmcontrol.ndmreset) :=
  hartCtrlQueue_offers s.mem (memInputs s i false)

theorem state_next (s : Regs cfg) (i : Inputs cfg) :
    (next s i).mem.state =
      if s.csrs.dmcontrol.ndmreset then .idle
      else (DmMem.stateBranch s.mem (memInputs s i false)).state := by
  show (DmMem.hartCtrlQueue s.mem (memInputs s i false)).state = _
  unfold DmMem.hartCtrlQueue
  show (if s.csrs.dmcontrol.ndmreset then _ else _ : DmMem.CtrlSignals).state = _
  cases s.csrs.dmcontrol.ndmreset with
  | true => simp
  | false =>
    simp only [Bool.false_eq_true, if_false]
    split_ifs <;> rfl

/-- From Idle a resume request goes before a command. -/
theorem state_next_of_idle {s : Regs cfg} (i : Inputs cfg) (hidle : s.mem.state = .idle) :
    (next s i).mem.state =
      if s.csrs.dmcontrol.ndmreset then .idle
      else if resumeTaken s then .resume
      else if commandTaken s then .go
      else .idle := by
  rw [state_next]
  congr 1
  unfold DmMem.stateBranch DmMem.idleBranch
  simp only [hidle, selected_memInputs, resumeTaken_eq]
  unfold commandTaken
  show (if resumeTaken s then _ else _ : DmMem.CtrlSignals).state = _
  have hcmdValid : (memInputs s i false).cmdValid = s.csrs.cmdValid := rfl
  have hcmd : (memInputs s i false).cmd = s.csrs.command := rfl
  rw [hcmdValid, hcmd]
  split_ifs <;> rfl

theorem state_next_of_go {s : Regs cfg} (i : Inputs cfg) (hgo : s.mem.state = .go) :
    (next s i).mem.state =
      if s.csrs.dmcontrol.ndmreset then .idle
      else if i.slave.writes DmMem.goingAddr then .cmdExecuting
      else .go := by
  rw [state_next]
  simp only [DmMem.stateBranch, hgo]
  rfl

theorem state_next_of_resume {s : Regs cfg} (i : Inputs cfg) (hresume : s.mem.state = .resume) :
    (next s i).mem.state =
      if s.csrs.dmcontrol.ndmreset then .idle
      else if s.mem.resuming.getLsbD s.selected then .idle
      else .resume := by
  rw [state_next]
  simp only [DmMem.stateBranch, hresume]
  rfl

theorem state_next_of_cmdExecuting {s : Regs cfg} (i : Inputs cfg)
    (hexecuting : s.mem.state = .cmdExecuting) :
    (next s i).mem.state =
      if s.csrs.dmcontrol.ndmreset then .idle
      else if i.slave.writes DmMem.haltedAddr && i.slave.wdataHartsel == s.selected then .idle
      else .cmdExecuting := by
  rw [state_next]
  simp only [DmMem.stateBranch, hexecuting]
  rfl

/-! ### Harts -/

/-- The hart with a given index writes its index to a control address. -/
def Inputs.hartWrites (i : Inputs cfg) (address : BitVec 12) (hart : ℕ) : Bool :=
  i.slave.writes address && i.slave.wdataHartsel == hart

/-- A bit of the writing hart is set or cleared, that of every other hart is kept. -/
theorem getLsbD_hartBit (a : DmMem.SlaveAccess cfg) (address : BitVec 12)
    (vector : BitVec cfg.nrHarts) (value : Bool) {hart : ℕ} (hhart : hart < cfg.nrHarts) :
    (if a.writes address && a.wdataHartselValid then setBit vector a.wdataHartsel value
        else vector).getLsbD hart =
      if a.writes address && a.wdataHartsel == hart then value else vector.getLsbD hart := by
  by_cases hwrites : a.writes address = true
  · by_cases hsame : a.wdataHartsel = hart
    · have hvalid : a.wdataHartselValid = true := by
        simp only [DmMem.SlaveAccess.wdataHartselValid, hsame, decide_eq_true_eq]
        omega
      simp [hwrites, hsame, hvalid, hhart]
    · have hother : ¬ hart = a.wdataHartsel := fun h ↦ hsame h.symm
      simp only [hwrites, hsame, Bool.true_and, beq_iff_eq, if_false]
      split_ifs
      · simp [hother]
      · rfl
  · simp [hwrites]

/-- A hart is halted after a cycle when it writes Halted in it, or was halted and does not write
Resuming. -/
theorem halted_next (s : Regs cfg) (i : Inputs cfg) {hart : ℕ} (hhart : hart < cfg.nrHarts) :
    (next s i).mem.halted.getLsbD hart =
      (cfg.selectableHarts.getLsbD hart && !s.csrs.dmcontrol.ndmreset &&
        (i.hartWrites DmMem.haltedAddr hart ||
          (s.mem.halted.getLsbD hart && !i.hartWrites DmMem.resumingAddr hart))) := by
  show (cfg.selectableHarts &&& DmMem.haltedNext s.mem (memInputs s i _)).getLsbD hart = _
  rw [BitVec.getLsbD_and, Bool.and_assoc]
  congr 1
  unfold DmMem.haltedNext
  show (if s.csrs.dmcontrol.ndmreset then 0 else _ : BitVec cfg.nrHarts).getLsbD hart = _
  cases s.csrs.dmcontrol.ndmreset with
  | true => simp
  | false =>
    have hset := getLsbD_hartBit i.slave DmMem.haltedAddr s.mem.halted true hhart
    have hclear := getLsbD_hartBit i.slave DmMem.resumingAddr s.mem.halted false
      hhart
    have hdistinct : i.slave.writes DmMem.haltedAddr = true →
        i.slave.writes DmMem.resumingAddr = false := by
      intro hwrites
      simp only [DmMem.SlaveAccess.writes, Bool.and_eq_true, beq_iff_eq] at hwrites
      simp [DmMem.SlaveAccess.writes, hwrites.2, DmMem.haltedAddr, DmMem.resumingAddr]
    have hslave : (memInputs s i (csrSignals s i).clearResumeack).slave = i.slave := rfl
    simp only [Bool.false_eq_true, if_false, Bool.not_false, Bool.true_and, hslave,
      Inputs.hartWrites]
    cases hhalted : i.slave.writes DmMem.haltedAddr with
    | true =>
      simp only [hhalted, hdistinct hhalted, Bool.true_and, Bool.false_and, Bool.false_eq_true,
        if_false, Bool.not_false, Bool.and_true] at hset ⊢
      rw [hset]
      cases (i.slave.wdataHartsel == hart) <;> simp
    | false =>
      simp only [Bool.false_and, Bool.false_eq_true, if_false, Bool.false_or]
      rw [hclear]
      cases (i.slave.writes DmMem.resumingAddr && i.slave.wdataHartsel == hart) <;> simp

/-- The acknowledgement of a hart after a cycle: set by its write to Resuming, and otherwise
cleared for the selected hart by the pulse of `dm_csrs`. -/
theorem resuming_next (s : Regs cfg) (i : Inputs cfg) {hart : ℕ} (hhart : hart < cfg.nrHarts) :
    (next s i).mem.resuming.getLsbD hart =
      (cfg.selectableHarts.getLsbD hart && !s.csrs.dmcontrol.ndmreset &&
        (i.hartWrites DmMem.resumingAddr hart ||
          (s.mem.resuming.getLsbD hart &&
            !((csrSignals s i).clearResumeack && s.selected == hart)))) := by
  show (cfg.selectableHarts &&& DmMem.resumingNext s.mem (memInputs s i _)).getLsbD hart = _
  rw [BitVec.getLsbD_and, Bool.and_assoc]
  congr 1
  unfold DmMem.resumingNext
  show (if s.csrs.dmcontrol.ndmreset then 0 else _ : BitVec cfg.nrHarts).getLsbD hart = _
  cases s.csrs.dmcontrol.ndmreset with
  | true => simp
  | false =>
    have hslave : (memInputs s i (csrSignals s i).clearResumeack).slave = i.slave := rfl
    have hpulse : (memInputs s i (csrSignals s i).clearResumeack).clearResumeack =
        (csrSignals s i).clearResumeack := rfl
    simp only [Bool.false_eq_true, if_false, Bool.not_false, Bool.true_and, hslave, hpulse,
      Inputs.hartWrites]
    rw [getLsbD_hartBit _ _ _ _ hhart]
    have hcleared : (if (csrSignals s i).clearResumeack &&
          (memInputs s i (csrSignals s i).clearResumeack).selectedValid then
          setBit s.mem.resuming (memInputs s i (csrSignals s i).clearResumeack).selected false
        else s.mem.resuming).getLsbD hart =
        (s.mem.resuming.getLsbD hart &&
          !((csrSignals s i).clearResumeack && s.selected == hart)) := by
      by_cases hsame : s.selected = hart
      · have hvalid : (memInputs s i (csrSignals s i).clearResumeack).selectedValid = true := by
          simp only [DmMem.Inputs.selectedValid, selected_memInputs, hsame, decide_eq_true_eq]
          omega
        rw [hvalid, selected_memInputs, hsame]
        cases (csrSignals s i).clearResumeack <;> simp
      · have hother : ¬ hart = s.selected := fun h ↦ hsame h.symm
        rw [selected_memInputs]
        split_ifs <;> simp [hsame, hother]
    rw [hcleared]
    cases (i.slave.writes DmMem.resumingAddr && i.slave.wdataHartsel == hart) <;> simp

/-! ### Accesses of the DMI host -/

/-- An accepted write of the register `csr`. -/
def writes (s : Regs cfg) (i : Inputs cfg) (csr : DmCsr) : Bool :=
  DmCsrs.writes s.csrs (csrInputs s i) csr

/-- A request that is accepted in this cycle. -/
def accepts (s : Regs cfg) (i : Inputs cfg) : Bool := DmCsrs.accepts s.csrs (csrInputs s i)

/-- A trigger that is accepted in this cycle and answered with success. -/
def triggers (s : Regs cfg) (i : Inputs cfg) : Bool := DmCsrs.triggers s.csrs (csrInputs s i)

/-- The control register as the DMI access of the cycle leaves it, before the WARL rules. -/
def writtenDmcontrol (s : Regs cfg) (i : Inputs cfg) : Dmcontrol :=
  DmCsrs.writtenDmcontrol s.csrs (csrInputs s i)

theorem writtenDmcontrol_of_writes {s : Regs cfg} {i : Inputs cfg}
    (hwrites : writes s i .dmControl = true) :
    writtenDmcontrol s i = Dmcontrol.ofBits i.dmiReq.data :=
  if_pos hwrites

theorem writtenDmcontrol_of_not_writes {s : Regs cfg} {i : Inputs cfg}
    (hwrites : writes s i .dmControl = false) : writtenDmcontrol s i = s.csrs.dmcontrol :=
  if_neg (by rw [Bool.not_eq_true]; exact hwrites)

/-- The hart a control register selects, after the WARL mask. -/
def hartOf (cfg : Config) (c : Dmcontrol) : ℕ := cfg.hartIndex (c.hartsel &&& cfg.hartselMask)

theorem cmdValid_next (s : Regs cfg) (i : Inputs cfg) :
    (next s i).csrs.cmdValid = (s.csrs.dmcontrol.dmactive && triggers s i) := by
  have hcmdValid := DmCsrs.cmdValid_eq s.csrs (csrInputs s i)
  show (DmCsrs.next s.csrs (csrInputs s i)).cmdValid = _
  unfold DmCsrs.next
  cases s.csrs.dmcontrol.dmactive <;> simp [hcmdValid, triggers, DmCsrs.Regs.reset]

theorem dmactive_next (s : Regs cfg) (i : Inputs cfg) :
    (next s i).csrs.dmcontrol.dmactive = (writtenDmcontrol s i).dmactive := by
  have hdmactive := DmCsrs.dmactive_eq s.csrs (csrInputs s i)
  show (DmCsrs.next s.csrs (csrInputs s i)).dmcontrol.dmactive = _
  unfold DmCsrs.next
  cases s.csrs.dmcontrol.dmactive <;> simp [hdmactive, writtenDmcontrol]

theorem resumereq_next (s : Regs cfg) (i : Inputs cfg) :
    (next s i).csrs.dmcontrol.resumereq =
      (s.csrs.dmcontrol.dmactive && !(s.csrs.dmcontrol.resumereq && s.mem.resuming != 0) &&
        (writtenDmcontrol s i).resumereq) := by
  have hresumereq := DmCsrs.resumereq_eq s.csrs (csrInputs s i)
  have hack : (csrInputs s i).resumeack = s.mem.resuming := rfl
  show (DmCsrs.next s.csrs (csrInputs s i)).dmcontrol.resumereq = _
  unfold DmCsrs.next
  cases s.csrs.dmcontrol.dmactive with
  | false => rfl
  | true =>
    simp only [if_true, hresumereq, hack, Bool.true_and, writtenDmcontrol]
    cases s.csrs.dmcontrol.resumereq && s.mem.resuming != 0 <;> simp

theorem haltreq_next (s : Regs cfg) (i : Inputs cfg) :
    (next s i).csrs.dmcontrol.haltreq =
      (s.csrs.dmcontrol.dmactive && (writtenDmcontrol s i).haltreq) := by
  have hhaltreq := DmCsrs.haltreq_eq s.csrs (csrInputs s i)
  show (DmCsrs.next s.csrs (csrInputs s i)).dmcontrol.haltreq = _
  unfold DmCsrs.next
  cases s.csrs.dmcontrol.dmactive with
  | false => rfl
  | true => simp [hhaltreq, writtenDmcontrol]

theorem ndmreset_next (s : Regs cfg) (i : Inputs cfg) :
    (next s i).csrs.dmcontrol.ndmreset =
      (s.csrs.dmcontrol.dmactive && (writtenDmcontrol s i).ndmreset) := by
  have hndmreset := DmCsrs.ndmreset_eq s.csrs (csrInputs s i)
  show (DmCsrs.next s.csrs (csrInputs s i)).dmcontrol.ndmreset = _
  unfold DmCsrs.next
  cases s.csrs.dmcontrol.dmactive with
  | false => rfl
  | true => simp [hndmreset, writtenDmcontrol]

theorem hartsel_next (s : Regs cfg) (i : Inputs cfg) :
    (next s i).csrs.dmcontrol.hartsel =
      if s.csrs.dmcontrol.dmactive then (writtenDmcontrol s i).hartsel &&& cfg.hartselMask
      else 0 := by
  have hhartsel := DmCsrs.hartsel_eq s.csrs (csrInputs s i)
  have hreset (active : Bool) :
      ({ Dmcontrol.reset with dmactive := active } : Dmcontrol).hartsel = 0 := by
    simp [Dmcontrol.hartsel, Dmcontrol.reset, Dmcontrol.ofBits]
  show (DmCsrs.next s.csrs (csrInputs s i)).dmcontrol.hartsel = _
  unfold DmCsrs.next
  cases s.csrs.dmcontrol.dmactive with
  | false => simpa using hreset _
  | true => simp [hhartsel, writtenDmcontrol]

theorem selected_next (s : Regs cfg) (i : Inputs cfg) :
    (next s i).selected =
      if s.csrs.dmcontrol.dmactive then hartOf cfg (writtenDmcontrol s i) else 0 := by
  show cfg.hartIndex (next s i).csrs.dmcontrol.hartsel = _
  rw [hartsel_next]
  split_ifs
  · rfl
  · simp [Config.hartIndex]

theorem command_next (s : Regs cfg) (i : Inputs cfg) :
    (next s i).csrs.command =
      if s.csrs.dmcontrol.dmactive then
        if writes s i .command && s.mem.state == .idle then Command.ofBits i.dmiReq.data
        else s.csrs.command
      else Command.ofBits 0 := by
  have hcommand := DmCsrs.command_eq s.csrs (csrInputs s i)
  have hbusy : (csrInputs s i).cmdbusy = (s.mem.state != .idle) := cmdbusy_eq s i
  have hdata : (csrInputs s i).dmiReq = i.dmiReq := rfl
  show (DmCsrs.next s.csrs (csrInputs s i)).command = _
  unfold DmCsrs.next
  cases s.csrs.dmcontrol.dmactive with
  | false => rfl
  | true => simp [hcommand, hbusy, hdata, writes, bne]

/-! ### The bus master -/

/-- The next state of an idle bus master. -/
theorem sba_next_of_idle {s : Regs cfg} (i : Inputs cfg) (hidle : s.sba = .idle) :
    (next s i).sba = DmSba.idleNext (sbaInputs s i) (strobes s i) := by
  show DmSba.nextState s.sba _ _ = _
  simp [DmSba.nextState, hidle]

/-- The strobes to the bus master, as conditions on the request. -/
theorem strobes_top (s : Regs cfg) (i : Inputs cfg) :
    strobes s i =
      { sbaddressWriteValid := writes s i .sbAddress0 && DmCsrs.busIdle s.csrs (csrInputs s i) &&
          s.csrs.sbcs.sberror == 0
        sbdataReadValid := DmCsrs.readsCsr s.csrs (csrInputs s i) .sbData0 &&
          DmCsrs.busIdle s.csrs (csrInputs s i) && s.csrs.sbcs.sberror == 0
        sbdataWriteValid := writes s i .sbData0 && DmCsrs.busIdle s.csrs (csrInputs s i) &&
          s.csrs.sbcs.sberror == 0 } := by
  obtain ⟨haddress, hread, hwrite⟩ := DmCsrs.strobes_eq s.csrs (csrInputs s i)
  unfold strobes csrSignals
  rw [haddress, hread, hwrite]
  rfl

end RiscvDebug.DmTop
