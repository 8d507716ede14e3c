import RiscvDebug.DebugModule.DmTopCycles

/-!
# What one cycle does to a system bus access

The address, the data and the size of an access are registers of `dm_csrs`. While the bus master is
busy the DMI cannot change them (`busRegisters_next_of_busy`), so an access that has passed the
size and alignment checks passes them until it ends (`noErrorWhileWaiting_run`), and the bus
master waits exactly while the bus owes a response (`outstanding_eq`).
-/

set_option autoImplicit false
set_option relaxedAutoImplicit false

namespace RiscvDebug.DmTop

open Foundations

variable {cfg : Config}

/-! ### The request on the bus -/

/-- The request the bus master drives. -/
def masterRequest (s : Regs cfg) (i : Inputs cfg) : DmSba.MasterRequest cfg :=
  (sbaSignals s i).master

/-- The access has a size or an alignment that the bus master refuses. -/
def refused (s : Regs cfg) (i : Inputs cfg) : Bool :=
  DmSba.sizeError (sbaInputs s i) || DmSba.alignError (sbaInputs s i)

/-- The bus master waits for a response. -/
def waiting (s : Regs cfg) : Bool := s.sba == .waitRead || s.sba == .waitWrite

/-- Two states whose bus masters and bus registers agree drive the same request. -/
theorem masterRequest_congr {s s' : Regs cfg} (i i' : Inputs cfg) (hsba : s'.sba = s.sba)
    (haddress : (sbaInputs s' i').sbaddress = (sbaInputs s i).sbaddress)
    (haccess : (sbaInputs s' i').sbaccess = (sbaInputs s i).sbaccess)
    (hdata : (sbaInputs s' i').sbdata = (sbaInputs s i).sbdata) :
    masterRequest s' i' = masterRequest s i := by
  unfold masterRequest sbaSignals DmSba.signals DmSba.sizeError DmSba.alignError DmSba.beMask
    DmSba.beIdxMasked DmSba.beIdx DmSba.sbaccessMask
  simp only [hsba, haddress, haccess, hdata]

/-- Whether an access is refused depends on its address and size only. -/
theorem refused_congr {s s' : Regs cfg} (i i' : Inputs cfg)
    (haddress : (sbaInputs s' i').sbaddress = (sbaInputs s i).sbaddress)
    (haccess : (sbaInputs s' i').sbaccess = (sbaInputs s i).sbaccess) :
    refused s' i' = refused s i := by
  unfold refused DmSba.sizeError DmSba.alignError DmSba.sbaccessMask
  rw [haddress, haccess]

/-- The bus master drives a request in Read and in Write, unless it refuses the access. -/
theorem req_iff (s : Regs cfg) (i : Inputs cfg) :
    (masterRequest s i).req = true ↔
      (s.sba = .read ∨ s.sba = .write) ∧ refused s i = false := by
  show ((s.sba == .read || s.sba == .write) && !DmSba.sizeError (sbaInputs s i) &&
    !DmSba.alignError (sbaInputs s i)) = true ↔ _
  rw [refused, Bool.and_eq_true, Bool.and_eq_true, Bool.or_eq_true, beq_iff_eq, beq_iff_eq,
    Bool.or_eq_false_iff, Bool.not_eq_true', Bool.not_eq_true', and_assoc]

/-! ### The registers of the access -/

/-- The bus registers of an active module follow `csr_read_write`. -/
theorem busRegisters_next_of_active {s : Regs cfg} (i : Inputs cfg)
    (hactive : s.csrs.dmcontrol.dmactive = true) :
    (next s i).csrs.sbaddr = (csrSignals s i).sbaddr ∧
      (next s i).csrs.sbdata = (csrSignals s i).sbdata ∧
      (next s i).csrs.sbcs = (csrSignals s i).sbcs := by
  show (DmCsrs.next s.csrs (csrInputs s i)).sbaddr = _ ∧ (DmCsrs.next s.csrs (csrInputs s i)).sbdata
    = _ ∧ (DmCsrs.next s.csrs (csrInputs s i)).sbcs = _
  unfold DmCsrs.next
  rw [hactive]
  exact ⟨rfl, rfl, rfl⟩

/-- An inactive module clears the bus registers. -/
theorem busRegisters_next_of_inactive {s : Regs cfg} (i : Inputs cfg)
    (hinactive : s.csrs.dmcontrol.dmactive = false) :
    (next s i).csrs.sbaddr = 0 ∧ (next s i).csrs.sbdata = 0 ∧
      (next s i).csrs.sbcs = Sbcs.reset := by
  show (DmCsrs.next s.csrs (csrInputs s i)).sbaddr = _ ∧ (DmCsrs.next s.csrs (csrInputs s i)).sbdata
    = _ ∧ (DmCsrs.next s.csrs (csrInputs s i)).sbcs = _
  unfold DmCsrs.next
  rw [hinactive]
  exact ⟨rfl, rfl, rfl⟩

theorem sbbusy_eq (s : Regs cfg) (i : Inputs cfg) : (csrInputs s i).sbbusy = (s.sba != .idle) := rfl

/-- An access of the bus registers is refused while the bus master is busy. -/
theorem busIdle_of_busy {s : Regs cfg} (i : Inputs cfg) (hbusy : s.sba ≠ .idle) :
    DmCsrs.busIdle s.csrs (csrInputs s i) = false := by
  rw [DmCsrs.busIdle, sbbusy_eq, bne, beq_false_of_ne hbusy]
  rfl

/-- The address that the bus master returns is that of the access, or the next one. -/
theorem sbaddress_eq (s : Regs cfg) (i : Inputs cfg) :
    (csrInputs s i).sbaddress = (sbaInputs s i).sbaddress +
      (if DmSba.completes s.sba (sbaInputs s i) && (sbaInputs s i).sbautoincrement then
        1 <<< (sbaInputs s i).sbaccess.toNat else 0) := rfl

/-- While the bus master is busy and does not end the access, an active module keeps the address
and the size of the access, and its data unless the bus answers. -/
theorem busRegisters_next_of_busy {s : Regs cfg} (i i' : Inputs cfg)
    (hactive : s.csrs.dmcontrol.dmactive = true) (hbusy : s.sba ≠ .idle)
    (hincomplete : DmSba.completes s.sba (sbaInputs s i) = false) :
    (sbaInputs (next s i) i').sbaddress = (sbaInputs s i).sbaddress ∧
      (sbaInputs (next s i) i').sbaccess = (sbaInputs s i).sbaccess ∧
      (i.master.rValid = false → (sbaInputs (next s i) i').sbdata = (sbaInputs s i).sbdata) := by
  obtain ⟨haddress, hdata, hsbcs⟩ := busRegisters_next_of_active i hactive
  have hidle := busIdle_of_busy i hbusy
  refine ⟨?_, ?_, fun hunanswered ↦ ?_⟩
  · show (next s i).csrs.sbaddr.setWidth cfg.busWidth = _
    rw [haddress, csrSignals, DmCsrs.sbaddr_eq, hidle, Bool.and_false, if_neg Bool.false_ne_true,
      Bool.and_false, if_neg Bool.false_ne_true,
      cfg.setWidth_setWidth_busWidth]
    have hreturned : (csrInputs s i).sbaddress = (sbaInputs s i).sbaddress +
        (if DmSba.completes s.sba (sbaInputs s i) && (sbaInputs s i).sbautoincrement then
          1 <<< (sbaInputs s i).sbaccess.toNat else 0) := rfl
    rw [hreturned, hincomplete, Bool.false_and, if_neg Bool.false_ne_true]
    exact BitVec.add_zero _
  · show (next s i).csrs.sbcs.sbaccess = _
    rw [hsbcs, csrSignals, (DmCsrs.sbcs_control_eq s.csrs (csrInputs s i)).1, DmCsrs.writtenSbcs,
      sbbusy_eq, bne, beq_false_of_ne hbusy, Bool.not_false, Bool.not_true, Bool.and_false,
      if_neg Bool.false_ne_true]
    rfl
  · show (next s i).csrs.sbdata.setWidth cfg.busWidth = _
    have hvalid : (csrInputs s i).sbdataValid = false := hunanswered
    rw [hdata, csrSignals, DmCsrs.sbdata_eq, hvalid, if_neg Bool.false_ne_true, hidle,
      Bool.and_false, if_neg Bool.false_ne_true, Bool.and_false, if_neg Bool.false_ne_true]
    rfl

/-- The registers after reset describe an access that is not refused. -/
theorem refused_next_of_inactive {s : Regs cfg} (i i' : Inputs cfg)
    (hinactive : s.csrs.dmcontrol.dmactive = false) : refused (next s i) i' = false := by
  obtain ⟨haddress, -, hsbcs⟩ := busRegisters_next_of_inactive i hinactive
  have hsbaddress : (sbaInputs (next s i) i').sbaddress = 0 := by
    show (next s i).csrs.sbaddr.setWidth cfg.busWidth = 0
    rw [haddress]
    simp
  have hsbaccess : (sbaInputs (next s i) i').sbaccess = 2 := by
    show (next s i).csrs.sbcs.sbaccess = 2
    rw [hsbcs]
    rfl
  have hwidth : 2 ≤ cfg.beIdxWidth := by
    rcases cfg.busWidth_eq with hwidth | hwidth <;> rw [Config.beIdxWidth, hwidth] <;> decide
  have hsize : DmSba.sizeError (sbaInputs (next s i) i') = false := by
    rw [DmSba.sizeError, hsbaccess]
    exact decide_eq_false (not_lt.mpr hwidth)
  have halign : DmSba.alignError (sbaInputs (next s i) i') = false := by
    rw [DmSba.alignError, hsbaddress]
    simp
  rw [refused, hsize, halign]
  rfl

/-! ### Waiting for a response -/

/-- The next state of the bus master, refused accesses apart. -/
theorem sba_next_of_busy {s : Regs cfg} (i : Inputs cfg) (hbusy : s.sba ≠ .idle) :
    (next s i).sba =
      if refused s i then .idle
      else match s.sba with
        | .idle => .idle
        | .read => if i.master.gnt then .waitRead else .read
        | .write => if i.master.gnt then .waitWrite else .write
        | .waitRead => if i.master.rValid then .idle else .waitRead
        | .waitWrite => if i.master.rValid then .idle else .waitWrite := by
  show DmSba.nextState s.sba (sbaInputs s i) (strobes s i) = _
  unfold DmSba.nextState
  rw [bne, beq_false_of_ne hbusy, Bool.not_false, Bool.and_true]
  show (if refused s i then _ else _) = _
  cases hsba : s.sba with
  | idle => exact absurd hsba hbusy
  | read => rfl
  | write => rfl
  | waitRead => rfl
  | waitWrite => rfl

/-- In Idle the bus master does not enter a state in which it waits. -/
theorem waiting_next_of_idle {s : Regs cfg} (i : Inputs cfg) (hidle : s.sba = .idle) :
    waiting (next s i) = false := by
  rw [waiting, sba_next_of_idle i hidle]
  unfold DmSba.idleNext
  split_ifs <;> rfl

/-- A bus master that waits after a cycle was busy before it, and did not end its access. -/
theorem busy_of_waiting_next {s : Regs cfg} {i : Inputs cfg}
    (hwaiting : waiting (next s i) = true) :
    s.sba ≠ .idle ∧ refused s i = false ∧ DmSba.completes s.sba (sbaInputs s i) = false := by
  have hbusy : s.sba ≠ .idle := fun hidle ↦ by
    rw [waiting_next_of_idle i hidle] at hwaiting
    exact Bool.false_ne_true hwaiting
  refine ⟨hbusy, ?_, ?_⟩
  · by_contra hrefused
    rw [waiting, sba_next_of_busy i hbusy, if_pos (by simpa using hrefused)] at hwaiting
    exact absurd hwaiting (by decide)
  · by_contra hcompletes
    simp only [DmSba.completes, Bool.not_eq_false, Bool.and_eq_true, Bool.or_eq_true,
      beq_iff_eq] at hcompletes
    obtain ⟨hwaits, hvalid⟩ := hcompletes
    have hanswered : i.master.rValid = true := hvalid
    rw [waiting, sba_next_of_busy i hbusy] at hwaiting
    rcases hwaits with hwaits | hwaits
    · rw [hwaits] at hwaiting
      simp [hanswered] at hwaiting
    · rw [hwaits] at hwaiting
      simp [hanswered] at hwaiting

/-- An access that waits for its response is not refused. -/
theorem noErrorWhileWaiting_run (inputs : ℕ → Inputs cfg) (time : ℕ) (i : Inputs cfg)
    (hwaiting : waiting (run inputs time) = true) : refused (run inputs time) i = false := by
  cases time with
  | zero => exact absurd hwaiting Bool.false_ne_true
  | succ time =>
    rw [run_succ] at hwaiting ⊢
    obtain ⟨hbusy, haccepted, hincomplete⟩ := busy_of_waiting_next hwaiting
    cases hactive : (run inputs time).csrs.dmcontrol.dmactive with
    | true =>
      obtain ⟨haddress, haccess, -⟩ :=
        busRegisters_next_of_busy (inputs time) i hactive hbusy hincomplete
      rw [refused_congr (inputs time) i haddress haccess]
      exact haccepted
    | false => exact refused_next_of_inactive (inputs time) i hactive

/-- A bus master that does not ask for an access drives no request. -/
theorem req_of_not_requesting {s : Regs cfg} (i : Inputs cfg)
    (hrequesting : ¬ (s.sba = .read ∨ s.sba = .write)) : (masterRequest s i).req = false := by
  rw [← Bool.not_eq_true, req_iff]
  exact fun hboth ↦ hrequesting hboth.1

/-- A bus master that asks for an access waits for the response when its request is granted. -/
theorem waiting_next_of_requesting {s : Regs cfg} (i : Inputs cfg)
    (hrequesting : s.sba = .read ∨ s.sba = .write) :
    waiting (next s i) = ((masterRequest s i).req && i.master.gnt) := by
  have hbusy : s.sba ≠ .idle := by
    rintro hidle
    rw [hidle] at hrequesting
    exact absurd hrequesting (by decide)
  have hrequest := req_iff s i
  rw [waiting, sba_next_of_busy i hbusy]
  cases hrefused : refused s i with
  | true =>
    have hquiet : (masterRequest s i).req = false := by
      rw [← Bool.not_eq_true, hrequest, hrefused]
      exact fun hboth ↦ Bool.noConfusion hboth.2
    rw [hquiet]
    rfl
  | false =>
    rw [hrequest.mpr ⟨hrequesting, hrefused⟩]
    rcases hrequesting with hread | hwrite
    · rw [hread]
      cases i.master.gnt <;> rfl
    · rw [hwrite]
      cases i.master.gnt <;> rfl

/-- A bus master that waits goes on until the response, unless it refuses the access. -/
theorem waiting_next_of_waiting {s : Regs cfg} {i : Inputs cfg} (hwaiting : waiting s = true)
    (haccepted : refused s i = false) : waiting (next s i) = !i.master.rValid := by
  have hwaits : s.sba = .waitRead ∨ s.sba = .waitWrite := by
    rwa [waiting, Bool.or_eq_true, beq_iff_eq, beq_iff_eq] at hwaiting
  have hbusy : s.sba ≠ .idle := by
    rintro hidle
    rw [hidle] at hwaits
    exact absurd hwaits (by decide)
  rw [waiting, sba_next_of_busy i hbusy, haccepted]
  rcases hwaits with hread | hwrite
  · rw [hread]
    cases i.master.rValid <;> rfl
  · rw [hwrite]
    cases i.master.rValid <;> rfl

/-- The bus owes a response: it has granted a request and not answered it. -/
def outstanding (inputs : ℕ → Inputs cfg) : ℕ → Bool
  | 0 => false
  | time + 1 =>
    ((masterRequest (run inputs time) (inputs time)).req && (inputs time).master.gnt) ||
      (outstanding inputs time && !(inputs time).master.rValid)

/-- The bus master waits exactly while the bus owes a response. -/
theorem outstanding_eq (inputs : ℕ → Inputs cfg) (time : ℕ) :
    outstanding inputs time = waiting (run inputs time) := by
  induction time with
  | zero => rfl
  | succ time ih =>
    rw [outstanding, ih, run_succ]
    by_cases hrequesting : (run inputs time).sba = .read ∨ (run inputs time).sba = .write
    · have hresting : waiting (run inputs time) = false := by
        rw [waiting]
        rcases hrequesting with hread | hwrite
        · rw [hread]
          rfl
        · rw [hwrite]
          rfl
      rw [waiting_next_of_requesting _ hrequesting, hresting, Bool.false_and, Bool.or_false]
    · rw [req_of_not_requesting _ hrequesting, Bool.false_and, Bool.false_or]
      cases hwaiting : waiting (run inputs time) with
      | true =>
        rw [waiting_next_of_waiting hwaiting (noErrorWhileWaiting_run inputs time _ hwaiting),
          Bool.true_and]
      | false =>
        have hidle : (run inputs time).sba = .idle := by
          rw [waiting] at hwaiting
          revert hwaiting hrequesting
          cases (run inputs time).sba <;> decide
        rw [waiting_next_of_idle _ hidle, Bool.false_and]

/-- The bus answers nothing but requests that it has granted and not answered. -/
def BusConforms (inputs : ℕ → Inputs cfg) : Prop :=
  ∀ time, (inputs time).master.rValid = true → outstanding inputs time = true

/-- The bus answers no bus master that does not wait for it. -/
theorem unanswered_of_not_waiting {inputs : ℕ → Inputs cfg} (hbus : BusConforms inputs) {time : ℕ}
    (hnone : waiting (run inputs time) = false) : (inputs time).master.rValid = false := by
  by_contra hanswered
  have howed := hbus time (by simpa using hanswered)
  rw [outstanding_eq, hnone] at howed
  exact absurd howed Bool.false_ne_true

/-- A stream conforms to the bus when the responses of its listed cycles are owed. -/
theorem busConforms_script {cycles : List (Inputs cfg)}
    (hlisted : ∀ time < cycles.length, (script cycles time).master.rValid = true →
      outstanding (script cycles) time = true) : BusConforms (script cycles) := by
  intro time hvalid
  by_cases hearly : time < cycles.length
  · exact hlisted time hearly hvalid
  · rw [script, List.getD_eq_default _ _ (not_lt.mp hearly)] at hvalid
    exact absurd hvalid Bool.false_ne_true

end RiscvDebug.DmTop
