import RiscvDebug.Foundations.Transfers
import RiscvDebug.SystemBus.BusCycles
import RiscvDebug.SystemBus.BusLanes
import RiscvDebug.SystemBus.HostAccesses

/-!
# The debug module on a memory

The debug module with a byte-addressed memory on its bus. The bus grants a request and answers it
when it likes; the memory serves it when it is granted. `phase_run` says that the registers and the
memory follow the port of `AccessPort`, for a host that makes its accesses while the bus master is
idle.
-/

set_option autoImplicit false
set_option relaxedAutoImplicit false

namespace RiscvDebug.BusMemory

open Foundations DmTop AccessPort

variable {cfg : Config}

/-! ### The system -/

/-- The debug module, the memory, and the response that the bus owes. -/
structure System (cfg : Config) where
  dm : DmTop.Regs cfg
  memory : ByteMemory cfg.busWidth
  response : Option (BitVec cfg.busWidth)

section Step

variable (x : System cfg) (i : DmTop.Inputs cfg)

/-- The inputs of the debug module: the bus grants when it likes and answers what it owes, without
an error. -/
def busInputs : DmTop.Inputs cfg :=
  { i with
    master :=
      { gnt := i.master.gnt
        rValid := i.master.rValid && x.response.isSome
        rErr := false
        rOtherErr := false
        rRdata := x.response.getD i.master.rRdata } }

/-- The request of the bus master. -/
def request : DmSba.MasterRequest cfg := masterRequest x.dm (busInputs x i)

/-- The bus grants a request. -/
def granted : Bool := (request x i).req && i.master.gnt

/-- One cycle. A granted write replaces the enabled bytes of its word, and a granted read is
answered with the whole word; what the answer to a write carries is left open. -/
def next : System cfg where
  dm := DmTop.next x.dm (busInputs x i)
  memory :=
    if granted x i && (request x i).we then
      writeWord cfg.beIdxWidth x.memory (request x i).add (request x i).be (request x i).wdata
    else x.memory
  response :=
    if granted x i then
      some (if (request x i).we then i.master.rRdata
        else readWord cfg.beIdxWidth x.memory (request x i).add)
    else if (busInputs x i).master.rValid then none else x.response

/-- The run from a state. -/
def run (start : System cfg) (inputs : ℕ → DmTop.Inputs cfg) : ℕ → System cfg
  | 0 => start
  | time + 1 => next (run start inputs time) (inputs time)

/-- The access of the bus registers in a cycle. -/
def touched : List Access := DmCsrs.touched x.dm.csrs (csrInputs x.dm (busInputs x i))

/-- The answer to a read of the bus data in a cycle. -/
def answered : List DmiResp := DmCsrs.answered x.dm.csrs (csrInputs x.dm (busInputs x i))

/-- `sbaddress`. -/
def System.address : BitVec cfg.busWidth := x.dm.csrs.sbaddr.setWidth cfg.busWidth

/-! ### Phases of an access -/

/-- The registers that the accesses of a program leave alone. -/
structure Governed (control : Control) : Prop where
  control : DmCsrs.control x.dm.csrs = control
  sberror : x.dm.csrs.sbcs.sberror = 0
  sbbusyerror : x.dm.csrs.sbcs.sbbusyerror = false

/-- The registers and the memory are those of a port. -/
structure Holds (port : Port cfg) : Prop where
  memory : x.memory = port.memory
  address : x.address = port.address
  data : x.dm.csrs.sbdata = port.data

end Step

/-- The states of the bus master in a transfer. -/
def requesting : Transfer → DmSba.State
  | .load => .read
  | .store => .write

def waiting : Transfer → DmSba.State
  | .load => .waitRead
  | .store => .waitWrite

theorem requesting_ne_idle (transfer : Transfer) : requesting transfer ≠ .idle := by
  cases transfer <;> exact fun heq ↦ nomatch heq

theorem waiting_ne_idle (transfer : Transfer) : waiting transfer ≠ .idle := by
  cases transfer <;> exact fun heq ↦ nomatch heq

/-- A transfer is under way from the registers of a port: with its end, the program has gone so
far. -/
structure Running (control : Control) (start : Port cfg) (accesses : List Access)
    (responses : List DmiResp) (transfer : Transfer) (port : Port cfg) : Prop where
  aligned : port.address.toNat % control.count = 0
  ends : ∀ port', Completes control transfer port port' →
    Follows control start accesses responses port'

/-- How far a program has gone. -/
inductive Phase (control : Control) (start : Port cfg) (x : System cfg) (accesses : List Access)
    (responses : List DmiResp) : Prop
  | idle (port : Port cfg) (hsba : x.dm.sba = .idle) (hresponse : x.response = none)
      (hholds : Holds x port) (hfollows : Follows control start accesses responses port)
  | requested (port : Port cfg) (transfer : Transfer) (hsba : x.dm.sba = requesting transfer)
      (hresponse : x.response = none) (hholds : Holds x port)
      (hrunning : Running control start accesses responses transfer port)
  | awaited (port : Port cfg) (transfer : Transfer) (word : BitVec cfg.busWidth)
      (hsba : x.dm.sba = waiting transfer) (hresponse : x.response = some word)
      (hmemory : x.memory = port.memoryAfter control transfer)
      (haddress : x.address = port.address)
      (hword : transfer = .load → word = readWord cfg.beIdxWidth port.memory port.address)
      (hrunning : Running control start accesses responses transfer port)

/-! ### The registers of the next cycle -/

section Registers

variable {x : System cfg} {i : DmTop.Inputs cfg} {control : Control}

/-- The bus registers of an active module. -/
theorem registers_next (hactive : x.dm.csrs.dmcontrol.dmactive = true) :
    (next x i).address = (csrSignals x.dm (busInputs x i)).sbaddr.setWidth cfg.busWidth ∧
      (next x i).dm.csrs.sbdata = (csrSignals x.dm (busInputs x i)).sbdata ∧
      (next x i).dm.csrs.sbcs = (csrSignals x.dm (busInputs x i)).sbcs := by
  obtain ⟨haddress, hdata, hsbcs⟩ := busRegisters_next_of_active (busInputs x i) hactive
  refine ⟨?_, hdata, hsbcs⟩
  show (DmTop.next x.dm (busInputs x i)).csrs.sbaddr.setWidth cfg.busWidth = _
  rw [haddress]

/-- The address that the bus master returns without the end of an access. -/
theorem sbaddress_of_incomplete
    (hincomplete : DmSba.completes x.dm.sba (sbaInputs x.dm (busInputs x i)) = false) :
    (csrInputs x.dm (busInputs x i)).sbaddress = x.address := by
  rw [sbaddress_eq, hincomplete, Bool.false_and, if_neg Bool.false_ne_true]
  exact BitVec.add_zero _

/-- With the end of an access it is the address of the next element. -/
theorem sbaddress_of_completes (hgoverned : Governed x control)
    (hcompletes : DmSba.completes x.dm.sba (sbaInputs x.dm (busInputs x i)) = true) :
    (csrInputs x.dm (busInputs x i)).sbaddress = control.advance x.address := by
  have haccess : (sbaInputs x.dm (busInputs x i)).sbaccess = control.access :=
    congrArg Control.access hgoverned.control
  have hincrement : (sbaInputs x.dm (busInputs x i)).sbautoincrement = control.autoincrement :=
    congrArg Control.autoincrement hgoverned.control
  rw [sbaddress_eq, hcompletes, Bool.true_and, hincrement, haccess, Control.advance, Control.count]
  split_ifs
  · rw [Nat.one_shiftLeft, BitVec.natCast_eq_ofNat]
    rfl
  · exact BitVec.add_zero _

/-- The bus master reports no error in a transfer that it does not refuse. -/
theorem sberrorValid_eq_false
    (hfits : x.dm.sba ≠ .idle → DmSba.Fits (sbaInputs x.dm (busInputs x i))) :
    (csrInputs x.dm (busInputs x i)).sberrorValid = false := by
  show ((DmSba.sizeError (sbaInputs x.dm (busInputs x i)) ||
    DmSba.alignError (sbaInputs x.dm (busInputs x i))) && x.dm.sba != .idle ||
      DmSba.completes x.dm.sba _ && (false || false)) = false
  rw [Bool.or_false, Bool.and_false, Bool.or_false]
  by_cases hidle : x.dm.sba = .idle
  · rw [hidle]
    exact Bool.and_false _
  · rw [(hfits hidle).errors.1, (hfits hidle).errors.2]
    rfl

/-- The accesses of a program leave the control fields and the errors alone. -/
theorem governed_next (hgoverned : Governed x control)
    (hactive : x.dm.csrs.dmcontrol.dmactive = true)
    (hpolite : touched x i ≠ [] → x.dm.sba = .idle)
    (hcontrol : ∀ value, touched x i ≠ [.writeControl value])
    (hfits : x.dm.sba ≠ .idle → DmSba.Fits (sbaInputs x.dm (busInputs x i))) :
    Governed (next x i) control := by
  have hwrites : DmCsrs.writes x.dm.csrs (csrInputs x.dm (busInputs x i)) .sbcs = false := by
    rcases DmCsrs.touched_cases x.dm.csrs (csrInputs x.dm (busInputs x i)) with
      huntouched | ⟨access, htouched⟩
    · exact (DmCsrs.of_untouched huntouched).1 .sbcs (by decide)
    · exact DmCsrs.not_writes_sbcs htouched fun value heq ↦ hcontrol value (heq ▸ htouched)
  have hneeds : ((csrInputs x.dm (busInputs x i)).sbbusy &&
      DmCsrs.needsIdleBus x.dm.csrs (csrInputs x.dm (busInputs x i))) = false := by
    by_cases hidle : x.dm.sba = .idle
    · rw [sbbusy_eq, hidle]
      rfl
    · have huntouched : touched x i = [] := by
        by_contra htouched
        exact hidle (hpolite htouched)
      rw [DmCsrs.needsIdleBus_of_untouched huntouched, Bool.and_false]
  obtain ⟨haccess, hincrement, hreadonaddr, hreadondata, hsberror, hbusyerror⟩ :=
    DmCsrs.sbcs_of_not_writes hwrites hneeds (sberrorValid_eq_false hfits)
  have hsbcs := (registers_next (i := i) hactive).2.2
  refine ⟨?_, ?_, ?_⟩
  · rw [← hgoverned.control, DmCsrs.control, DmCsrs.control, hsbcs, csrSignals, haccess, hincrement,
      hreadonaddr, hreadondata]
  · rw [hsbcs, csrSignals, hsberror, hgoverned.sberror]
  · rw [hsbcs, csrSignals, hbusyerror, hgoverned.sbbusyerror]

end Registers

/-! ### One cycle -/

section Cycle

variable {x : System cfg} {i : DmTop.Inputs cfg} {control : Control} {start port : Port cfg}
  {accesses : List Access} {responses : List DmiResp}

/-- An idle bus master asks for nothing. -/
theorem kept_of_idle (hidle : x.dm.sba = .idle) (hresponse : x.response = none) :
    (next x i).memory = x.memory ∧ (next x i).response = none ∧
      (csrInputs x.dm (busInputs x i)).sbdataValid = false := by
  have hquiet : (request x i).req = false :=
    req_of_not_requesting _ (by rw [hidle]; decide)
  have hgranted : granted x i = false := by
    rw [granted, hquiet, Bool.false_and]
  have hanswer : (busInputs x i).master.rValid = false := by
    show (i.master.rValid && x.response.isSome) = false
    rw [hresponse]
    exact Bool.and_false _
  refine ⟨?_, ?_, hanswer⟩
  · show (if granted x i && _ then _ else x.memory) = _
    rw [hgranted, Bool.false_and, if_neg Bool.false_ne_true]
  · show (if granted x i then _ else if (busInputs x i).master.rValid then none else x.response) = _
    rw [hgranted, hanswer, hresponse]
    rfl

theorem incomplete_of_idle (hidle : x.dm.sba = .idle) :
    DmSba.completes x.dm.sba (sbaInputs x.dm (busInputs x i)) = false := by
  rw [DmSba.completes, hidle]
  rfl

/-- A cycle without an access leaves an idle bus master idle. -/
theorem idle_untouched (hactive : x.dm.csrs.dmcontrol.dmactive = true) (hidle : x.dm.sba = .idle)
    (hresponse : x.response = none) (hholds : Holds x port) (huntouched : touched x i = []) :
    (next x i).dm.sba = .idle ∧ (next x i).response = none ∧ Holds (next x i) port ∧
      answered x i = [] := by
  obtain ⟨hmemory, hnone, hanswer⟩ := kept_of_idle (i := i) hidle hresponse
  obtain ⟨haddress, hdata, -⟩ := registers_next (i := i) hactive
  obtain ⟨hsbaddr, hsbdata⟩ := DmCsrs.busRegisters_of_untouched huntouched
  obtain ⟨hstrobeAddress, hstrobeRead, hstrobeWrite, hanswered⟩ :=
    DmCsrs.strobes_of_untouched huntouched
  refine ⟨?_, hnone, ⟨hmemory.trans hholds.memory, ?_, ?_⟩, hanswered⟩
  · refine (sba_next_of_idle (busInputs x i) hidle).trans ?_
    rw [strobes, csrSignals, hstrobeAddress, hstrobeRead, hstrobeWrite]
    rfl
  · rw [haddress, csrSignals, hsbaddr, sbaddress_of_incomplete (incomplete_of_idle hidle),
      hholds.address]
  · rw [hdata, csrSignals, hsbdata, hanswer, if_neg Bool.false_ne_true, hholds.data]

/-- An access sets the registers and starts the transfer that it triggers. -/
theorem idle_touched {access : Access} (hgoverned : Governed x control)
    (hactive : x.dm.csrs.dmcontrol.dmactive = true) (hidle : x.dm.sba = .idle)
    (hresponse : x.response = none) (hholds : Holds x port) (htouched : touched x i = [access])
    (hcontrol : ∀ value, access ≠ .writeControl value) :
    (next x i).dm.sba =
        (match access.trigger control with | none => .idle | some transfer => requesting transfer) ∧
      (next x i).response = none ∧ Holds (next x i) (port.apply access) ∧
        answered x i = access.responses port.data := by
  obtain ⟨hmemory, hnone, hanswer⟩ := kept_of_idle (i := i) hidle hresponse
  obtain ⟨haddress, hdata, -⟩ := registers_next (i := i) hactive
  have hbus : DmCsrs.busIdle x.dm.csrs (csrInputs x.dm (busInputs x i)) = true := by
    rw [DmCsrs.busIdle, sbbusy_eq, hidle, hgoverned.sbbusyerror]
    rfl
  obtain ⟨hsbaddr, hsbdata⟩ := DmCsrs.busRegisters_of_touched htouched hbus hcontrol hanswer
  refine ⟨?_, hnone, ⟨hmemory.trans hholds.memory, ?_, ?_⟩, ?_⟩
  · refine (sba_next_of_idle (busInputs x i) hidle).trans ?_
    have hreadonaddr : (sbaInputs x.dm (busInputs x i)).sbreadonaddr =
        x.dm.csrs.sbcs.sbreadonaddr := rfl
    have hnext := DmCsrs.idleNext_of_touched htouched hbus hgoverned.sberror hreadonaddr rfl
    rw [hgoverned.control] at hnext
    refine hnext.trans ?_
    cases access.trigger control with
    | none => rfl
    | some transfer => cases transfer <;> rfl
  · rw [haddress, csrSignals, hsbaddr, sbaddress_of_incomplete (incomplete_of_idle hidle),
      hholds.address]
    rfl
  · rw [hdata, csrSignals, hsbdata, hholds.data]
    rfl
  · rw [← hholds.data]
    exact DmCsrs.answered_of_touched htouched hbus hcontrol

/-- The transfers of a governed system are those that the bus master does not refuse. -/
theorem fits (i : DmTop.Inputs cfg) (hgoverned : Governed x control)
    (hsize : control.access.toNat ≤ cfg.beIdxWidth)
    (haligned : x.address.toNat % control.count = 0) :
    DmSba.Fits (sbaInputs x.dm (busInputs x i)) := by
  have haccess : (sbaInputs x.dm (busInputs x i)).sbaccess = control.access :=
    congrArg Control.access hgoverned.control
  refine ⟨by rw [haccess]; exact hsize, ?_⟩
  rw [haccess]
  exact haligned

theorem refused_eq_false (hfits : DmSba.Fits (sbaInputs x.dm (busInputs x i))) :
    refused x.dm (busInputs x i) = false := by
  rw [refused, hfits.errors.1, hfits.errors.2]
  rfl

/-- Without an access the registers follow the bus master. -/
theorem registers_of_untouched (hactive : x.dm.csrs.dmcontrol.dmactive = true)
    (huntouched : touched x i = []) :
    (next x i).address = (csrInputs x.dm (busInputs x i)).sbaddress ∧
      (next x i).dm.csrs.sbdata =
        if (busInputs x i).master.rValid then
          (csrInputs x.dm (busInputs x i)).sbdata.setWidth 64
        else x.dm.csrs.sbdata := by
  obtain ⟨haddress, hdata, -⟩ := registers_next (i := i) hactive
  obtain ⟨hsbaddr, hsbdata⟩ := DmCsrs.busRegisters_of_untouched huntouched
  exact ⟨by rw [haddress, csrSignals, hsbaddr], by rw [hdata, csrSignals, hsbdata]; rfl⟩

/-- A request that is not granted stays. -/
theorem requested_of_not_granted {transfer : Transfer}
    (hactive : x.dm.csrs.dmcontrol.dmactive = true) (hsba : x.dm.sba = requesting transfer)
    (hresponse : x.response = none) (hholds : Holds x port)
    (hfits : DmSba.Fits (sbaInputs x.dm (busInputs x i))) (huntouched : touched x i = [])
    (hnotgranted : i.master.gnt = false) :
    (next x i).dm.sba = requesting transfer ∧ (next x i).response = none ∧
      Holds (next x i) port := by
  have hbusy : x.dm.sba ≠ .idle := hsba.trans_ne (requesting_ne_idle transfer)
  have hgranted : granted x i = false := by
    rw [granted, hnotgranted, Bool.and_false]
  have hanswer : (busInputs x i).master.rValid = false := by
    show (i.master.rValid && x.response.isSome) = false
    rw [hresponse]
    exact Bool.and_false _
  have hincomplete : DmSba.completes x.dm.sba (sbaInputs x.dm (busInputs x i)) = false := by
    show (_ && (busInputs x i).master.rValid) = false
    rw [hanswer, Bool.and_false]
  obtain ⟨haddress, hdata⟩ := registers_of_untouched hactive huntouched
  refine ⟨?_, ?_, ⟨?_, ?_, ?_⟩⟩
  · show (DmTop.next x.dm (busInputs x i)).sba = _
    have hgnt : (busInputs x i).master.gnt = false := hnotgranted
    rw [sba_next_of_busy _ hbusy, refused_eq_false hfits, if_neg Bool.false_ne_true, hsba, hgnt]
    cases transfer <;> rfl
  · show (if granted x i then _ else if (busInputs x i).master.rValid then none else x.response) = _
    rw [hgranted, hanswer, hresponse]
    rfl
  · show (if granted x i && _ then _ else x.memory) = _
    rw [hgranted, Bool.false_and, if_neg Bool.false_ne_true, hholds.memory]
  · rw [haddress, sbaddress_of_incomplete hincomplete, hholds.address]
  · rw [hdata, hanswer, if_neg Bool.false_ne_true, hholds.data]

/-- A bus master that waits asks for nothing. -/
theorem granted_eq_false_of_waiting {transfer : Transfer} (i : DmTop.Inputs cfg)
    (hsba : x.dm.sba = waiting transfer) : granted x i = false := by
  have hquiet : (request x i).req = false := by
    refine req_of_not_requesting _ ?_
    rw [hsba]
    cases transfer <;> decide
  rw [granted, hquiet, Bool.false_and]

/-- A granted request reaches the memory, and the bus owes its answer. -/
theorem requested_of_granted {transfer : Transfer} (hgoverned : Governed x control)
    (hactive : x.dm.csrs.dmcontrol.dmactive = true) (hsba : x.dm.sba = requesting transfer)
    (hholds : Holds x port)
    (hfits : DmSba.Fits (sbaInputs x.dm (busInputs x i))) (huntouched : touched x i = [])
    (hgnt : i.master.gnt = true) :
    (next x i).dm.sba = waiting transfer ∧
      (next x i).memory = port.memoryAfter control transfer ∧
      (next x i).address = port.address ∧
        ∃ word, (next x i).response = some word ∧
          (transfer = .load → word = readWord cfg.beIdxWidth port.memory port.address) := by
  have hbusy : x.dm.sba ≠ .idle := hsba.trans_ne (requesting_ne_idle transfer)
  have hreq : (request x i).req = true := by
    refine (req_iff x.dm (busInputs x i)).mpr ⟨?_, refused_eq_false hfits⟩
    rw [hsba]
    cases transfer with
    | load => exact Or.inl rfl
    | store => exact Or.inr rfl
  have hgranted : granted x i = true := by
    rw [granted, hreq, hgnt]
    rfl
  have hincomplete : DmSba.completes x.dm.sba (sbaInputs x.dm (busInputs x i)) = false := by
    rw [DmSba.completes, hsba]
    cases transfer <;> rfl
  have hwe : (request x i).we = (x.dm.sba == .write) := rfl
  have hadd : (request x i).add = port.address := hholds.address
  refine ⟨?_, ?_, ?_, ?_⟩
  · show (DmTop.next x.dm (busInputs x i)).sba = _
    have hgnt' : (busInputs x i).master.gnt = true := hgnt
    rw [sba_next_of_busy _ hbusy, refused_eq_false hfits, if_neg Bool.false_ne_true, hsba, hgnt']
    cases transfer <;> rfl
  · show (if granted x i && (request x i).we then _ else x.memory) = _
    rw [hgranted, Bool.true_and, hwe, hsba]
    cases transfer with
    | load => exact hholds.memory
    | store =>
      show writeWord _ _ _ _ _ = storeBytes port.memory port.address control.count port.data
      rw [← hholds.memory, ← hholds.address, ← hholds.data]
      have hbe : (request x i).be = DmSba.beMask (sbaInputs x.dm (busInputs x i)) := by
        have hwrite : ∀ state, state = DmSba.State.write →
            (DmSba.signals state (sbaInputs x.dm (busInputs x i))).master.be =
              DmSba.beMask (sbaInputs x.dm (busInputs x i)) := by
          rintro _ rfl
          rfl
        exact hwrite _ hsba
      have haccess : (sbaInputs x.dm (busInputs x i)).sbaccess = control.access :=
        congrArg Control.access hgoverned.control
      rw [hbe]
      refine (hfits.writeWord_access x.memory).trans ?_
      rw [haccess]
      refine storeBytes_congr _ _ fun lane hlane ↦ byteAt_setWidth _ _ ?_
      -- The element is no longer than a word of the bus.
      have hsize := hfits.lanes
      have hwidth := DmSba.eight_mul_two_pow cfg
      rw [haccess] at hsize
      omega
  · rw [(registers_of_untouched hactive huntouched).1, sbaddress_of_incomplete hincomplete,
      hholds.address]
  · show ∃ word, (if granted x i then _ else _) = some word ∧ _
    rw [hgranted, if_pos rfl]
    refine ⟨_, rfl, fun hload ↦ ?_⟩
    rw [hwe, hsba, hload, if_neg (by decide), hadd, hholds.memory]

/-- Without an answer the bus master waits. -/
theorem awaited_of_unanswered {transfer : Transfer} {word : BitVec cfg.busWidth}
    (hactive : x.dm.csrs.dmcontrol.dmactive = true) (hsba : x.dm.sba = waiting transfer)
    (hresponse : x.response = some word) (hfits : DmSba.Fits (sbaInputs x.dm (busInputs x i)))
    (huntouched : touched x i = []) (hunanswered : i.master.rValid = false) :
    (next x i).dm.sba = waiting transfer ∧ (next x i).response = some word ∧
      (next x i).memory = x.memory ∧ (next x i).address = x.address := by
  have hbusy : x.dm.sba ≠ .idle := hsba.trans_ne (waiting_ne_idle transfer)
  have hanswer : (busInputs x i).master.rValid = false := by
    show (i.master.rValid && x.response.isSome) = false
    rw [hunanswered, Bool.false_and]
  have hgranted := granted_eq_false_of_waiting i hsba
  have hincomplete : DmSba.completes x.dm.sba (sbaInputs x.dm (busInputs x i)) = false := by
    show (_ && (busInputs x i).master.rValid) = false
    rw [hanswer, Bool.and_false]
  refine ⟨?_, ?_, ?_, ?_⟩
  · show (DmTop.next x.dm (busInputs x i)).sba = _
    rw [sba_next_of_busy _ hbusy, refused_eq_false hfits, if_neg Bool.false_ne_true, hsba, hanswer]
    cases transfer <;> rfl
  · show (if granted x i then _ else if (busInputs x i).master.rValid then none else x.response) = _
    rw [hgranted, hanswer]
    exact hresponse
  · show (if granted x i && _ then _ else x.memory) = _
    rw [hgranted, Bool.false_and, if_neg Bool.false_ne_true]
  · rw [(registers_of_untouched hactive huntouched).1, sbaddress_of_incomplete hincomplete]

/-- An answer ends the transfer. -/
theorem awaited_of_answered {transfer : Transfer} {word : BitVec cfg.busWidth}
    (hgoverned : Governed x control) (hactive : x.dm.csrs.dmcontrol.dmactive = true)
    (hsba : x.dm.sba = waiting transfer) (hresponse : x.response = some word)
    (hmemory : x.memory = port.memoryAfter control transfer)
    (haddress : x.address = port.address)
    (hword : transfer = .load → word = readWord cfg.beIdxWidth port.memory port.address)
    (hfits : DmSba.Fits (sbaInputs x.dm (busInputs x i))) (huntouched : touched x i = [])
    (hvalid : i.master.rValid = true) :
    (next x i).dm.sba = .idle ∧ (next x i).response = none ∧
      Completes control transfer port
        ⟨(next x i).memory, (next x i).address, (next x i).dm.csrs.sbdata⟩ := by
  have hbusy : x.dm.sba ≠ .idle := hsba.trans_ne (waiting_ne_idle transfer)
  have hanswer : (busInputs x i).master.rValid = true := by
    show (i.master.rValid && x.response.isSome) = true
    rw [hvalid, hresponse]
    rfl
  have hgranted := granted_eq_false_of_waiting i hsba
  have hcompletes : DmSba.completes x.dm.sba (sbaInputs x.dm (busInputs x i)) = true := by
    show (_ && (busInputs x i).master.rValid) = true
    rw [hanswer, hsba]
    cases transfer <;> rfl
  obtain ⟨hsbaddress, hsbdata⟩ := registers_of_untouched hactive huntouched
  refine ⟨?_, ?_, ⟨?_, ?_, ?_⟩⟩
  · show (DmTop.next x.dm (busInputs x i)).sba = _
    rw [sba_next_of_busy _ hbusy, refused_eq_false hfits, if_neg Bool.false_ne_true, hsba, hanswer]
    cases transfer <;> rfl
  · show (if granted x i then _ else if (busInputs x i).master.rValid then none else x.response) = _
    rw [hgranted, hanswer]
    rfl
  · show (if granted x i && _ then _ else x.memory) = _
    rw [hgranted, Bool.false_and, if_neg Bool.false_ne_true, hmemory]
  · show (next x i).address = _
    rw [hsbaddress, sbaddress_of_completes hgoverned hcompletes, haddress]
  · intro hload lane hlane
    show byteAt (next x i).dm.csrs.sbdata lane = _
    have hshifted : (csrInputs x.dm (busInputs x i)).sbdata =
        readWord cfg.beIdxWidth port.memory port.address >>>
          (8 * DmSba.beIdxMasked (sbaInputs x.dm (busInputs x i))) := by
      show (x.response.getD _) >>> _ = _
      rw [hresponse, ← hword hload]
      rfl
    have haccess : (sbaInputs x.dm (busInputs x i)).sbaccess = control.access :=
      congrArg Control.access hgoverned.control
    have hreturned : (sbaInputs x.dm (busInputs x i)).sbaddress = port.address := haddress
    have hlanes := hfits.lanes
    have hwidth := DmSba.eight_mul_two_pow cfg
    have hwidthLe : cfg.busWidth ≤ 64 := by
      rcases cfg.busWidth_eq with hwidth | hwidth <;> omega
    rw [haccess] at hlanes
    rw [Control.count] at hlane
    have haccessed : lane < 2 ^ (sbaInputs x.dm (busInputs x i)).sbaccess.toNat := by
      rwa [haccess]
    have hbytes := hfits.byteAt_readWord_access port.memory haccessed
    rw [hreturned] at hbytes
    rw [hsbdata, hanswer, if_pos rfl, hshifted, byteAt_setWidth _ _ (by omega), hbytes]

/-- With the bus master idle no transfer is under way. -/
theorem Phase.of_idle (hphase : Phase control start x accesses responses)
    (hidle : x.dm.sba = .idle) :
    ∃ port, x.response = none ∧ Holds x port ∧ Follows control start accesses responses port := by
  cases hphase with
  | idle port _ hresponse hholds hfollows => exact ⟨port, hresponse, hholds, hfollows⟩
  | requested port transfer hsba => exact absurd (hsba.symm.trans hidle) (requesting_ne_idle _)
  | awaited port transfer word hsba => exact absurd (hsba.symm.trans hidle) (waiting_ne_idle _)

/-- The transfer under way is one that the bus master does not refuse. -/
theorem Phase.fits (hphase : Phase control start x accesses responses)
    (hgoverned : Governed x control) (hsize : control.access.toNat ≤ cfg.beIdxWidth)
    (i : DmTop.Inputs cfg) (hbusy : x.dm.sba ≠ .idle) :
    DmSba.Fits (sbaInputs x.dm (busInputs x i)) := by
  refine BusMemory.fits i hgoverned hsize ?_
  cases hphase with
  | idle port hsba => exact absurd hsba hbusy
  | requested port transfer hsba hresponse hholds hrunning =>
    rw [hholds.address]
    exact hrunning.aligned
  | awaited port transfer word hsba hresponse hmemory haddress hword hrunning =>
    rw [haddress]
    exact hrunning.aligned

/-- A cycle without an access lets the transfer under way go on. -/
theorem Phase.next_of_untouched (hphase : Phase control start x accesses responses)
    (hgoverned : Governed x control) (hsize : control.access.toNat ≤ cfg.beIdxWidth)
    (hactive : x.dm.csrs.dmcontrol.dmactive = true) (huntouched : touched x i = []) :
    Phase control start (next x i) accesses responses := by
  have hfits := hphase.fits hgoverned hsize i
  cases hphase with
  | idle port hsba hresponse hholds hfollows =>
    obtain ⟨hidle, hnone, hholds', -⟩ := idle_untouched hactive hsba hresponse hholds huntouched
    exact .idle port hidle hnone hholds' hfollows
  | requested port transfer hsba hresponse hholds hrunning =>
    have hfits' := hfits (hsba.trans_ne (requesting_ne_idle transfer))
    cases hgnt : i.master.gnt with
    | false =>
      obtain ⟨hstays, hnone, hholds'⟩ :=
        requested_of_not_granted hactive hsba hresponse hholds hfits' huntouched hgnt
      exact .requested port transfer hstays hnone hholds' hrunning
    | true =>
      obtain ⟨hwaits, hmemory, haddress, word, howed, hword⟩ :=
        requested_of_granted hgoverned hactive hsba hholds hfits' huntouched hgnt
      exact .awaited port transfer word hwaits howed hmemory haddress hword hrunning
  | awaited port transfer word hsba hresponse hmemory haddress hword hrunning =>
    have hfits' := hfits (hsba.trans_ne (waiting_ne_idle transfer))
    cases hvalid : i.master.rValid with
    | false =>
      obtain ⟨hwaits, howed, hkept, hstays⟩ :=
        awaited_of_unanswered hactive hsba hresponse hfits' huntouched hvalid
      exact .awaited port transfer word hwaits howed (hkept.trans hmemory)
        (hstays.trans haddress) hword hrunning
    | true =>
      obtain ⟨hidle, hnone, hcompletes⟩ := awaited_of_answered hgoverned hactive hsba hresponse
        hmemory haddress hword hfits' huntouched hvalid
      exact .idle _ hidle hnone ⟨rfl, rfl, rfl⟩ (hrunning.ends _ hcompletes)

/-- An access of a sound program is a step of the port, or starts one. -/
theorem Phase.next_of_touched {access : Access} {rest : List Access}
    (hphase : Phase control start x accesses responses) (hgoverned : Governed x control)
    (hactive : x.dm.csrs.dmcontrol.dmactive = true) (hidle : x.dm.sba = .idle)
    (hsound : Sound control start.address (accesses ++ access :: rest))
    (htouched : touched x i = [access]) :
    Phase control start (next x i) (accesses ++ [access]) (responses ++ answered x i) := by
  obtain ⟨port, hresponse, hholds, hfollows⟩ := hphase.of_idle hidle
  obtain ⟨hcontrol, haligned, -⟩ := hsound.of_follows hfollows
  obtain ⟨hsba', hnone, hholds', hanswered⟩ :=
    idle_touched hgoverned hactive hidle hresponse hholds htouched hcontrol
  rw [hanswered]
  cases htrigger : access.trigger control with
  | none =>
    rw [htrigger] at hsba'
    refine .idle (port.apply access) hsba' hnone hholds' (hfollows.snoc ?_)
    rw [Performs, htrigger]
  | some transfer =>
    rw [htrigger] at hsba'
    refine .requested (port.apply access) transfer hsba' hnone hholds' ⟨?_, ?_⟩
    · exact haligned (by rw [htrigger]; exact Option.some_ne_none transfer)
    · intro port' hcompletes
      refine hfollows.snoc ?_
      rw [Performs, htrigger]
      exact hcompletes

theorem answered_of_untouched (huntouched : touched x i = []) : answered x i = [] :=
  (DmCsrs.strobes_of_untouched huntouched).2.2.2

/-- One cycle of a sound program whose host waits for the bus master. -/
theorem Phase.step {rest : List Access} (hphase : Phase control start x accesses responses)
    (hgoverned : Governed x control) (hsize : control.access.toNat ≤ cfg.beIdxWidth)
    (hactive : x.dm.csrs.dmcontrol.dmactive = true)
    (hpolite : touched x i ≠ [] → x.dm.sba = .idle)
    (hsound : Sound control start.address (accesses ++ touched x i ++ rest)) :
    Phase control start (next x i) (accesses ++ touched x i) (responses ++ answered x i) ∧
      Governed (next x i) control := by
  have hfits := hphase.fits hgoverned hsize i
  rcases DmCsrs.touched_cases x.dm.csrs (csrInputs x.dm (busInputs x i)) with
    huntouched | ⟨access, htouched⟩
  · refine ⟨?_, governed_next hgoverned hactive hpolite (fun value heq ↦ ?_) hfits⟩
    · rw [show touched x i = [] from huntouched, answered_of_untouched huntouched,
        List.append_nil, List.append_nil]
      exact hphase.next_of_untouched hgoverned hsize hactive huntouched
    · exact absurd (huntouched.symm.trans heq) (List.cons_ne_nil _ _).symm
  · have hidle : x.dm.sba = .idle := hpolite fun hnone ↦
      List.cons_ne_nil _ _ (htouched.symm.trans hnone)
    rw [show touched x i = [access] from htouched] at hsound ⊢
    rw [List.append_assoc, List.singleton_append] at hsound
    refine ⟨hphase.next_of_touched hgoverned hactive hidle hsound htouched,
      governed_next hgoverned hactive hpolite (fun value heq ↦ ?_) hfits⟩
    -- The access at the end of the program so far is no write of the control register.
    obtain ⟨port, -, -, hfollows⟩ := hphase.of_idle hidle
    have hcontrol := (hsound.of_follows hfollows).1
    exact hcontrol value (List.singleton_inj.mp (htouched.symm.trans heq))

end Cycle

end RiscvDebug.BusMemory
