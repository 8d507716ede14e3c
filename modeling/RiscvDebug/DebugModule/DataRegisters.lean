import RiscvDebug.DebugModule.DataLanes

/-!
# The abstract data registers

A DMI read of `DataN` finds the register at `autoexecdata_idx`, from which `Data0` is subtracted,
and a hart finds it at its word of the data window, but a DMI write takes the low bits of the
address (`dataWriteIdx`). The indices agree for up to four data registers (`dataWriteIdx_eq`), and
then a written value stays until the next write (`findsValue_of_le`). With five and more registers
the write of `Data0` is lost (`lostRun_reads`). `dataConsistent_iff` is the exact condition.
-/

set_option autoImplicit false
set_option relaxedAutoImplicit false

namespace RiscvDebug

open Foundations

/-! ### Indices -/

/-- The DMI address of `DataN`. -/
def dataAddress (register : ℕ) : BitVec 7 := BitVec.ofNat 7 (0x04 + register)

theorem dataAddress_toNat {register : ℕ} (hregister : register < 12) :
    (dataAddress register).toNat = 4 + register := by
  rw [dataAddress, BitVec.toNat_ofNat]
  omega

theorem dmCsr_data_iff (cfg : Config) (address : BitVec 7) :
    cfg.dmCsr address = .data ↔ ∃ register < cfg.dataCount, address = dataAddress register := by
  have hlow := cfg.two_le_dataCount
  have hhigh := cfg.dataCount_le
  constructor
  · intro hdata
    by_cases hrange : 0x04 ≤ address.toNat ∧ address.toNat ≤ 0x04 + cfg.dataCount - 1
    · refine ⟨address.toNat - 4, by omega, ?_⟩
      apply BitVec.eq_of_toNat_eq
      rw [dataAddress_toNat (by omega)]
      omega
    · -- Every other branch names another register.
      have hother {condition : Prop} [Decidable condition] {first second : DmCsr}
          (hfirst : first ≠ .data) (hsecond : second ≠ .data) :
          (if condition then first else second) ≠ .data := by
        split_ifs
        · exact hfirst
        · exact hsecond
      refine absurd hdata ?_
      rw [Config.dmCsr, if_neg hrange]
      repeat refine hother (by decide) ?_
      decide
  · rintro ⟨register, hregister, rfl⟩
    rw [Config.dmCsr, if_pos]
    rw [dataAddress_toNat (by omega)]
    omega

namespace DmCsrs

variable {cfg : Config} {i : Inputs cfg} {register : ℕ}

theorem autoexecdataIdx_eq (hregister : register < cfg.dataCount)
    (haddress : i.dmiReq.addr = dataAddress register) : autoexecdataIdx i = register := by
  have hhigh := cfg.dataCount_le
  have hnat := dataAddress_toNat (show register < 12 by omega)
  rw [autoexecdataIdx, haddress, BitVec.toNat_setWidth, BitVec.toNat_sub, BitVec.toNat_setWidth,
    hnat, show (0x04#8).toNat = 4 from rfl]
  omega

/-- Up to four data registers the low bits of the address of `Data0` are zero. -/
theorem dataWriteIdx_eq (hcount : cfg.dataCount ≤ 4) (hregister : register < cfg.dataCount)
    (haddress : i.dmiReq.addr = dataAddress register) : dataWriteIdx i = register := by
  have hwidth : cfg.dataIndexWidth ≤ 2 :=
    clog2_le_of_le_two_pow (show cfg.dataCount ≤ 2 ^ 2 from hcount)
  have hlt : register < 2 ^ cfg.dataIndexWidth :=
    hregister.trans_le (le_two_pow_clog2 cfg.dataCount)
  rw [dataWriteIdx, haddress, dataAddress_toNat (by omega)]
  interval_cases cfg.dataIndexWidth
  · omega
  · omega
  · omega

/-- With more registers they are not. -/
theorem dataWriteIdx_data0 (hcount : 5 ≤ cfg.dataCount) (haddress : i.dmiReq.addr = dataAddress 0) :
    dataWriteIdx i = 4 := by
  have hwide : 4 < 2 ^ cfg.dataIndexWidth := lt_of_lt_of_le hcount (le_two_pow_clog2 cfg.dataCount)
  rw [dataWriteIdx, haddress]
  exact Nat.mod_eq_of_lt hwide

/-- A write of a data register that finds the command unit idle. -/
theorem dataDmi_of_writes {q : Regs cfg} (hwrites : writes q i .data = true)
    (hidle : i.cmdbusy = false) :
    (csrReadWrite q i).dataDmi = q.data.setIfInBounds (dataWriteIdx i) i.dmiReq.data := by
  obtain ⟨hwrite, haddressed⟩ := Bool.and_eq_true_iff.mp hwrites
  show (dmiAccess q i).dataDmi = _
  rw [dmiAccess_of_write hwrite]
  unfold dmiWrite
  rw [eq_of_beq haddressed, hidle]
  rfl

/-- A read of a data register that finds the command unit idle. -/
theorem resp_of_readsData {q : Regs cfg} (hreads : readsCsr q i .data = true)
    (hidle : i.cmdbusy = false) :
    (csrReadWrite q i).resp =
      ⟨q.data[autoexecdataIdx i % 2 ^ cfg.dataIndexWidth]?.getD 0, dtmSuccess⟩ := by
  obtain ⟨hread, haddressed⟩ := Bool.and_eq_true_iff.mp hreads
  show (dmiAccess q i).resp = _
  rw [dmiAccess_of_read hread]
  unfold dmiRead
  rw [eq_of_beq haddressed, hidle]
  rfl

end DmCsrs

namespace DmTop

open DmMem

variable {cfg : Config}

/-! ### Accesses of the host -/

/-- An accepted DMI access to `DataN`. -/
def accessesData (s : Regs cfg) (i : Inputs cfg) (op : BitVec 2) (register : ℕ) : Bool :=
  accepts s i && i.dmiReq.op == op && i.dmiReq.addr == dataAddress register

/-- A stretch of a run from a DMI write of `DataN` to a DMI read of it. The module is active, the
command unit is idle, no hart stores to the data, and no other DMI access writes `DataN`. -/
structure WritesAndReads (inputs : ℕ → Inputs cfg) (register : ℕ) (value : BitVec 32)
    (start stop : ℕ) : Prop where
  exists_register : register < cfg.dataCount
  order : start < stop
  active : ∀ time, start ≤ time → time ≤ stop →
    (run inputs time).csrs.dmcontrol.dmactive = true
  idle : ∀ time, start ≤ time → time ≤ stop →
    (ctrl (run inputs time) (inputs time)).cmdbusy = false
  unstored : ∀ time, start ≤ time → time < stop →
    dataValid (memInputs (run inputs time) (inputs time) false) = false
  writes : accessesData (run inputs start) (inputs start) dtmWrite register = true
  written : (inputs start).dmiReq.data = value
  others : ∀ time, start < time → time < stop →
    accessesData (run inputs time) (inputs time) dtmWrite register = false
  reads : accessesData (run inputs stop) (inputs stop) dtmRead register = true

/-- What the host and the harts find in such a stretch: the read returns the written value, the
write changes no other data register, a hart that loads the word of the register gets the value,
and both accesses start the command exactly when the autoexec bit of the register is set. -/
structure FindsValue (inputs : ℕ → Inputs cfg) (register : ℕ) (value : BitVec 32)
    (start stop : ℕ) : Prop where
  returned : (csrSignals (run inputs stop) (inputs stop)).resp = ⟨value, dtmSuccess⟩
  unchanged : ∀ other < cfg.dataCount, other ≠ register →
    (run inputs (start + 1)).csrs.data[other]? = (run inputs start).csrs.data[other]?
  served : ∀ time, start < time → time ≤ stop → (inputs time).slave.reads = true →
    (inputs time).slave.offset.toNat = dataAddr.toNat + 4 * register →
      (run inputs (time + 1)).mem.rdataOut.extractLsb'
        (8 * ((inputs time).slave.offset.toNat % busBytes cfg)) 32 = value
  autoexec : ∀ time, time = start ∨ time = stop →
    (run inputs (time + 1)).csrs.cmdValid =
      (run inputs time).csrs.abstractauto.autoexecdata.getLsbD register

/-- The data registers are consistent: every value that the host writes is found. -/
def DataConsistent (cfg : Config) : Prop :=
  ∀ (inputs : ℕ → Inputs cfg) (register : ℕ) (value : BitVec 32) (start stop : ℕ),
    WritesAndReads inputs register value start stop → FindsValue inputs register value start stop

/-! ### Up to four registers -/

section Cycle

variable {s : Regs cfg} {i : Inputs cfg} {register : ℕ}

/-- The register an accepted access to `DataN` addresses. -/
theorem dmCsr_of_accessesData {op : BitVec 2} (hregister : register < cfg.dataCount)
    (haccess : accessesData s i op register = true) :
    accepts s i = true ∧ i.dmiReq.op = op ∧ i.dmiReq.addr = dataAddress register ∧
      cfg.dmCsr i.dmiReq.addr = .data := by
  obtain ⟨hboth, haddress⟩ := Bool.and_eq_true_iff.mp haccess
  obtain ⟨haccepts, hop⟩ := Bool.and_eq_true_iff.mp hboth
  have haddress' := eq_of_beq haddress
  exact ⟨haccepts, eq_of_beq hop, haddress',
    (dmCsr_data_iff cfg _).mpr ⟨register, hregister, haddress'⟩⟩

theorem writes_of_accessesData (hregister : register < cfg.dataCount)
    (haccess : accessesData s i dtmWrite register = true) : writes s i .data = true := by
  obtain ⟨haccepts, hop, -, hcsr⟩ := dmCsr_of_accessesData hregister haccess
  show (accepts s i && i.dmiReq.op == dtmWrite && cfg.dmCsr i.dmiReq.addr == .data) = true
  rw [haccepts, hop, hcsr]
  rfl

theorem exists_accessesData (hwrites : writes s i .data = true) :
    ∃ register < cfg.dataCount, i.dmiReq.addr = dataAddress register ∧
      accessesData s i dtmWrite register = true := by
  obtain ⟨hwrite, hcsr⟩ := Bool.and_eq_true_iff.mp hwrites
  obtain ⟨register, hregister, haddress⟩ := (dmCsr_data_iff cfg _).mp (eq_of_beq hcsr)
  exact ⟨register, hregister, haddress,
    Bool.and_eq_true_iff.mpr ⟨hwrite, beq_iff_eq.mpr haddress⟩⟩

theorem readsCsr_of_accessesData (hregister : register < cfg.dataCount)
    (haccess : accessesData s i dtmRead register = true) :
    DmCsrs.readsCsr s.csrs (csrInputs s i) .data = true := by
  obtain ⟨haccepts, hop, -, hcsr⟩ := dmCsr_of_accessesData hregister haccess
  show (accepts s i && i.dmiReq.op == dtmRead && cfg.dmCsr i.dmiReq.addr == .data) = true
  rw [haccepts, hop, hcsr]
  rfl

/-- An access to a data register that finds the command unit idle starts the command when its
autoexec bit is set. -/
theorem cmdValid_next_of_accessesData {op : BitVec 2} (hop : op = dtmRead ∨ op = dtmWrite)
    (hregister : register < cfg.dataCount) (haccess : accessesData s i op register = true)
    (hactive : s.csrs.dmcontrol.dmactive = true) (hidle : (ctrl s i).cmdbusy = false) :
    (next s i).csrs.cmdValid = s.csrs.abstractauto.autoexecdata.getLsbD register := by
  obtain ⟨haccepts, hopcode, haddress, hcsr⟩ := dmCsr_of_accessesData hregister haccess
  have hbusy : (csrInputs s i).cmdbusy = false := hidle
  have hindex : DmCsrs.autoexecdataIdx (csrInputs s i) = register :=
    DmCsrs.autoexecdataIdx_eq hregister haddress
  have haddressed : DmCsrs.addressed (csrInputs s i) = .data := hcsr
  have hkind : (DmCsrs.acceptsRead s.csrs (csrInputs s i) ||
      DmCsrs.acceptsWrite s.csrs (csrInputs s i)) = true := by
    show ((accepts s i && i.dmiReq.op == dtmRead) ||
      (accepts s i && i.dmiReq.op == dtmWrite)) = true
    rw [haccepts, hopcode]
    rcases hop with rfl | rfl
    · rfl
    · rfl
  rw [cmdValid_next, hactive, triggers, DmCsrs.triggers, DmCsrs.isTrigger, haddressed, hbusy]
  simp only [hkind, DmCsrs.autoexecdataBit, hindex, Bool.true_and, Bool.not_false, Bool.and_true]

/-- What a cycle without hart stores leaves in the data. -/
theorem data_next_of_idle (hactive : s.csrs.dmcontrol.dmactive = true)
    (hidle : (ctrl s i).cmdbusy = false) (hunstored : dataValid (memInputs s i false) = false) :
    (next s i).csrs.data =
      if writes s i .data then
        s.csrs.data.setIfInBounds (DmCsrs.dataWriteIdx (csrInputs s i)) i.dmiReq.data
      else s.csrs.data := by
  have hvalid : (csrInputs s i).dataValid = false := hunstored
  show (DmCsrs.next s.csrs (csrInputs s i)).data = _
  unfold DmCsrs.next
  simp only [hactive, hvalid, if_true, Bool.false_eq_true, if_false]
  split_ifs with hwrites
  · exact DmCsrs.dataDmi_of_writes hwrites hidle
  · exact DmCsrs.dataDmi_of_not_writes (by rw [Bool.not_eq_true] at hwrites; exact hwrites)

/-- The word of the data window at a register, as a hart finds it. -/
theorem dataWord_served {r : DmMem.Regs cfg} {i : DmMem.Inputs cfg} {register : ℕ}
    {value : BitVec 32} (hvalue : i.data[register]? = some value) (hreads : i.slave.reads = true)
    (hoffset : i.slave.offset.toNat = dataAddr.toNat + 4 * register) :
    (DmMem.next r i).rdataOut.extractLsb' (8 * (i.slave.offset.toNat % busBytes cfg)) 32 =
      value := by
  have hregister : register < cfg.dataCount := by
    by_contra houtside
    rw [Vector.getElem?_eq_none (by omega)] at hvalue
    exact Option.some_ne_none value hvalue.symm
  have hcount := cfg.dataCount_le
  have hbase : dataAddr.toNat = 0x380 := rfl
  have hwindow : InDataWindow cfg i.slave.offset := inDataWindow_iff.mpr (by omega)
  have hindex : dataRegister i.slave.offset = register := by
    unfold dataRegister
    omega
  rw [extractLsb'_rdataOut r (by omega), wordMux_next (by omega), rdataNext_data hreads hwindow,
    hindex]
  rcases Nat.even_or_odd' register with ⟨pair, heven | hodd⟩
  · rw [show 8 * (i.slave.offset.toNat % 8) = 0 by omega,
      show 2 * (register / 2) = register by omega, hvalue]
    exact BitVec.extractLsb'_append_eq_right
  · rw [show 8 * (i.slave.offset.toNat % 8) = 32 by omega,
      show 2 * (register / 2) + 1 = register by omega, hvalue]
    exact BitVec.extractLsb'_append_eq_left

end Cycle

section Stretch

variable {inputs : ℕ → Inputs cfg} {register : ℕ} {value : BitVec 32} {start stop : ℕ}
  (hcount : cfg.dataCount ≤ 4) (hstretch : WritesAndReads inputs register value start stop)
include hcount hstretch

/-- The write replaces the register it names. -/
theorem WritesAndReads.data_written :
    (run inputs (start + 1)).csrs.data =
      (run inputs start).csrs.data.setIfInBounds register value := by
  have hregister := hstretch.exists_register
  have horder := hstretch.order
  obtain ⟨-, -, haddress, -⟩ := dmCsr_of_accessesData hregister hstretch.writes
  rw [run_succ, data_next_of_idle (hstretch.active start le_rfl horder.le)
    (hstretch.idle start le_rfl horder.le) (hstretch.unstored start le_rfl horder),
    if_pos (writes_of_accessesData hregister hstretch.writes),
    DmCsrs.dataWriteIdx_eq hcount hregister haddress, hstretch.written]

/-- No other cycle of the stretch does. -/
theorem WritesAndReads.kept {time : ℕ} (hstart : start < time) (hstop : time ≤ stop) :
    (run inputs time).csrs.data[register]? = some value := by
  have hfirst : (run inputs (start + 1)).csrs.data[register]? = some value := by
    rw [hstretch.data_written hcount,
      Vector.getElem?_setIfInBounds_self_of_lt hstretch.exists_register]
  rw [← hfirst]
  refine eq_start_of_step (q := fun time ↦ (run inputs time).csrs.data[register]?)
    (show start + 1 ≤ time from hstart) fun between hle hlt hsame ↦ ?_
  rw [← hsame, run_succ, data_next_of_idle (hstretch.active between (by omega) (by omega))
    (hstretch.idle between (by omega) (by omega))
    (hstretch.unstored between (by omega) (by omega))]
  split_ifs with hwrites
  · obtain ⟨other, hother, hotherAddress, haccess⟩ := exists_accessesData hwrites
    have hne : other ≠ register := by
      rintro rfl
      rw [hstretch.others between (by omega) (by omega)] at haccess
      exact Bool.false_ne_true haccess
    rw [DmCsrs.dataWriteIdx_eq hcount hother hotherAddress,
      Vector.getElem?_setIfInBounds_ne hne]
  · rfl

/-- Up to four data registers every written value is found. -/
theorem findsValue_of_le : FindsValue inputs register value start stop := by
  have horder := hstretch.order
  have hregister := hstretch.exists_register
  have hindices : register < 2 ^ cfg.dataIndexWidth :=
    hregister.trans_le (le_two_pow_clog2 cfg.dataCount)
  obtain ⟨-, -, haddress', -⟩ := dmCsr_of_accessesData hregister hstretch.reads
  refine ⟨?_, ?_, ?_, ?_⟩
  · have hresp := DmCsrs.resp_of_readsData (readsCsr_of_accessesData hregister hstretch.reads)
      (hstretch.idle stop horder.le le_rfl)
    have hindex : DmCsrs.autoexecdataIdx (csrInputs (run inputs stop) (inputs stop)) = register :=
      DmCsrs.autoexecdataIdx_eq hregister haddress'
    rw [hindex, Nat.mod_eq_of_lt hindices, hstretch.kept hcount horder le_rfl] at hresp
    exact hresp
  · intro other hother hne
    rw [hstretch.data_written hcount, Vector.getElem?_setIfInBounds_ne hne.symm]
  · intro time hstart hstop hreads hoffset
    rw [run_succ]
    exact dataWord_served (hstretch.kept hcount hstart hstop) hreads hoffset
  · rintro time (rfl | rfl)
    · rw [run_succ]
      exact cmdValid_next_of_accessesData (Or.inr rfl) hregister hstretch.writes
        (hstretch.active _ le_rfl horder.le) (hstretch.idle _ le_rfl horder.le)
    · rw [run_succ]
      exact cmdValid_next_of_accessesData (Or.inl rfl) hregister hstretch.reads
        (hstretch.active _ horder.le le_rfl) (hstretch.idle _ horder.le le_rfl)

end Stretch

/-! ### Five and more registers -/

/-- The host activates the module, writes `Data0` and reads it. -/
def lostRun (cfg : Config) : ℕ → Inputs cfg :=
  script
    [(Inputs.quiet cfg).withRequest ⟨0x10, dtmWrite, 0x00000001⟩,
      (Inputs.quiet cfg).withRequest ⟨dataAddress 0, dtmWrite, 0x00000001⟩,
      (Inputs.quiet cfg).withRequest ⟨dataAddress 0, dtmRead, 0x00000000⟩]

theorem lostRun_cases (cfg : Config) (time : ℕ) :
    (lostRun cfg time).slave = (Inputs.quiet cfg).slave ∧
      (lostRun cfg time).dmiRespReady = true := by
  rcases time with _ | _ | _ | time
  · exact ⟨rfl, rfl⟩
  · exact ⟨rfl, rfl⟩
  · exact ⟨rfl, rfl⟩
  · have hquiet : lostRun cfg (time + 3) = Inputs.quiet cfg := rfl
    rw [hquiet]
    exact ⟨rfl, rfl⟩

/-- Without an access of a hart no hart halts, and the command unit stays idle. -/
theorem idle_of_silent {inputs : ℕ → Inputs cfg}
    (hsilent : ∀ time, (inputs time).slave.req = false) (time : ℕ) :
    (run inputs time).mem.state = .idle ∧ (run inputs time).mem.halted = 0 := by
  induction time with
  | zero => exact ⟨rfl, rfl⟩
  | succ time ih =>
    obtain ⟨hidle, hhalted⟩ := ih
    rw [run_succ]
    constructor
    · rw [state_next_of_idle _ hidle, resumeTaken, commandTaken, hhalted]
      simp
    · show cfg.selectableHarts &&& haltedNext _ (memInputs _ (inputs time) _) = 0
      have hnone (clear : Bool) (address : BitVec 12) :
          (memInputs (run inputs time) (inputs time) clear).slave.writes address = false := by
        show ((inputs time).slave.req && _ && _) = false
        rw [hsilent time]
        rfl
      unfold haltedNext
      rw [hnone, hnone]
      show cfg.selectableHarts &&& (if _ then 0 else (run inputs time).mem.halted) = 0
      rw [hhalted, ite_self]
      exact BitVec.and_zero

/-- A host that takes every response finds room for the next one. -/
theorem dmiReqReady_of_taken {inputs : ℕ → Inputs cfg}
    (htaken : ∀ time, (inputs time).dmiRespReady = true) (time : ℕ) :
    (run inputs time).csrs.dmiReqReady = true := by
  have hlength : (run inputs time).csrs.respQueue.entries.length ≤ 1 := by
    induction time with
    | zero => exact Nat.zero_le 1
    | succ time ih =>
      rw [run_succ]
      show (DmCsrs.next _ (csrInputs _ (inputs time))).respQueue.entries.length ≤ 1
      have hready : (csrInputs (run inputs time) (inputs time)).dmiRespReady = true := htaken time
      rw [DmCsrs.respQueue_eq, hready, Bool.true_and]
      exact BoundedQueue.length_cycle_le_one ih _ _ _
  rw [DmCsrs.Regs.dmiReqReady, BoundedQueue.isFull, decide_eq_false (by omega)]
  rfl

theorem lostRun_writesAndReads (cfg : Config) :
    WritesAndReads (lostRun cfg) 0 0x00000001 1 2 := by
  have hcount := cfg.two_le_dataCount
  have hsilent (time : ℕ) : (lostRun cfg time).slave.req = false := by
    rw [(lostRun_cases cfg time).1]
    rfl
  have hready (time : ℕ) : (run (lostRun cfg) time).csrs.dmiReqReady = true :=
    dmiReqReady_of_taken (fun time ↦ (lostRun_cases cfg time).2) time
  have hidle (time : ℕ) : (ctrl (run (lostRun cfg) time) (lostRun cfg time)).cmdbusy = false := by
    rw [cmdbusy_eq, (idle_of_silent hsilent time).1]
    rfl
  have haccess {time : ℕ} {op : BitVec 2} {data : BitVec 32}
      (hrequest : lostRun cfg time = (Inputs.quiet cfg).withRequest ⟨dataAddress 0, op, data⟩) :
      accessesData (run (lostRun cfg) time) (lostRun cfg time) op 0 = true := by
    rw [hrequest]
    show (true && (run (lostRun cfg) time).csrs.dmiReqReady && op == op &&
      dataAddress 0 == dataAddress 0) = true
    rw [hready, beq_self_eq_true, beq_self_eq_true]
    rfl
  have hwrite : accessesData (run (lostRun cfg) 1) (lostRun cfg 1) dtmWrite 0 = true := haccess rfl
  have hactive : (run (lostRun cfg) 1).csrs.dmcontrol.dmactive = true := dmactive_of_activation rfl
  have hactive' : (run (lostRun cfg) 2).csrs.dmcontrol.dmactive = true := by
    have hother : writes (run (lostRun cfg) 1) (lostRun cfg 1) .dmControl = false := by
      have haddressed : DmCsrs.addressed (csrInputs (run (lostRun cfg) 1) (lostRun cfg 1)) =
          .data := (dmCsr_of_accessesData (by omega) hwrite).2.2.2
      rw [writes, DmCsrs.writes, haddressed]
      exact Bool.and_false _
    rw [run_succ, dmactive_next, writtenDmcontrol_of_not_writes hother, hactive]
  refine ⟨by omega, by decide, ?_, fun time _ _ ↦ hidle time, ?_, hwrite, rfl, ?_, haccess rfl⟩
  · intro time hstart hstop
    obtain rfl | rfl : time = 1 ∨ time = 2 := by omega
    · exact hactive
    · exact hactive'
  · intro time _ _
    show ((lostRun cfg time).slave.req && _ && _ && _) = false
    rw [hsilent]
    rfl
  · intro time hstart hstop
    omega

/-- The value is lost: the write names another register, and the read returns zero. -/
theorem lostRun_reads (hcount : 5 ≤ cfg.dataCount) :
    (csrSignals (run (lostRun cfg) 2) (lostRun cfg 2)).resp = ⟨0, dtmSuccess⟩ := by
  have hstretch := lostRun_writesAndReads cfg
  obtain ⟨-, -, haddress, -⟩ := dmCsr_of_accessesData hstretch.exists_register hstretch.writes
  obtain ⟨-, -, haddress', -⟩ := dmCsr_of_accessesData hstretch.exists_register hstretch.reads
  have hresp := DmCsrs.resp_of_readsData
    (readsCsr_of_accessesData hstretch.exists_register hstretch.reads)
    (hstretch.idle 2 (by decide) le_rfl)
  have hindex : DmCsrs.autoexecdataIdx (csrInputs (run (lostRun cfg) 2) (lostRun cfg 2)) = 0 :=
    DmCsrs.autoexecdataIdx_eq hstretch.exists_register haddress'
  have hfresh : (run (lostRun cfg) 1).csrs.data = Vector.replicate cfg.dataCount 0 := rfl
  have hdata : (run (lostRun cfg) 2).csrs.data =
      (Vector.replicate cfg.dataCount 0).setIfInBounds 4 (lostRun cfg 1).dmiReq.data := by
    rw [run_succ, data_next_of_idle (hstretch.active 1 le_rfl (by decide))
      (hstretch.idle 1 le_rfl (by decide)) (hstretch.unstored 1 le_rfl (by decide)),
      if_pos (writes_of_accessesData hstretch.exists_register hstretch.writes),
      DmCsrs.dataWriteIdx_data0 hcount haddress, hfresh]
  rw [hindex, Nat.zero_mod, hdata, Vector.getElem?_setIfInBounds_ne (by decide),
    Vector.getElem?_replicate, if_pos hstretch.exists_register] at hresp
  exact hresp

theorem not_dataConsistent (hcount : 5 ≤ cfg.dataCount) : ¬ DataConsistent cfg := by
  intro hconsistent
  have hfound := hconsistent (lostRun cfg) 0 0x00000001 1 2 (lostRun_writesAndReads cfg)
  have hreturned := hfound.returned
  rw [lostRun_reads hcount] at hreturned
  exact absurd (congrArg DmiResp.data hreturned) (by decide)

/-- A debug module for one hart with five data registers. -/
def fiveRegisters : Config :=
  { oneHart with dataCount := 5, two_le_dataCount := by decide, dataCount_le := by decide }

/-- With five data registers the host reads zero from `Data0` after writing one to it. -/
theorem fiveRegisters_lose_data0 : ¬ DataConsistent fiveRegisters :=
  not_dataConsistent le_rfl

/-- The data registers are consistent exactly when there are at most four of them. -/
theorem dataConsistent_iff (cfg : Config) : DataConsistent cfg ↔ cfg.dataCount ≤ 4 := by
  constructor
  · intro hconsistent
    by_contra hmany
    exact not_dataConsistent (by omega) hconsistent
  · intro hcount inputs register value start stop hstretch
    exact findsValue_of_le hcount hstretch

end DmTop

end RiscvDebug
