import RiscvDebug.Foundations.Temporal
import RiscvDebug.SystemBus.BusCycles

/-!
# The bus data when a write completes

The strobe that loads the read data into `sbdata` is the response strobe of the bus, which also ends
a write. The completion of a write therefore replaces `sbdata` by whatever the bus returns, and the
next write of a stream may find another upper word (`clobberedWriteRun_changes`). `sbdataKept_iff`
finds the runs in which this has no effect.
-/

set_option autoImplicit false
set_option relaxedAutoImplicit false

namespace RiscvDebug.DmTop

open Foundations

variable {cfg : Config}

/-! ### What changes the bus data -/

/-- A write of one half of the bus data that reaches the register. -/
def servesWrite (s : Regs cfg) (i : Inputs cfg) (csr : DmCsr) : Bool :=
  writes s i csr && DmCsrs.busIdle s.csrs (csrInputs s i)

/-- A read of the bus completes. -/
def readCompletes (s : Regs cfg) (i : Inputs cfg) : Bool := s.sba == .waitRead && i.master.rValid

/-- A write of the bus completes. -/
def writeCompletes (s : Regs cfg) (i : Inputs cfg) : Bool :=
  s.sba == .waitWrite && i.master.rValid

/-- What the bus returns, moved to the lowest lane of the access. -/
def returnedData (s : Regs cfg) (i : Inputs cfg) : BitVec 64 :=
  (i.master.rRdata >>> (8 * DmSba.beIdxMasked (sbaInputs s i))).setWidth 64

theorem sbdata_next {s : Regs cfg} (i : Inputs cfg) (hactive : s.csrs.dmcontrol.dmactive = true) :
    (next s i).csrs.sbdata =
      if i.master.rValid then returnedData s i
      else if servesWrite s i .sbData0 then s.csrs.sbdata.extractLsb' 32 32 ++ i.dmiReq.data
      else if servesWrite s i .sbData1 then i.dmiReq.data ++ s.csrs.sbdata.extractLsb' 0 32
      else s.csrs.sbdata := by
  rw [(busRegisters_next_of_active i hactive).2.1, csrSignals, DmCsrs.sbdata_eq]
  rfl

/-- On a bus that conforms every response completes a read or a write. -/
theorem completes_of_rValid {inputs : ℕ → Inputs cfg} (hbus : BusConforms inputs) {time : ℕ}
    (hvalid : (inputs time).master.rValid = true) :
    readCompletes (run inputs time) (inputs time) = true ∨
      writeCompletes (run inputs time) (inputs time) = true := by
  have hwaiting := hbus time hvalid
  rw [outstanding_eq, waiting, Bool.or_eq_true] at hwaiting
  rcases hwaiting with hread | hwrite
  · left
    rw [readCompletes, hread, hvalid]
    rfl
  · right
    rw [writeCompletes, hwrite, hvalid]
    rfl

/-! ### The bus data of a run -/

/-- A stretch of cycles in which the module is active, no read of the bus completes and the host
writes none of the listed halves of the bus data. -/
def NoDataChange (inputs : ℕ → Inputs cfg) (halves : List DmCsr) (start stop : ℕ) : Prop :=
  ∀ time, start ≤ time → time < stop →
    (run inputs time).csrs.dmcontrol.dmactive = true ∧
      readCompletes (run inputs time) (inputs time) = false ∧
      ∀ half ∈ halves, servesWrite (run inputs time) (inputs time) half = false

/-- The bus data change by a host write and by the completion of a read only, and the upper half
also outlasts the host writes of the lower one. -/
structure SbdataKept (inputs : ℕ → Inputs cfg) : Prop where
  data : ∀ start stop, start ≤ stop → NoDataChange inputs [.sbData0, .sbData1] start stop →
    (run inputs stop).csrs.sbdata = (run inputs start).csrs.sbdata
  upper : ∀ start stop, start ≤ stop → NoDataChange inputs [.sbData1] start stop →
    (run inputs stop).csrs.sbdata.extractLsb' 32 32 =
      (run inputs start).csrs.sbdata.extractLsb' 32 32

/-- The completion of a write returns other data than the register holds. -/
def WriteClobbers (s : Regs cfg) (i : Inputs cfg) : Prop :=
  s.csrs.dmcontrol.dmactive = true ∧ writeCompletes s i = true ∧
    returnedData s i ≠ s.csrs.sbdata

/-- A busy bus master refuses the writes of the host. -/
theorem servesWrite_of_busy {s : Regs cfg} (i : Inputs cfg) (hbusy : s.sba ≠ .idle) (csr : DmCsr) :
    servesWrite s i csr = false := by
  rw [servesWrite, busIdle_of_busy i hbusy, Bool.and_false]

/-- One cycle without a completed read, when the completions of writes return what the register
holds. -/
theorem sbdata_next_of_not_clobbers {inputs : ℕ → Inputs cfg} (hbus : BusConforms inputs) {time : ℕ}
    (hactive : (run inputs time).csrs.dmcontrol.dmactive = true)
    (hread : readCompletes (run inputs time) (inputs time) = false)
    (hclobbers : ¬ WriteClobbers (run inputs time) (inputs time)) :
    (run inputs (time + 1)).csrs.sbdata =
      if servesWrite (run inputs time) (inputs time) .sbData0 then
        (run inputs time).csrs.sbdata.extractLsb' 32 32 ++ (inputs time).dmiReq.data
      else if servesWrite (run inputs time) (inputs time) .sbData1 then
        (inputs time).dmiReq.data ++ (run inputs time).csrs.sbdata.extractLsb' 0 32
      else (run inputs time).csrs.sbdata := by
  rw [run_succ, sbdata_next _ hactive]
  cases hvalid : (inputs time).master.rValid with
  | false => rfl
  | true =>
    have hwrite : writeCompletes (run inputs time) (inputs time) = true := by
      rcases completes_of_rValid hbus hvalid with hcompletes | hcompletes
      · rw [hread] at hcompletes
        exact absurd hcompletes Bool.false_ne_true
      · exact hcompletes
    have hbusy : (run inputs time).sba ≠ .idle := by
      intro hidle
      rw [writeCompletes, hidle] at hwrite
      exact absurd hwrite Bool.false_ne_true
    have hsame : returnedData (run inputs time) (inputs time) =
        (run inputs time).csrs.sbdata := by
      by_contra hother
      exact hclobbers ⟨hactive, hwrite, hother⟩
    rw [if_pos rfl, servesWrite_of_busy _ hbusy, servesWrite_of_busy _ hbusy, hsame]
    rfl

/-- On a bus that conforms the bus data are kept exactly when every completion of a write returns
what the register holds. -/
theorem sbdataKept_iff (inputs : ℕ → Inputs cfg) (hbus : BusConforms inputs) :
    SbdataKept inputs ↔ ∀ time, ¬ WriteClobbers (run inputs time) (inputs time) := by
  constructor
  · rintro hkept time ⟨hactive, hwrite, hother⟩
    obtain ⟨hwaits, hvalid⟩ := Bool.and_eq_true_iff.mp hwrite
    have hstate : (run inputs time).sba = .waitWrite := beq_iff_eq.mp hwaits
    have hnext : (run inputs (time + 1)).csrs.sbdata =
        returnedData (run inputs time) (inputs time) := by
      rw [run_succ, sbdata_next _ hactive, hvalid]
      rfl
    apply hother
    rw [← hnext]
    refine hkept.data time (time + 1) (Nat.le_succ time) fun other hle hlt ↦ ?_
    obtain rfl : other = time := by omega
    refine ⟨hactive, ?_, fun half _ ↦ servesWrite_of_busy _ (by rw [hstate]; decide) half⟩
    rw [readCompletes, hstate]
    rfl
  · intro hclobbers
    refine ⟨?_, ?_⟩
    · intro start stop hle hquiet
      refine eq_start_of_step (q := fun time ↦ (run inputs time).csrs.sbdata) hle ?_
      intro time hstart hstop hsame
      obtain ⟨hactive, hread, hhalves⟩ := hquiet time hstart hstop
      have hlower := hhalves .sbData0 (by simp)
      have hupper := hhalves .sbData1 (by simp)
      rw [sbdata_next_of_not_clobbers hbus hactive hread (hclobbers time), hlower, hupper,
        if_neg Bool.false_ne_true, if_neg Bool.false_ne_true, hsame]
    · intro start stop hle hquiet
      refine eq_start_of_step
        (q := fun time ↦ (run inputs time).csrs.sbdata.extractLsb' 32 32) hle ?_
      intro time hstart hstop hsame
      obtain ⟨hactive, hread, hhalves⟩ := hquiet time hstart hstop
      have hupper := hhalves .sbData1 (by simp)
      rw [sbdata_next_of_not_clobbers hbus hactive hread (hclobbers time), hupper,
        if_neg Bool.false_ne_true, ← hsame]
      split_ifs
      · exact BitVec.extractLsb'_append_eq_left
      · rfl

/-- The host selects accesses of 64 bits, writes both halves of the bus data, and the bus grants
the write and answers it with the read data zero. -/
def clobberedWriteRun : ℕ → Inputs oneHartWide :=
  script
    [(Inputs.quiet oneHartWide).withRequest ⟨0x10, dtmWrite, 0x00000001⟩,
      (Inputs.quiet oneHartWide).withRequest ⟨0x38, dtmWrite, 0x00060000⟩,
      (Inputs.quiet oneHartWide).withRequest ⟨0x3d, dtmWrite, 0x11111111⟩,
      (Inputs.quiet oneHartWide).withRequest ⟨0x3c, dtmWrite, 0x22222222⟩,
      { Inputs.quiet oneHartWide with master := ⟨true, false, false, false, 0⟩ },
      { Inputs.quiet oneHartWide with master := ⟨false, true, false, false, 0⟩ }]

/-- The upper word is lost, though the host has not written it again. -/
theorem clobberedWriteRun_changes :
    BusConforms clobberedWriteRun ∧ ¬ SbdataKept clobberedWriteRun := by
  refine ⟨busConforms_script (by decide +kernel), fun hkept ↦ ?_⟩
  have hquiet : ∀ time ≤ 5, 4 ≤ time →
      (run clobberedWriteRun time).csrs.dmcontrol.dmactive = true ∧
        readCompletes (run clobberedWriteRun time) (clobberedWriteRun time) = false ∧
        ∀ half ∈ [DmCsr.sbData1],
          servesWrite (run clobberedWriteRun time) (clobberedWriteRun time) half = false := by
    decide +kernel
  have hsame := hkept.upper 4 6 (by decide) fun time hle hlt ↦ hquiet time (by omega) hle
  exact absurd hsame (by decide +kernel)

/-- The same write on a bus that returns the written data. -/
def echoedWrite : List (Inputs oneHartWide) :=
  [(Inputs.quiet oneHartWide).withRequest ⟨0x10, dtmWrite, 0x00000001⟩,
    (Inputs.quiet oneHartWide).withRequest ⟨0x38, dtmWrite, 0x00060000⟩,
    (Inputs.quiet oneHartWide).withRequest ⟨0x3d, dtmWrite, 0x11111111⟩,
    (Inputs.quiet oneHartWide).withRequest ⟨0x3c, dtmWrite, 0x22222222⟩,
    { Inputs.quiet oneHartWide with master := ⟨true, false, false, false, 0⟩ },
    { Inputs.quiet oneHartWide with
      master := ⟨false, true, false, false, 0x1111111122222222⟩ }]

instance (s : Regs cfg) (i : Inputs cfg) : Decidable (WriteClobbers s i) :=
  inferInstanceAs (Decidable (_ ∧ _))

/-- The write of the run completes, and the bus data are kept. -/
theorem echoedWrite_keeps :
    writeCompletes (run (script echoedWrite) 5) (script echoedWrite 5) = true ∧
      SbdataKept (script echoedWrite) := by
  refine ⟨by decide +kernel, (sbdataKept_iff (script echoedWrite)
    (busConforms_script (by decide +kernel))).mpr fun time ↦ ?_⟩
  have hnone : ∀ early ≤ 8, ¬ WriteClobbers (run (script echoedWrite) early)
      (script echoedWrite early) := by decide +kernel
  obtain ⟨early, hearly, hrun, -, hinputs⟩ := exists_early (show echoedWrite.length ≤ 8 by decide)
    (show run (script echoedWrite) 9 = run (script echoedWrite) 8 by decide +kernel) time
  rw [hrun, hinputs]
  exact hnone early hearly

end RiscvDebug.DmTop
