import RiscvDebug.Foundations.InputRuns
import RiscvDebug.Jtag.LosslessScans

/-!
# The driver of the JTAG port

The classes `jtag_driver` and `riscv_dbg` of the package `jtag_test`. A driver holds TMS and TDI,
makes edges of TCK, remembers which instruction it has selected, and samples TDO before some of its
edges. Each task is a function on drivers that lists the edges it makes, in the order of the source.

The second half of the module says which edges these are (`edges_writeDmi`, `edges_readDmi`) and
what they do to the TAP (`after_setIr`, `passes_setIr`, `after_shift`), whatever TDI is outside
the Shift states.
-/

set_option autoImplicit false
set_option relaxedAutoImplicit false

namespace RiscvDebug.JtagTest

open Foundations DmiJtag DmiJtagTap

/-! ### Tasks -/

/-- A driver: the pins it holds, `ir_select`, the edges it has made, and the edges before which the
last `readwrite_bits` has sampled TDO. -/
structure Driver where
  tms : Bool
  tdi : Bool
  irSelect : BitVec irLength
  edges : List DmiJtagTap.Inputs
  samples : List ℕ
deriving DecidableEq, Repr

namespace Driver

/-- An edge of TCK with the pins as they are. -/
def clock (d : Driver) : Driver := { d with edges := d.edges ++ [⟨d.tms, d.tdi⟩] }

def writeTms (tms : Bool) (d : Driver) : Driver := clock { d with tms := tms }

/-- Bits are shifted in, the last one with `tms_last`. -/
def writeBits (tmsLast : Bool) : List Bool → Driver → Driver
  | [], d => { d with tms := false }
  | [bit], d => { clock { d with tdi := bit, tms := tmsLast } with tms := false }
  | bit :: bits, d => writeBits tmsLast bits (clock { d with tdi := bit })

/-- The same with a sample of TDO before each edge. -/
def readwriteBits (tmsLast : Bool) (bits : List Bool) (d : Driver) : Driver :=
  { writeBits tmsLast bits d with
    samples := (List.range bits.length).map fun index ↦ d.edges.length + index }

def waitIdle (cycles : ℕ) (d : Driver) : Driver := clock^[cycles] d

/-- From Run-Test/Idle to Shift-DR. -/
def shiftDr (d : Driver) : Driver := writeTms false (writeTms false (writeTms true d))

/-- To Run-Test/Idle, through Exit1-DR if that has not been reached yet. -/
def updateDr (exit1Dr : Bool) (d : Driver) : Driver :=
  writeTms false (writeTms true (if exit1Dr then writeTms true d else d))

/-- An instruction is selected unless it is the one that the driver has selected before. -/
def setIr (opcode : BitVec irLength) (d : Driver) : Driver :=
  if d.irSelect = opcode then d
  else
    let d := writeTms false (writeTms false (writeTms true (writeTms true d)))
    let d := writeBits true (bitsOf opcode) d
    { writeTms false (writeTms true d) with irSelect := opcode }

/-- `write_dmi`. The address is an 8-bit `dm_csr_e`, of which seven bits are sent. -/
def writeDmi (address : BitVec 8) (data : BitVec 32) (d : Driver) : Driver :=
  let word := writeDataPacked (address.setWidth 7) data dtmWrite
  updateDr false (writeBits true (bitsOf word) (shiftDr (setIr dmiAccess d)))

/-- `read_dmi`: a scan of the read, some cycles in Run-Test/Idle, and a scan of a NOP that shifts
the result out. -/
def readDmi (address : BitVec 8) (waitCycles : ℕ) (d : Driver) : Driver :=
  let word := writeDataPacked (address.setWidth 7) 0 dtmRead
  let d := updateDr false (writeBits true (bitsOf word) (shiftDr (setIr dmiAccess d)))
  let d := waitIdle waitCycles d
  let word := writeDataPacked (address.setWidth 7) 0 dtmNop
  updateDr false (readwriteBits true (bitsOf word) (shiftDr d))

/-- The bits that the last `readwrite_bits` has read, as a word, where `tdo` lists TDO before each
edge. -/
def readData (d : Driver) (width : ℕ) (tdo : List Bool) : BitVec width :=
  packBits width fun index ↦ (d.samples.map fun edge ↦ tdo.getD edge false).getD index false

end Driver

/-! ### The edges of a task -/

/-- The edges on which bits are shifted in. -/
def shiftEdges (tmsLast : Bool) : List Bool → List DmiJtagTap.Inputs
  | [] => []
  | [bit] => [⟨tmsLast, bit⟩]
  | bit :: bits => ⟨false, bit⟩ :: shiftEdges tmsLast bits

/-- The edges of a scan of a data register, with TDI at `idle` before and at `final` after it. -/
def scanEdges (idle final : Bool) (bits : List Bool) : List DmiJtagTap.Inputs :=
  [⟨true, idle⟩, ⟨false, idle⟩] ++ ⟨false, idle⟩ :: (shiftEdges true bits ++
    [⟨true, final⟩] ++ [⟨false, final⟩])

/-- The edges of a scan of the instruction register. -/
def irEdges (idle final : Bool) (bits : List Bool) : List DmiJtagTap.Inputs :=
  [⟨true, idle⟩, ⟨true, idle⟩, ⟨false, idle⟩, ⟨false, idle⟩] ++ shiftEdges true bits ++
    [⟨true, final⟩, ⟨false, final⟩]

@[simp] theorem length_shiftEdges (tmsLast : Bool) (bits : List Bool) :
    (shiftEdges tmsLast bits).length = bits.length := by
  induction bits with
  | nil => rfl
  | cons bit bits ih =>
    cases bits with
    | nil => rfl
    | cons next bits => exact congrArg Nat.succ ih

namespace Driver

variable {d : Driver}

/-- What `write_bits` leaves. -/
theorem writeBits_eq (tmsLast : Bool) {bits : List Bool} (hbits : bits ≠ [])
    (hidle : d.tms = false) :
    ∃ last, writeBits tmsLast bits d =
      { d with tdi := last, edges := d.edges ++ shiftEdges tmsLast bits } := by
  induction bits generalizing d with
  | nil => exact absurd rfl hbits
  | cons bit bits ih =>
    cases bits with
    | nil => exact ⟨bit, by rw [hidle]; rfl⟩
    | cons next bits =>
      obtain ⟨last, hwritten⟩ := ih (d := clock { d with tdi := bit })
        (List.cons_ne_nil next bits) hidle
      refine ⟨last, hwritten.trans ?_⟩
      simp [clock, shiftEdges, hidle]

/-- The edges that select an instruction, if any are needed. -/
def Selects (irSelect opcode : BitVec irLength) (edges : List DmiJtagTap.Inputs) : Prop :=
  irSelect = opcode ∧ edges = [] ∨ ∃ idle final, edges = irEdges idle final (bitsOf opcode)

theorem setIr_eq (opcode : BitVec irLength) (hidle : d.tms = false) :
    ∃ tdi edges, setIr opcode d =
        { d with tdi := tdi, edges := d.edges ++ edges, irSelect := opcode } ∧
      Selects d.irSelect opcode edges := by
  by_cases hselected : d.irSelect = opcode
  · refine ⟨d.tdi, [], ?_, Or.inl ⟨hselected, rfl⟩⟩
    rw [setIr, if_pos hselected, List.append_nil, ← hselected]
  · have hbits : bitsOf opcode ≠ [] := List.ne_nil_of_length_eq_add_one (length_bitsOf opcode)
    obtain ⟨last, hwritten⟩ := writeBits_eq true hbits
      (d := writeTms false (writeTms false (writeTms true (writeTms true d)))) rfl
    refine ⟨last, irEdges d.tdi last (bitsOf opcode), ?_, Or.inr ⟨d.tdi, last, rfl⟩⟩
    rw [setIr, if_neg hselected]
    simp only [hwritten]
    simp [writeTms, clock, irEdges, hidle]

/-- A scan of a data register from Run-Test/Idle and back. -/
theorem scan_eq {bits : List Bool} (hbits : bits ≠ []) (hidle : d.tms = false) :
    ∃ final, updateDr false (writeBits true bits (shiftDr d)) =
      { d with tdi := final, edges := d.edges ++ scanEdges d.tdi final bits } := by
  obtain ⟨last, hwritten⟩ := writeBits_eq true hbits (d := shiftDr d) rfl
  refine ⟨last, ?_⟩
  rw [hwritten]
  simp [updateDr, shiftDr, writeTms, clock, scanEdges, hidle]

theorem waitIdle_eq (cycles : ℕ) (hidle : d.tms = false) :
    waitIdle cycles d =
      { d with edges := d.edges ++ List.replicate cycles ⟨false, d.tdi⟩ } := by
  induction cycles with
  | zero => simp [waitIdle]
  | succ cycles ih =>
    rw [waitIdle, Function.iterate_succ_apply', ← waitIdle, ih, List.replicate_succ']
    simp [clock, hidle]

/-- The edges before which a scan samples TDO are those of its Shift-DR states. -/
def sampledEdges (d : Driver) (count : ℕ) : List ℕ :=
  (List.range count).map fun index ↦ d.edges.length + 3 + index

theorem readScan_eq {bits : List Bool} (hbits : bits ≠ []) (hidle : d.tms = false) :
    ∃ final, updateDr false (readwriteBits true bits (shiftDr d)) =
      { d with
        tdi := final
        edges := d.edges ++ scanEdges d.tdi final bits
        samples := sampledEdges d bits.length } := by
  obtain ⟨last, hwritten⟩ := writeBits_eq true hbits (d := shiftDr d) rfl
  refine ⟨last, ?_⟩
  rw [readwriteBits, hwritten]
  simp [updateDr, shiftDr, writeTms, clock, scanEdges, hidle, sampledEdges]

theorem bitsOf_ne_nil {width : ℕ} (word : BitVec (width + 1)) : bitsOf word ≠ [] :=
  List.ne_nil_of_length_eq_add_one (length_bitsOf word)

/-- A write is a scan of its word with `dmi` selected. -/
theorem writeDmi_eq (address : BitVec 8) (data : BitVec 32) (hidle : d.tms = false) :
    ∃ first idle final, writeDmi address data d =
        { d with
          tdi := final
          edges := d.edges ++ (first ++ scanEdges idle final
            (bitsOf (writeDataPacked (address.setWidth 7) data dtmWrite)))
          irSelect := dmiAccess } ∧ Selects d.irSelect dmiAccess first := by
  obtain ⟨tdi, first, hselected, hfirst⟩ := setIr_eq dmiAccess hidle
  obtain ⟨final, hscanned⟩ := scan_eq (d := setIr dmiAccess d)
    (bitsOf_ne_nil (writeDataPacked (address.setWidth 7) data dtmWrite))
    (by rw [hselected]; exact hidle)
  refine ⟨first, tdi, final, ?_, hfirst⟩
  rw [writeDmi, hscanned, hselected, List.append_assoc]

/-- A read is a scan of its word with `dmi` selected, some edges in Run-Test/Idle, and a scan of a
NOP whose bits on TDO it samples. -/
theorem readDmi_eq (address : BitVec 8) (waitCycles : ℕ) (hidle : d.tms = false) :
    ∃ first idle middle final before,
      before = first ++ scanEdges idle middle
          (bitsOf (writeDataPacked (address.setWidth 7) 0 dtmRead)) ++
        List.replicate waitCycles ⟨false, middle⟩ ∧
      readDmi address waitCycles d =
        { d with
          tdi := final
          edges := d.edges ++ (before ++
            scanEdges middle final (bitsOf (writeDataPacked (address.setWidth 7) 0 dtmNop)))
          irSelect := dmiAccess
          samples := (List.range 41).map fun index ↦ (d.edges ++ before).length + 3 + index } ∧
      Selects d.irSelect dmiAccess first := by
  obtain ⟨tdi, first, hselected, hfirst⟩ := setIr_eq dmiAccess hidle
  obtain ⟨middle, hscanned⟩ := scan_eq (d := setIr dmiAccess d)
    (bitsOf_ne_nil (writeDataPacked (address.setWidth 7) 0 dtmRead))
    (by rw [hselected]; exact hidle)
  have hwaited := waitIdle_eq waitCycles
    (d := updateDr false (writeBits true
      (bitsOf (writeDataPacked (address.setWidth 7) 0 dtmRead)) (shiftDr (setIr dmiAccess d))))
    (by rw [hscanned, hselected]; exact hidle)
  obtain ⟨final, hread⟩ := readScan_eq
    (d := waitIdle waitCycles (updateDr false (writeBits true
      (bitsOf (writeDataPacked (address.setWidth 7) 0 dtmRead)) (shiftDr (setIr dmiAccess d)))))
    (bitsOf_ne_nil (writeDataPacked (address.setWidth 7) 0 dtmNop))
    (by rw [hwaited, hscanned, hselected]; exact hidle)
  refine ⟨first, tdi, middle, final, _, rfl, ?_, hfirst⟩
  rw [readDmi, hread, hwaited, hscanned, hselected]
  simp [sampledEdges]

end Driver

/-! ### The TAP on the edges of a task -/

/-- The state of the TAP after an edge. -/
def stateStep (state : TapState) (i : DmiJtagTap.Inputs) : TapState := state.next i.tms

/-- The bits that are shifted in meet the TAP in a Shift state. -/
theorem shiftEdges_states {state : TapState} (hstate : state = .shiftDr ∨ state = .shiftIr)
    (bits : List Bool) :
    Passes stateStep (· = state) state (shiftEdges true bits) ∧
      (bits ≠ [] → after stateStep state (shiftEdges true bits) = state.next true) := by
  have hstays : state.next false = state := by rcases hstate with rfl | rfl <;> rfl
  induction bits with
  | nil => exact ⟨trivial, fun hbits ↦ absurd rfl hbits⟩
  | cons bit bits ih =>
    cases bits with
    | nil => exact ⟨⟨rfl, trivial⟩, fun _ ↦ rfl⟩
    | cons next bits =>
      rw [shiftEdges.eq_3 _ _ _ (by simp), Passes, after_cons,
        show stateStep state ⟨false, bit⟩ = state from hstays]
      exact ⟨⟨rfl, ih.1⟩, fun _ ↦ ih.2 (List.cons_ne_nil next bits)⟩

section Tap

variable (idcodeValue : BitVec 32) {tap : DmiJtagTap.Regs} {edges : List DmiJtagTap.Inputs}

/-- The TAP after edges of TCK. -/
def tapAfter (tap : DmiJtagTap.Regs) (edges : List DmiJtagTap.Inputs) : DmiJtagTap.Regs :=
  after (DmiJtagTap.next idcodeValue) tap edges

theorem tapAfter_append (first second : List DmiJtagTap.Inputs) :
    tapAfter idcodeValue tap (first ++ second) =
      tapAfter idcodeValue (tapAfter idcodeValue tap first) second :=
  after_append _ _ _ _

theorem tapState_after (tap : DmiJtagTap.Regs) (edges : List DmiJtagTap.Inputs) :
    (tapAfter idcodeValue tap edges).tapState = after stateStep tap.tapState edges := by
  induction edges generalizing tap with
  | nil => rfl
  | cons edge edges ih => exact ih (DmiJtagTap.next idcodeValue tap edge)

/-- The states of the TAP that keep the instruction. -/
def KeepsIr (state : TapState) : Prop := state ≠ .updateIr ∧ state ≠ .testLogicReset

instance (state : TapState) : Decidable (KeepsIr state) := inferInstanceAs (Decidable (_ ∧ _))

/-- The instruction changes in Update-IR and in Test-Logic-Reset only. -/
theorem ir_after (hpasses : Passes stateStep KeepsIr tap.tapState edges) :
    (tapAfter idcodeValue tap edges).ir = tap.ir := by
  induction edges generalizing tap with
  | nil => rfl
  | cons edge edges ih =>
    obtain ⟨⟨hupdate, hreset⟩, hrest⟩ := hpasses
    have hkept : (DmiJtagTap.next idcodeValue tap edge).ir = tap.ir := by
      simp [DmiJtagTap.next, irNext, DmiJtagTap.Regs.updateIr, DmiJtagTap.Regs.testLogicReset,
        hupdate, hreset]
    exact (ih hrest).trans hkept

/-- In Shift-IR the shift register conserves its bits. -/
theorem irShift_after (hstate : tap.tapState = .shiftIr) (bits : List Bool) :
    ∃ out, out.length = bits.length ∧
      bitsOf tap.irShift ++ bits =
        out ++ bitsOf (tapAfter idcodeValue tap (shiftEdges true bits)).irShift := by
  induction bits generalizing tap with
  | nil => exact ⟨[], rfl, List.append_nil _⟩
  | cons bit bits ih =>
    have hshift (tms : Bool) : bitsOf tap.irShift ++ [bit] =
        tap.irShift.getLsbD 0 :: bitsOf (DmiJtagTap.next idcodeValue tap ⟨tms, bit⟩).irShift := by
      have hnext : (DmiJtagTap.next idcodeValue tap ⟨tms, bit⟩).irShift =
          BitVec.ofBool bit ++ tap.irShift.extractLsb' 1 4 := by
        simp [DmiJtagTap.next, irShiftNext, DmiJtagTap.Regs.shiftIr, DmiJtagTap.Regs.captureIr,
          DmiJtagTap.Regs.testLogicReset, hstate]
      rw [hnext]
      exact @bitsOf_shift 4 tap.irShift bit
    cases bits with
    | nil => exact ⟨[tap.irShift.getLsbD 0], rfl, hshift true⟩
    | cons next bits =>
      obtain ⟨out, hlength, hout⟩ := @ih (DmiJtagTap.next idcodeValue tap ⟨false, bit⟩)
        (by rw [DmiJtagTap.next, hstate]; rfl)
      refine ⟨tap.irShift.getLsbD 0 :: out, congrArg Nat.succ hlength, ?_⟩
      rw [← List.singleton_append (l := next :: bits), ← List.append_assoc, hshift false,
        List.cons_append, hout]
      rfl

/-- Update-IR hands on what has been shifted in. -/
theorem ir_of_updateIr (hstate : tap.tapState = .exit1Ir) (final : Bool) :
    (tapAfter idcodeValue tap [⟨true, final⟩, ⟨false, final⟩]).ir = tap.irShift := by
  simp [tapAfter, DmiJtagTap.next, irNext, irShiftNext, DmiJtagTap.Regs.updateIr,
    DmiJtagTap.Regs.testLogicReset, DmiJtagTap.Regs.shiftIr, DmiJtagTap.Regs.captureIr, hstate,
    TapState.next]

/-- The states of the TAP in which nothing reaches the register `dmi`, the error or the transaction
by a strobe. -/
def IsQuiet (state : TapState) : Prop :=
  state ≠ .testLogicReset ∧ state ≠ .captureDr ∧ state ≠ .updateDr

instance (state : TapState) : Decidable (IsQuiet state) :=
  inferInstanceAs (Decidable (_ ∧ _ ∧ _))

/-- A scan of the instruction register is quiet and leaves the TAP in Run-Test/Idle with the
instruction that has been shifted in. -/
theorem after_irEdges (hstate : tap.tapState = .runTestIdle) (idle final : Bool)
    (opcode : BitVec irLength) :
    Passes stateStep IsQuiet .runTestIdle (irEdges idle final (bitsOf opcode)) ∧
      (tapAfter idcodeValue tap (irEdges idle final (bitsOf opcode))).tapState = .runTestIdle ∧
        (tapAfter idcodeValue tap (irEdges idle final (bitsOf opcode))).ir = opcode := by
  have hbits : bitsOf opcode ≠ [] := List.ne_nil_of_length_eq_add_one (length_bitsOf opcode)
  obtain ⟨hshifts, hexit⟩ := shiftEdges_states (Or.inr rfl : TapState.shiftIr = .shiftDr ∨ _)
    (bitsOf opcode)
  have hleft := hexit hbits
  have hentered : after stateStep .runTestIdle
      [⟨true, idle⟩, ⟨true, idle⟩, ⟨false, idle⟩, ⟨false, idle⟩] = .shiftIr := rfl
  refine ⟨?_, ?_, ?_⟩
  · rw [irEdges, passes_append, passes_append, after_append, hentered, hleft]
    refine ⟨⟨?_, hshifts.mono fun state heq ↦ heq ▸ by decide⟩, ?_⟩
    · exact ⟨show IsQuiet .runTestIdle by decide, show IsQuiet .selectDrScan by decide,
        show IsQuiet .selectIrScan by decide, show IsQuiet .captureIr by decide, trivial⟩
    · exact ⟨show IsQuiet .exit1Ir by decide, show IsQuiet .updateIr by decide, trivial⟩
  · rw [tapState_after, hstate, irEdges, after_append, after_append, hentered, hleft]
    rfl
  · rw [irEdges, tapAfter_append, tapAfter_append]
    have hbegins : (tapAfter idcodeValue tap
        [⟨true, idle⟩, ⟨true, idle⟩, ⟨false, idle⟩, ⟨false, idle⟩]).tapState = .shiftIr := by
      rw [tapState_after, hstate]
      rfl
    obtain ⟨out, hlength, hout⟩ := irShift_after idcodeValue hbegins (bitsOf opcode)
    obtain ⟨-, hheld⟩ := List.append_inj' hout (by rw [length_bitsOf, length_bitsOf])
    have hends : (tapAfter idcodeValue (tapAfter idcodeValue tap
        [⟨true, idle⟩, ⟨true, idle⟩, ⟨false, idle⟩, ⟨false, idle⟩])
          (shiftEdges true (bitsOf opcode))).tapState = .exit1Ir := by
      rw [tapState_after, hbegins, hleft]
      rfl
    rw [ir_of_updateIr idcodeValue hends]
    exact (bitsOf_inj hheld).symm

/-- Selecting an instruction is quiet, and leaves it selected. -/
theorem after_selects {irSelect opcode : BitVec irLength}
    (hselects : Driver.Selects irSelect opcode edges)
    (hstate : tap.tapState = .runTestIdle) (hir : tap.ir = irSelect) :
    Passes stateStep IsQuiet .runTestIdle edges ∧
      (tapAfter idcodeValue tap edges).tapState = .runTestIdle ∧
        (tapAfter idcodeValue tap edges).ir = opcode := by
  rcases hselects with ⟨hsame, rfl⟩ | ⟨idle, final, rfl⟩
  · exact ⟨trivial, hstate, hir.trans hsame⟩
  · exact after_irEdges idcodeValue hstate idle final opcode

end Tap

/-! A scan of a data register, piece by piece: up to Capture-DR, and from Shift-DR to Update-DR. -/

theorem toCapture_states (idle : Bool) :
    Passes stateStep IsQuiet .runTestIdle [⟨true, idle⟩, ⟨false, idle⟩] ∧
      after stateStep .runTestIdle [⟨true, idle⟩, ⟨false, idle⟩] = .captureDr :=
  ⟨⟨show IsQuiet .runTestIdle by decide, show IsQuiet .selectDrScan by decide, trivial⟩, rfl⟩

theorem toUpdate_states {bits : List Bool} (hbits : bits ≠ []) (final : Bool) :
    Passes stateStep IsQuiet .shiftDr (shiftEdges true bits ++ [⟨true, final⟩]) ∧
      after stateStep .shiftDr (shiftEdges true bits) = .exit1Dr ∧
        after stateStep .shiftDr (shiftEdges true bits ++ [⟨true, final⟩]) = .updateDr := by
  obtain ⟨hshifts, hexit⟩ := shiftEdges_states (Or.inl rfl : TapState.shiftDr = .shiftDr ∨ _) bits
  have hleft := hexit hbits
  rw [passes_append, after_append, hleft]
  exact ⟨⟨hshifts.mono fun state heq ↦ heq ▸ by decide, show IsQuiet .exit1Dr by decide, trivial⟩,
    rfl, rfl⟩

/-- A scan of a data register keeps the instruction and ends where it begins. -/
theorem scanEdges_states {bits : List Bool} (hbits : bits ≠ []) (idle final : Bool) :
    Passes stateStep KeepsIr .runTestIdle (scanEdges idle final bits) ∧
      after stateStep .runTestIdle (scanEdges idle final bits) = .runTestIdle := by
  obtain ⟨hshifts, hexit⟩ := shiftEdges_states (Or.inl rfl : TapState.shiftDr = .shiftDr ∨ _) bits
  have hleft := hexit hbits
  have hrest : Passes stateStep KeepsIr .shiftDr
      (shiftEdges true bits ++ [⟨true, final⟩] ++ [⟨false, final⟩]) := by
    rw [passes_append, passes_append, after_append, hleft]
    exact ⟨⟨hshifts.mono fun state heq ↦ heq ▸ by decide, show KeepsIr .exit1Dr by decide, trivial⟩,
      show KeepsIr .updateDr by decide, trivial⟩
  have hends : after stateStep .shiftDr
      (shiftEdges true bits ++ [⟨true, final⟩] ++ [⟨false, final⟩]) = .runTestIdle := by
    rw [after_append, after_append, hleft]
    rfl
  exact ⟨⟨show KeepsIr .runTestIdle by decide, show KeepsIr .selectDrScan by decide,
    show KeepsIr .captureDr by decide, hrest⟩, hends⟩

theorem waiting_states (cycles : ℕ) (idle : Bool) :
    Passes stateStep (· = .runTestIdle) .runTestIdle (List.replicate cycles ⟨false, idle⟩) ∧
      after stateStep .runTestIdle (List.replicate cycles ⟨false, idle⟩) = .runTestIdle := by
  induction cycles with
  | zero => exact ⟨trivial, rfl⟩
  | succ cycles ih =>
    rw [List.replicate_succ]
    exact ⟨⟨rfl, ih.1⟩, ih.2⟩

end RiscvDebug.JtagTest
