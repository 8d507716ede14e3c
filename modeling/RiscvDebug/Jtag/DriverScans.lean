import RiscvDebug.Jtag.JtagDriver

/-!
# Scans of the JTAG driver

The driver's edges of TCK reach `dmi_jtag` among edges of the core clock, which come whenever they
like, and the channels delay requests and responses as they like. `Drives` says which edges of TCK a
stretch of a run consists of, and `Scans` what the edges of a scan of the register `dmi` come to:
one Capture-DR, one Update-DR, and nothing else that reaches the transaction (`Drives.scans`).
-/

set_option autoImplicit false
set_option relaxedAutoImplicit false

namespace RiscvDebug.DmiLink

open Foundations DmiJtag DmiJtagTap JtagTest

variable {cfg : Config}

/-! ### Edges of TCK -/

/-- The pins at an edge of TCK. -/
def Event.pins : Event cfg → List DmiJtagTap.Inputs
  | .tck pins _ _ => [pins]
  | .clk _ _ _ => []

/-- TDO before an edge of TCK. -/
def shown (link : Link cfg) : Event cfg → List Bool
  | .tck _ _ _ => [tdo link.jtag]
  | .clk _ _ _ => []

section Drives

variable (idcodeValue : BitVec 32) (start : Link cfg) (events : ℕ → Event cfg)

/-- The pins at an edge of the run. -/
def pinsAt (time : ℕ) : List DmiJtagTap.Inputs := (events time).pins

/-- TDO before an edge of the run. -/
def shownAt (time : ℕ) : List Bool := shown (run idcodeValue start events time) (events time)

/-- The edges of TCK between two times. -/
def Drives (first last : ℕ) (edges : List DmiJtagTap.Inputs) : Prop :=
  first ≤ last ∧ history (pinsAt events) last = history (pinsAt events) first ++ edges

variable {idcodeValue start events}

theorem length_pinsAt (time : ℕ) : (pinsAt events time).length ≤ 1 := by
  unfold pinsAt
  cases events time with
  | tck pins takes gives => exact le_rfl
  | clk environment gives takes => exact Nat.zero_le 1

variable {first last : ℕ} {edges : List DmiJtagTap.Inputs}

theorem Drives.append {more : List DmiJtagTap.Inputs}
    (hdrives : Drives events first last (edges ++ more)) :
    ∃ middle, Drives events first middle edges ∧ Drives events middle last more := by
  obtain ⟨hle, hhistory⟩ := hdrives
  obtain ⟨middle, hfirst, hlast, hmiddle⟩ := exists_history_eq length_pinsAt hle hhistory
  refine ⟨middle, ⟨hfirst, hmiddle⟩, hlast, ?_⟩
  rw [hhistory, hmiddle, List.append_assoc]

/-- An edge among others. -/
theorem Drives.edge {edge : DmiJtagTap.Inputs} {more : List DmiJtagTap.Inputs}
    (hdrives : Drives events first last (edges ++ edge :: more)) :
    ∃ time takes gives, Drives events first time edges ∧ events time = .tck edge takes gives ∧
      time < last ∧ Drives events (time + 1) last more := by
  obtain ⟨hle, hhistory⟩ := hdrives
  obtain ⟨time, hfirst, hlast, hbefore, hentry⟩ := exists_entry length_pinsAt hle hhistory
  have hafter : Drives events (time + 1) last more := by
    refine ⟨hlast, ?_⟩
    rw [hhistory, history_succ, hentry, hbefore]
    simp
  unfold pinsAt at hentry
  cases hevent : events time with
  | tck pins takes gives =>
    rw [hevent] at hentry
    obtain rfl : pins = edge := List.singleton_inj.mp hentry
    exact ⟨time, takes, gives, ⟨hfirst, hbefore⟩, hevent, hlast, hafter⟩
  | clk environment gives takes =>
    rw [hevent] at hentry
    exact absurd hentry (List.cons_ne_nil edge []).symm

theorem Drives.trans {middle : ℕ} {more : List DmiJtagTap.Inputs}
    (hdrives : Drives events first middle edges) (hmore : Drives events middle last more) :
    Drives events first last (edges ++ more) :=
  ⟨hdrives.1.trans hmore.1, by rw [hmore.2, hdrives.2, List.append_assoc]⟩

/-- Every time of a stretch breaks its edges off. -/
theorem Drives.exists_seen (hdrives : Drives events first last edges) {time : ℕ}
    (hfirst : first ≤ time) (hlast : time ≤ last) :
    ∃ seen, seen <+: edges ∧ Drives events first time seen := by
  obtain ⟨seen, hseen⟩ := history_le (pinsAt events) hfirst
  refine ⟨seen, ?_, hfirst, hseen.symm⟩
  have hle := history_le (pinsAt events) hlast
  rw [← hseen, hdrives.2] at hle
  exact (List.prefix_append_right_inj _).mp hle

variable (idcodeValue start) in
/-- Edges of the core clock alone leave `dmi_jtag` as it is. -/
theorem Drives.kept (hdrives : Drives events first last []) :
    (run idcodeValue start events last).jtag = (run idcodeValue start events first).jtag ∧
      history (shownAt idcodeValue start events) last =
        history (shownAt idcodeValue start events) first := by
  obtain ⟨hle, hhistory⟩ := hdrives
  induction last, hle using Nat.le_induction with
  | base => exact ⟨rfl, rfl⟩
  | succ last hle ih =>
    rw [List.append_nil, history_succ] at hhistory
    have hlength := (history_le (pinsAt events) hle).length_le
    have hnone : pinsAt events last = [] := by
      have htotal := congrArg List.length hhistory
      rw [List.length_append] at htotal
      exact List.length_eq_zero_iff.mp (by omega)
    rw [hnone, List.append_nil] at hhistory
    obtain ⟨hjtag, hshown⟩ := ih (by rw [hhistory, List.append_nil])
    unfold pinsAt at hnone
    cases hevent : events last with
    | tck pins takes gives =>
      rw [hevent] at hnone
      exact absurd hnone (List.cons_ne_nil pins [])
    | clk environment gives takes =>
      refine ⟨(jtag_succ_clk hevent).trans hjtag, ?_⟩
      rw [history_succ, shownAt, hevent, hshown]
      exact List.append_nil _

variable (idcodeValue start) in
/-- An edge of TCK takes `dmi_jtag` one step further. -/
theorem Drives.step {edge : DmiJtagTap.Inputs} {more : List DmiJtagTap.Inputs}
    (hdrives : Drives events first last (edge :: more)) :
    ∃ time takes gives, first ≤ time ∧ events time = .tck edge takes gives ∧
      (run idcodeValue start events time).jtag = (run idcodeValue start events first).jtag ∧
      (run idcodeValue start events (time + 1)).jtag =
        DmiJtag.next (run idcodeValue start events first).jtag
          (jtagInputs (run idcodeValue start events time) edge takes gives) idcodeValue ∧
      history (shownAt idcodeValue start events) (time + 1) =
        history (shownAt idcodeValue start events) first ++
          [tdo (run idcodeValue start events first).jtag] ∧
      Drives events (time + 1) last more := by
  obtain ⟨time, takes, gives, hbefore, hevent, -, hafter⟩ :=
    (show Drives events first last ([] ++ edge :: more) from hdrives).edge
  obtain ⟨hjtag, hshown⟩ := hbefore.kept idcodeValue start
  refine ⟨time, takes, gives, hbefore.1, hevent, hjtag, ?_, ?_, hafter⟩
  · rw [jtag_succ_tck hevent, hjtag]
  · rw [history_succ, hshown, shownAt, hevent, shown, hjtag]

theorem Drives.tap (hdrives : Drives events first last edges) :
    (run idcodeValue start events last).jtag.tap =
      tapAfter idcodeValue (run idcodeValue start events first).jtag.tap edges := by
  induction edges generalizing first with
  | nil => exact congrArg _ (hdrives.kept idcodeValue start).1
  | cons edge edges ih =>
    obtain ⟨time, takes, gives, -, -, -, hnext, -, hmore⟩ :=
      hdrives.step idcodeValue start
    rw [ih hmore, hnext, next_tap idcodeValue rfl]
    rfl

theorem Drives.tapState (hdrives : Drives events first last edges) :
    (run idcodeValue start events last).jtag.tap.tapState =
      after stateStep (run idcodeValue start events first).jtag.tap.tapState edges := by
  rw [hdrives.tap, tapState_after]

/-- What holds of the states before the edges and after the last one holds at any time. -/
theorem Drives.holds (hdrives : Drives events first last edges) {property : TapState → Prop}
    (hpasses : Passes stateStep property
      (run idcodeValue start events first).jtag.tap.tapState edges)
    (hend : property (run idcodeValue start events last).jtag.tap.tapState)
    {time : ℕ} (hfirst : first ≤ time) (hlast : time ≤ last) :
    property (run idcodeValue start events time).jtag.tap.tapState := by
  obtain ⟨seen, hseen, htime⟩ := hdrives.exists_seen hfirst hlast
  rw [hdrives.tapState] at hend
  rw [htime.tapState]
  exact hpasses.at_le hend hseen

/-- What the edges of TCK pass. -/
theorem Drives.passes (hdrives : Drives events first last edges) {property : TapState → Prop}
    (hpasses : Passes stateStep property
      (run idcodeValue start events first).jtag.tap.tapState edges)
    {time : ℕ} (hfirst : first ≤ time) (hlast : time < last) {pins : DmiJtagTap.Inputs}
    {takes gives : Bool} (hevent : events time = .tck pins takes gives) :
    property (run idcodeValue start events time).jtag.tap.tapState := by
  obtain ⟨seen, -, hseen⟩ := hdrives.exists_seen hfirst hlast.le
  obtain ⟨more, ⟨rest, hmore⟩, hafter⟩ :=
    hdrives.exists_seen (hfirst.trans (Nat.le_succ time)) hlast
  have hentered : more = seen ++ [pins] := by
    have hhistory := hafter.2
    rw [history_succ, hseen.2, List.append_assoc] at hhistory
    have hpins : pinsAt events time = [pins] := by
      rw [pinsAt, hevent]
      rfl
    rw [← List.append_cancel_left hhistory, hpins]
  rw [← hmore, hentered, List.append_assoc, passes_append] at hpasses
  rw [hseen.tapState]
  exact hpasses.2.1

end Drives

/-! ### Scans -/

section Scans

variable {idcodeValue : BitVec 32} {start : Link cfg} {events : ℕ → Event cfg} {first last : ℕ}

/-- In Shift-DR the selected register conserves its bits: those on TDI go in, and those on TDO come
out. -/
theorem Drives.shift {bits : List Bool} (hdrives : Drives events first last (shiftEdges true bits))
    (hstate : (run idcodeValue start events first).jtag.tap.tapState = .shiftDr) :
    ∃ out, out.length = bits.length ∧
      (run idcodeValue start events first).jtag.selectedBits ++ bits =
        out ++ (run idcodeValue start events last).jtag.selectedBits ∧
      history (shownAt idcodeValue start events) last =
        history (shownAt idcodeValue start events) first ++ out := by
  induction bits generalizing first with
  | nil =>
    obtain ⟨hjtag, hshown⟩ := hdrives.kept idcodeValue start
    exact ⟨[], rfl, by rw [hjtag, List.append_nil]; rfl, by rw [hshown, List.append_nil]⟩
  | cons bit bits ih =>
    have hone {tms : Bool} {more : List DmiJtagTap.Inputs}
        (hdrives : Drives events first last (⟨tms, bit⟩ :: more)) :
        ∃ time, (run idcodeValue start events (time + 1)).jtag.tap.tapState =
            TapState.shiftDr.next tms ∧
          (run idcodeValue start events first).jtag.selectedBits ++ [bit] =
            tdo (run idcodeValue start events first).jtag ::
              (run idcodeValue start events (time + 1)).jtag.selectedBits ∧
          history (shownAt idcodeValue start events) (time + 1) =
            history (shownAt idcodeValue start events) first ++
              [tdo (run idcodeValue start events first).jtag] ∧
          Drives events (time + 1) last more := by
      obtain ⟨time, takes, gives, -, -, -, hnext, hshown, hmore⟩ :=
        hdrives.step idcodeValue start
      have hbetween : (run idcodeValue start events first).jtag.betweenStrobes := by
        rw [Regs.betweenStrobes, hstate]
        decide
      have hshifts : (run idcodeValue start events first).jtag.tap.shiftDr = true := by
        rw [DmiJtagTap.Regs.shiftDr, hstate]
        rfl
      have hconserved := selectedBits_next idcodeValue
        (i := jtagInputs (run idcodeValue start events time) ⟨tms, bit⟩ takes gives) rfl hbetween
      rw [Regs.shiftDrBit, Regs.shiftDrBit, hshifts, if_pos rfl, if_pos rfl, ← hnext] at hconserved
      refine ⟨time, ?_, hconserved, hshown, hmore⟩
      rw [hnext, next_tap idcodeValue rfl, DmiJtagTap.next, hstate]
      rfl
    cases bits with
    | nil =>
      obtain ⟨time, -, hbits, hshown, hmore⟩ := hone hdrives
      obtain ⟨hjtag, hkept⟩ := hmore.kept idcodeValue start
      exact ⟨[tdo (run idcodeValue start events first).jtag], rfl, by rw [hbits, hjtag]; rfl,
        hkept.trans hshown⟩
    | cons next bits =>
      obtain ⟨time, htap, hbits, hshown, hmore⟩ := hone hdrives
      obtain ⟨out, hlength, hout, hkept⟩ := ih hmore htap
      refine ⟨tdo (run idcodeValue start events first).jtag :: out, congrArg Nat.succ hlength,
        ?_, ?_⟩
      · rw [← List.singleton_append (l := next :: bits), ← List.append_assoc, hbits,
          List.cons_append, hout]
        rfl
      · rw [hkept, hshown, List.append_assoc]
        rfl

/-- Nothing clears the channels or the error. -/
def Calm (link : Link cfg) : Prop := link.jtag.dmiClear = false ∧ link.jtag.clearsError = false

theorem calm_of_tap {link : Link cfg} (hreset : link.jtag.tap.tapState ≠ .testLogicReset)
    (hupdate : link.jtag.tap.tapState ≠ .updateDr ∨ link.jtag.tap.ir = dmiAccess) : Calm link := by
  have hdtmcs : link.jtag.updatesDtmcs = false := by
    rw [Regs.updatesDtmcs, DmiJtagTap.Regs.dtmcsSelect, DmiJtagTap.Regs.updateDr]
    rcases hupdate with hstate | hir
    · rw [beq_eq_false_iff_ne.mpr hstate, Bool.and_false]
    · rw [hir]
      rfl
  have htlr : link.jtag.tap.testLogicReset = false := beq_eq_false_iff_ne.mpr hreset
  exact ⟨by rw [Regs.dmiClear, htlr, hdtmcs]; rfl, by rw [Regs.clearsError, hdtmcs]; rfl⟩

/-- An edge of TCK finds the TAP in a state without a strobe. -/
def Silent (idcodeValue : BitVec 32) (start : Link cfg) (events : ℕ → Event cfg) (time : ℕ) :
    Prop :=
  ∀ pins takes gives, events time = .tck pins takes gives →
    IsQuiet (run idcodeValue start events time).jtag.tap.tapState

/-- A scan of the register `dmi`: one Capture-DR and one Update-DR, at which the register holds the
word that has been shifted in, while the one that was captured has been shown on TDO. -/
structure Scans (idcodeValue : BitVec 32) (start : Link cfg) (events : ℕ → Event cfg)
    (first last : ℕ) (word : BitVec 41) (capture update : ℕ) : Prop where
  order : first ≤ capture ∧ capture < update ∧ update < last
  captures : captures (run idcodeValue start events capture) (events capture) = true
  updates : (∃ pins takes gives, events update = .tck pins takes gives) ∧
    (run idcodeValue start events update).jtag.updatesDmi = true
  held : (run idcodeValue start events update).jtag.dr = word
  silent : ∀ time, first ≤ time → time < last → time ≠ capture → time ≠ update →
    Silent idcodeValue start events time
  shown : ∃ before after, before.length = 3 ∧
    history (shownAt idcodeValue start events) last =
      history (shownAt idcodeValue start events) first ++
        (before ++ bitsOf (run idcodeValue start events (capture + 1)).jtag.dr ++ after)
  calm : ∀ time, first ≤ time → time ≤ last → Calm (run idcodeValue start events time)
  tap : (run idcodeValue start events last).jtag.tap.tapState = .runTestIdle ∧
    (run idcodeValue start events last).jtag.tap.ir = dmiAccess

/-- A stretch without Update-IR keeps the instruction. -/
theorem Drives.ir_eq {edges : List DmiJtagTap.Inputs} (hdrives : Drives events first last edges)
    (hkeeps : Passes stateStep KeepsIr (run idcodeValue start events first).jtag.tap.tapState edges)
    {time : ℕ} (hfirst : first ≤ time) (hlast : time ≤ last) :
    (run idcodeValue start events time).jtag.tap.ir =
      (run idcodeValue start events first).jtag.tap.ir := by
  obtain ⟨seen, ⟨rest, hrest⟩, hseen⟩ := hdrives.exists_seen hfirst hlast
  rw [← hrest, passes_append] at hkeeps
  rw [hseen.tap]
  exact ir_after idcodeValue hkeeps.1

variable (idcodeValue start) in
theorem Drives.length_shown {edges : List DmiJtagTap.Inputs}
    (hdrives : Drives events first last edges) :
    ∃ bits, bits.length = edges.length ∧ history (shownAt idcodeValue start events) last =
      history (shownAt idcodeValue start events) first ++ bits := by
  induction edges generalizing first with
  | nil => exact ⟨[], rfl, by rw [(hdrives.kept idcodeValue start).2, List.append_nil]⟩
  | cons edge edges ih =>
    obtain ⟨time, takes, gives, -, -, -, -, hshown, hmore⟩ := hdrives.step idcodeValue start
    obtain ⟨bits, hlength, hbits⟩ := ih hmore
    exact ⟨_ :: bits, congrArg Nat.succ hlength, by rw [hbits, hshown, List.append_assoc]; rfl⟩

/-- The bits of a word replace those of the register `dmi`, which come out. -/
theorem Drives.shift_dr {word : BitVec 41}
    (hdrives : Drives events first last (shiftEdges true (bitsOf word)))
    (hstate : (run idcodeValue start events first).jtag.tap.tapState = .shiftDr)
    (hir : ∀ time, first ≤ time → time ≤ last →
      (run idcodeValue start events time).jtag.tap.ir = dmiAccess) :
    (run idcodeValue start events last).jtag.dr = word ∧
      history (shownAt idcodeValue start events) last =
        history (shownAt idcodeValue start events) first ++
          bitsOf (run idcodeValue start events first).jtag.dr := by
  have hselected {time : ℕ} (hfirst : first ≤ time) (hlast : time ≤ last) :
      (run idcodeValue start events time).jtag.selectedBits =
        bitsOf (run idcodeValue start events time).jtag.dr := by
    rw [Regs.selectedBits, hir time hfirst hlast]
    rfl
  obtain ⟨out, hlength, hconserved, hshown⟩ := hdrives.shift hstate
  rw [hselected le_rfl hdrives.1, hselected hdrives.1 le_rfl] at hconserved
  obtain ⟨hout, hheld⟩ := List.append_inj hconserved (by rw [hlength, length_bitsOf, length_bitsOf])
  exact ⟨(bitsOf_inj hheld).symm, by rw [hshown, hout]⟩

/-- The edge in Exit1-DR keeps the register `dmi`. -/
theorem Drives.exit_dr {final : Bool} (hdrives : Drives events first last [⟨true, final⟩])
    (hstate : (run idcodeValue start events first).jtag.tap.tapState = .exit1Dr) :
    (run idcodeValue start events last).jtag.dr = (run idcodeValue start events first).jtag.dr := by
  obtain ⟨time, takes, gives, -, -, -, hnext, -, hmore⟩ := hdrives.step idcodeValue start
  have hbetween : (run idcodeValue start events first).jtag.betweenStrobes := by
    rw [Regs.betweenStrobes, hstate]
    decide
  have hshifts : (run idcodeValue start events first).jtag.tap.shiftDr = false := by
    rw [DmiJtagTap.Regs.shiftDr, hstate]
    rfl
  obtain ⟨-, -, -, -, hdr⟩ := next_of_betweenStrobes idcodeValue
    (i := jtagInputs (run idcodeValue start events time) ⟨true, final⟩ takes gives) rfl hbetween
  rw [(hmore.kept idcodeValue start).1, hnext, hdr, hshifts, Bool.false_and,
    if_neg Bool.false_ne_true]

/-- The edges of a scan of the register `dmi` make one. -/
theorem Drives.scans {idle final : Bool} (word : BitVec 41)
    (hdrives : Drives events first last (scanEdges idle final (bitsOf word)))
    (hstate : (run idcodeValue start events first).jtag.tap.tapState = .runTestIdle)
    (hir : (run idcodeValue start events first).jtag.tap.ir = dmiAccess) :
    ∃ capture update, Scans idcodeValue start events first last word capture update := by
  have hbits : bitsOf word ≠ [] := List.ne_nil_of_length_eq_add_one (length_bitsOf word)
  obtain ⟨hscanKeeps, hscanEnds⟩ := scanEdges_states hbits idle final
  obtain ⟨hplainCapture, hatCapture⟩ := toCapture_states idle
  obtain ⟨hplainUpdate, hatExit, hatUpdate⟩ := toUpdate_states hbits final
  obtain ⟨capture, takes, gives, htoCapture, hcaptureEvent, -, hfromCapture⟩ := hdrives.edge
  obtain ⟨update, takes', gives', htoUpdate, hupdateEvent, hlast, hfromUpdate⟩ := hfromCapture.edge
  obtain ⟨exited, hshifts, hexits⟩ := htoUpdate.append
  have hselected {time : ℕ} (hfirst : first ≤ time) (hle : time ≤ last) :
      (run idcodeValue start events time).jtag.tap.ir = dmiAccess :=
    (hdrives.ir_eq (hstate ▸ hscanKeeps) hfirst hle).trans hir
  have hfirst := htoCapture.1
  have hshifted := hshifts.1
  have hexited := hexits.1
  -- The states of the TAP at the pieces of the scan.
  have hcaptureState : (run idcodeValue start events capture).jtag.tap.tapState = .captureDr := by
    rw [htoCapture.tapState, hstate, hatCapture]
  have hshiftState :
      (run idcodeValue start events (capture + 1)).jtag.tap.tapState = .shiftDr := by
    rw [jtag_succ_tck hcaptureEvent, next_tap idcodeValue rfl, DmiJtagTap.next, hcaptureState]
    rfl
  have hexitState : (run idcodeValue start events exited).jtag.tap.tapState = .exit1Dr := by
    rw [hshifts.tapState, hshiftState, hatExit]
  have hupdateState : (run idcodeValue start events update).jtag.tap.tapState = .updateDr := by
    rw [htoUpdate.tapState, hshiftState, hatUpdate]
  obtain ⟨hheld, hshown⟩ := hshifts.shift_dr hshiftState
    fun time hafter hbefore ↦ hselected (by omega) (by omega)
  refine ⟨capture, update,
    { order := ⟨hfirst, by omega, hlast⟩
      captures := ?_
      updates := ⟨⟨_, _, _, hupdateEvent⟩, ?_⟩
      held := (hexits.exit_dr hexitState).trans hheld
      silent := ?_
      shown := ?_
      calm := fun time hafter hbefore ↦ ?_
      tap := ⟨by rw [hdrives.tapState, hstate, hscanEnds], hselected hdrives.1 le_rfl⟩ }⟩
  · rw [hcaptureEvent, captures, Regs.capturesDmi, DmiJtagTap.Regs.captureDr,
      DmiJtagTap.Regs.dmiSelect, hcaptureState, hselected hfirst (by omega)]
    rfl
  · rw [Regs.updatesDmi, DmiJtagTap.Regs.updateDr, DmiJtagTap.Regs.dmiSelect, hupdateState,
      hselected (by omega) hlast.le]
    rfl
  · intro time hafter hbefore hneCapture hneUpdate pins takes gives hevent
    rcases Nat.lt_or_ge time capture with hlt | hge
    · exact (htoCapture.passes (hstate ▸ hplainCapture) hafter hlt hevent)
    rcases Nat.lt_or_ge time update with hlt | hge
    · exact (htoUpdate.passes (hshiftState ▸ hplainUpdate) (by omega) hlt hevent)
    · exact hfromUpdate.passes trivial (by omega) hbefore hevent
  · obtain ⟨bits, hlength, hcaptured⟩ := htoCapture.length_shown idcodeValue start
    obtain ⟨rest, hrest⟩ := history_le (shownAt idcodeValue start events) (hexited.trans hlast.le)
    refine ⟨bits ++ [tdo (run idcodeValue start events capture).jtag], rest, ?_, ?_⟩
    · rw [List.length_append, hlength]
      rfl
    · rw [← hrest, hshown, history_succ, hcaptured, shownAt, hcaptureEvent, shown]
      simp only [List.append_assoc]
  · have hkeeps : KeepsIr (run idcodeValue start events last).jtag.tap.tapState := by
      rw [hdrives.tapState, hstate, hscanEnds]
      decide
    have hstateAt := hdrives.holds (hstate ▸ hscanKeeps) hkeeps hafter hbefore
    exact calm_of_tap hstateAt.2 (Or.inr (hselected hafter hbefore))

end Scans

end RiscvDebug.DmiLink
