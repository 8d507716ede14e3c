import RiscvDebug.Jtag.DriverScans

/-!
# Programs of the JTAG driver

A host that performs `write_dmi`, `read_dmi` and `wait_idle`, one after the other, whatever the two
clocks and the channels do meanwhile. No task clears anything (`Performed`), so a run of the program
is a run without a clear, and an error sticks to its end. Hence the theorem `followed`: `dm_csrs`
takes the requests of the program in their order and none of its own, and where a read shows a
success, `dm_csrs` has taken exactly the requests of the earlier tasks before it, and the data are
its answer.
-/

set_option autoImplicit false
set_option relaxedAutoImplicit false

namespace RiscvDebug.DmiJtag

open Foundations DmiJtagTap

/-- What a Capture-DR loads when there is no error but busy: a success, or busy, and then there is
an error after it. -/
theorem captured_cases (idcodeValue : BitVec 32) {r : Regs} {i : Inputs} (htrst : i.trst = false)
    (hcaptures : r.capturesDmi = true) (herror : r.error = .noError ∨ r.error = .busy) :
    r.error = .noError ∧ (Dmi.ofBits (next r i idcodeValue).dr).op = DmiError.noError.bits ∨
      (next r i idcodeValue).error ≠ .noError ∧
        (Dmi.ofBits (next r i idcodeValue).dr).op = DmiError.busy.bits := by
  have hclear := dmiClear_of_capturesDmi hcaptures
  have hkept : r.clearsError = false := by
    rw [Regs.clearsError, Regs.updatesDtmcs, dtmcsSelect_of_dmiSelect
      (Bool.and_eq_true_iff.mp hcaptures).2]
    rfl
  have hflag : errorDmiBusy r i = (fsm r i).errorDmiBusy := by
    rw [errorDmiBusy, hclear]
    rfl
  rw [next_dr idcodeValue htrst, drNext_of_captures hcaptures]
  rcases herror with hnone | hbusy
  · cases hraised : errorDmiBusy r i with
    | false => exact Or.inl ⟨hnone, by rw [if_pos ⟨hnone, rfl⟩, op_bits]⟩
    | true =>
      rw [hflag] at hraised
      refine Or.inr ⟨?_, by rw [if_neg (by simp), if_pos (Or.inr rfl), op_bits]⟩
      have hnotUpdate : r.tap.updateDr = false := by
        rw [DmiJtagTap.Regs.updateDr, eq_of_beq (Bool.and_eq_true_iff.mp hcaptures).1]
        rfl
      rw [next_error idcodeValue htrst, errorNext, hclear, hraised, hnone, hnotUpdate]
      cases (fsm r i).errorDmiOpFailed <;> exact fun heq ↦ DmiError.noConfusion heq
  · have hsticky : r.error ≠ .noError := by
      rw [hbusy]
      decide
    refine Or.inr ⟨?_, by rw [if_neg fun hboth ↦ hsticky hboth.1, if_pos (Or.inl hbusy), op_bits]⟩
    rw [error_of_sticky idcodeValue (Bool.or_eq_false_iff.mpr ⟨htrst, hclear⟩) hkept hsticky]
    exact hsticky

end RiscvDebug.DmiJtag

namespace RiscvDebug.DmiLink

open Foundations DmiJtag DmiJtagTap JtagTest
open DmTop (oneHart)

variable {cfg : Config}

/-! ### Tasks -/

/-- The tasks of a host that reach the register `dmi`. -/
inductive Task
  | writeDmi (address : BitVec 8) (data : BitVec 32)
  | readDmi (address : BitVec 8) (waitCycles : ℕ)
  | waitIdle (cycles : ℕ)
deriving DecidableEq, Repr

namespace Task

def perform : Task → Driver → Driver
  | .writeDmi address data => Driver.writeDmi address data
  | .readDmi address waitCycles => Driver.readDmi address waitCycles
  | .waitIdle cycles => Driver.waitIdle cycles

/-- The requests that a task asks for. -/
def requests : Task → List DmiReq
  | .writeDmi address data => [⟨address.setWidth 7, dtmWrite, data⟩]
  | .readDmi address _ => [⟨address.setWidth 7, dtmRead, 0⟩]
  | .waitIdle _ => []

end Task

def performAll (tasks : List Task) (driver : Driver) : Driver :=
  tasks.foldl (fun driver task ↦ task.perform driver) driver

def requestsOf (tasks : List Task) : List DmiReq := tasks.flatMap Task.requests

/-! ### Attempts -/

section Attempts

variable (idcodeValue : BitVec 32) (start : Link cfg) (events : ℕ → Event cfg)

/-- The request of an Update-DR, whether the module accepts it or drops it. -/
def attempted (link : Link cfg) : Event cfg → List DmiReq
  | .tck _ _ _ => if operates link.jtag then [link.jtag.scanned] else []
  | .clk _ _ _ => []

def attemptedAt (time : ℕ) : List DmiReq :=
  attempted (run idcodeValue start events time) (events time)

/-- Tasks have been performed between two times: they have cleared nothing, and their Update-DR
states have found their requests in the register `dmi`. -/
structure Performed (first last : ℕ) (requests : List DmiReq) : Prop where
  order : first ≤ last
  calm : ∀ time, first ≤ time → time ≤ last → Calm (run idcodeValue start events time)
  attempted : history (attemptedAt idcodeValue start events) last =
    history (attemptedAt idcodeValue start events) first ++ requests

/-- What the driver knows of the TAP between its tasks. -/
structure Knows (driver : Driver) (tap : DmiJtagTap.Regs) : Prop where
  tms : driver.tms = false
  state : tap.tapState = .runTestIdle
  ir : tap.ir = driver.irSelect

end Attempts

section Tasks

variable {idcodeValue : BitVec 32} {start : Link cfg} {events : ℕ → Event cfg}
  {first middle last : ℕ} {requests more : List DmiReq}

theorem Performed.trans (hfirst : Performed idcodeValue start events first middle requests)
    (hlast : Performed idcodeValue start events middle last more) :
    Performed idcodeValue start events first last (requests ++ more) where
  order := hfirst.order.trans hlast.order
  calm := fun time hafter hbefore ↦ by
    rcases Nat.le_total time middle with hle | hge
    · exact hfirst.calm time hafter hle
    · exact hlast.calm time hge hbefore
  attempted := by rw [hlast.attempted, hfirst.attempted, List.append_assoc]

theorem attemptedAt_of_silent {time : ℕ} (hsilent : Silent idcodeValue start events time) :
    attemptedAt idcodeValue start events time = [] := by
  unfold attemptedAt attempted
  cases hevent : events time with
  | clk environment gives takes => rfl
  | tck pins takes gives =>
    have hstate := (hsilent pins takes gives hevent).2.2
    simp [operates, Regs.updatesDmi, DmiJtagTap.Regs.updateDr, hstate]

/-- Edges that stay clear of the strobes attempt nothing. -/
theorem Drives.performed_nil {edges : List DmiJtagTap.Inputs}
    (hdrives : Drives events first last edges)
    (hpasses :
      Passes stateStep IsQuiet (run idcodeValue start events first).jtag.tap.tapState edges)
    (hend : (run idcodeValue start events last).jtag.tap.tapState = .runTestIdle) :
    Performed idcodeValue start events first last [] where
  order := hdrives.1
  calm := fun time hafter hbefore ↦ by
    have hquiet : IsQuiet (run idcodeValue start events time).jtag.tap.tapState :=
      hdrives.holds hpasses (by rw [hend]; decide) hafter hbefore
    exact calm_of_tap hquiet.1 (Or.inl hquiet.2.2)
  attempted := by
    have hnone : ∀ time, first ≤ time → time < last →
        attemptedAt idcodeValue start events time = [] :=
      fun time hafter hbefore ↦ attemptedAt_of_silent fun pins takes gives hevent ↦
        hdrives.passes hpasses hafter hbefore hevent
    rw [List.append_nil]
    exact history_of_none hdrives.1 hnone

/-- The request of a word, if that is a read or a write. -/
def requestOf (word : BitVec 41) : List DmiReq :=
  let dmi := Dmi.ofBits word
  if dmi.op = dtmRead ∨ dmi.op = dtmWrite then [⟨dmi.address, dmi.op, dmi.data⟩] else []

theorem requestOf_writeDataPacked (address : BitVec 7) (data : BitVec 32) (op : BitVec 2) :
    requestOf (writeDataPacked address data op) =
      if op = dtmRead ∨ op = dtmWrite then [⟨address, op, data⟩] else [] := by
  rw [requestOf, ofBits_writeDataPacked]

/-- A scan attempts the request of its word in its Update-DR, and nothing else. -/
theorem Scans.attempts {word : BitVec 41} {capture update : ℕ}
    (hscans : Scans idcodeValue start events first last word capture update) :
    attemptedAt idcodeValue start events update = requestOf word ∧
      ∀ time, first ≤ time → time < last → time ≠ update →
        attemptedAt idcodeValue start events time = [] := by
  constructor
  · obtain ⟨⟨pins, takes, gives, hevent⟩, hupdates⟩ := hscans.updates
    rw [attemptedAt, hevent, attempted, operates, hupdates, Regs.scanned, hscans.held]
    simp [requestOf]
  · intro time hafter hbefore hne
    by_cases hcapture : time = capture
    · have hcaptures := hscans.captures
      rw [← hcapture] at hcaptures
      unfold attemptedAt attempted
      cases hkind : events time with
      | clk environment gives takes => rfl
      | tck pins takes gives =>
        rw [hkind] at hcaptures
        have hstate : (run idcodeValue start events time).jtag.tap.tapState = .captureDr :=
          eq_of_beq (Bool.and_eq_true_iff.mp hcaptures).1
        simp [operates, Regs.updatesDmi, DmiJtagTap.Regs.updateDr, hstate]
    · exact attemptedAt_of_silent (hscans.silent time hafter hbefore hcapture hne)

theorem Scans.performed {word : BitVec 41} {capture update : ℕ}
    (hscans : Scans idcodeValue start events first last word capture update) :
    Performed idcodeValue start events first last (requestOf word) where
  order := hscans.order.1.trans (hscans.order.2.1.trans hscans.order.2.2).le
  calm := hscans.calm
  attempted := by
    obtain ⟨hfirst, hupdate, hlast⟩ := hscans.order
    obtain ⟨hattempted, hnone⟩ := hscans.attempts
    rw [history_of_single (hfirst.trans hupdate.le) hlast hnone, hattempted]

/-! ### One task -/

theorem Drives.selects {driver : Driver} {edges : List DmiJtagTap.Inputs}
    (hdrives : Drives events first last edges)
    (hknows : Knows driver (run idcodeValue start events first).jtag.tap)
    (hselects : Driver.Selects driver.irSelect dmiAccess edges) :
    Performed idcodeValue start events first last [] ∧
      (run idcodeValue start events last).jtag.tap.tapState = .runTestIdle ∧
        (run idcodeValue start events last).jtag.tap.ir = dmiAccess := by
  obtain ⟨hquiet, hstate, hir⟩ := after_selects idcodeValue hselects hknows.state hknows.ir
  rw [← hdrives.tap] at hstate hir
  exact ⟨hdrives.performed_nil (hknows.state ▸ hquiet) hstate, hstate, hir⟩

theorem Drives.waits {cycles : ℕ} {tdi : Bool}
    (hdrives : Drives events first last (List.replicate cycles ⟨false, tdi⟩))
    (hstate : (run idcodeValue start events first).jtag.tap.tapState = .runTestIdle) :
    Performed idcodeValue start events first last [] ∧
      (run idcodeValue start events last).jtag.tap.tapState = .runTestIdle ∧
        (run idcodeValue start events last).jtag.tap.ir =
          (run idcodeValue start events first).jtag.tap.ir := by
  obtain ⟨hwaits, hends⟩ := waiting_states cycles tdi
  have hlast : (run idcodeValue start events last).jtag.tap.tapState = .runTestIdle := by
    rw [hdrives.tapState, hstate, hends]
  have hquiet : Passes stateStep IsQuiet .runTestIdle (List.replicate cycles ⟨false, tdi⟩) :=
    hwaits.mono fun state heq ↦ heq ▸ by decide
  have hkeeps : Passes stateStep KeepsIr .runTestIdle (List.replicate cycles ⟨false, tdi⟩) :=
    hwaits.mono fun state heq ↦ heq ▸ by decide
  exact ⟨hdrives.performed_nil (hstate ▸ hquiet) hlast, hlast,
    hdrives.ir_eq (hstate ▸ hkeeps) hdrives.1 le_rfl⟩

/-- A write attempts its request. -/
theorem Drives.writeDmi {driver : Driver} {edges : List DmiJtagTap.Inputs} {address : BitVec 8}
    {data : BitVec 32} (hdrives : Drives events first last edges)
    (hknows : Knows driver (run idcodeValue start events first).jtag.tap)
    (hedges : (Driver.writeDmi address data driver).edges = driver.edges ++ edges) :
    Performed idcodeValue start events first last (Task.writeDmi address data).requests ∧
      Knows (Driver.writeDmi address data driver)
        (run idcodeValue start events last).jtag.tap := by
  obtain ⟨selecting, idle, final, hwritten, hselects⟩ :=
    Driver.writeDmi_eq address data hknows.tms
  rw [hwritten] at hedges ⊢
  rw [← List.append_cancel_left hedges] at hdrives
  obtain ⟨middle, hselecting, hscan⟩ := hdrives.append
  obtain ⟨hperformed, hstate, hir⟩ := hselecting.selects hknows hselects
  obtain ⟨capture, update, hscans⟩ := hscan.scans _ hstate hir
  have hattempted := hscans.performed
  rw [requestOf_writeDataPacked, if_pos (Or.inr rfl)] at hattempted
  exact ⟨hperformed.trans hattempted, hknows.tms, hscans.tap.1, hscans.tap.2⟩

/-- A read: the Update-DR that attempts its request, and the Capture-DR of its second scan, which is
the first one after it and whose word the driver samples. -/
structure Reads (idcodeValue : BitVec 32) (start : Link cfg) (events : ℕ → Event cfg)
    (first last : ℕ) (request : DmiReq) (position scan capture : ℕ) : Prop where
  order : first ≤ scan ∧ scan < capture ∧ capture < last
  attempted : attemptedAt idcodeValue start events scan = [request]
  earlier : history (attemptedAt idcodeValue start events) scan =
    history (attemptedAt idcodeValue start events) first
  captures : captures (run idcodeValue start events capture) (events capture) = true
  between : ∀ time, scan < time → time < capture →
    DmiLink.captures (run idcodeValue start events time) (events time) = false
  shown : ∃ before after, before.length = position ∧
    history (shownAt idcodeValue start events) last =
      history (shownAt idcodeValue start events) first ++
        (before ++ bitsOf (run idcodeValue start events (capture + 1)).jtag.dr ++ after)

theorem captures_of_silent {time : ℕ} (hsilent : Silent idcodeValue start events time) :
    captures (run idcodeValue start events time) (events time) = false := by
  cases hevent : events time with
  | clk environment gives takes => rfl
  | tck pins takes gives =>
    have hstate := (hsilent pins takes gives hevent).2.1
    simp [captures, Regs.capturesDmi, DmiJtagTap.Regs.captureDr, hstate]

/-- A read attempts its request, and samples the word that its second scan captures. -/
theorem Drives.readDmi {driver : Driver} {edges : List DmiJtagTap.Inputs} {address : BitVec 8}
    {waitCycles : ℕ} (hdrives : Drives events first last edges)
    (hknows : Knows driver (run idcodeValue start events first).jtag.tap)
    (hedges : (Driver.readDmi address waitCycles driver).edges = driver.edges ++ edges) :
    Performed idcodeValue start events first last (Task.readDmi address waitCycles).requests ∧
      Knows (Driver.readDmi address waitCycles driver)
        (run idcodeValue start events last).jtag.tap ∧
      ∃ position scan capture,
        Reads idcodeValue start events first last ⟨address.setWidth 7, dtmRead, 0⟩ position scan
          capture ∧
        (Driver.readDmi address waitCycles driver).samples =
          (List.range 41).map fun index ↦ driver.edges.length + position + index := by
  obtain ⟨selecting, idle, tdi, final, before, hbefore, hread, hselects⟩ :=
    Driver.readDmi_eq address waitCycles hknows.tms
  rw [hread] at hedges ⊢
  rw [← List.append_cancel_left hedges] at hdrives
  obtain ⟨waited, hall, hsecondScan⟩ := hdrives.append
  obtain ⟨before', hlength, hshownBefore⟩ := hall.length_shown idcodeValue start
  rw [hbefore] at hall
  obtain ⟨scanned, hboth, hwaiting⟩ := hall.append
  obtain ⟨selected, hselecting, hfirstScan⟩ := hboth.append
  -- The read, the wait and the NOP, one after the other.
  obtain ⟨hnone, hstate, hir⟩ := hselecting.selects hknows hselects
  obtain ⟨capture, scan, hscans⟩ := hfirstScan.scans _ hstate hir
  obtain ⟨hstill, hstateWaited, hirWaited⟩ := hwaiting.waits hscans.tap.1
  obtain ⟨capture', update, hscans'⟩ :=
    hsecondScan.scans _ hstateWaited (hirWaited.trans hscans.tap.2)
  have hfirstPerformed := hscans.performed
  have hsecondPerformed := hscans'.performed
  rw [requestOf_writeDataPacked, if_pos (Or.inl rfl)] at hfirstPerformed
  rw [requestOf_writeDataPacked, if_neg (by decide)] at hsecondPerformed
  have hperformed := ((hnone.trans hfirstPerformed).trans hstill).trans hsecondPerformed
  have horder := hscans.order
  have horder' := hscans'.order
  have hselectedLe := hselecting.1
  have hwaitedLe := hwaiting.1
  obtain ⟨hattempted, hnothing⟩ := hscans.attempts
  rw [requestOf_writeDataPacked, if_pos (Or.inl rfl)] at hattempted
  refine ⟨hperformed, ⟨hknows.tms, hscans'.tap.1, hscans'.tap.2⟩, before.length + 3, scan, capture',
    { order := ⟨by omega, by omega, by omega⟩
      attempted := hattempted
      earlier := ?_
      captures := hscans'.captures
      between := ?_
      shown := ?_ }, ?_⟩
  · rw [history_of_none (by omega) fun time hafter hlt ↦
      hnothing time hafter (by omega) (by omega), hnone.attempted, List.append_nil]
  · intro time hafter hlt
    refine captures_of_silent ?_
    rcases Nat.lt_or_ge time scanned with hearly | hlate
    · exact hscans.silent time (by omega) hearly (by omega) (by omega)
    rcases Nat.lt_or_ge time waited with hearly | hlate'
    · intro pins takes gives hevent
      have hwaits : Passes stateStep IsQuiet
          (run idcodeValue start events scanned).jtag.tap.tapState
          (List.replicate waitCycles ⟨false, tdi⟩) := by
        rw [hscans.tap.1]
        exact (waiting_states waitCycles tdi).1.mono fun state heq ↦ heq ▸ by decide
      exact hwaiting.passes hwaits hlate hearly hevent
    · exact hscans'.silent time hlate' (by omega) (by omega) (by omega)
  · obtain ⟨beforeScan, after, hthree, hshown⟩ := hscans'.shown
    refine ⟨before' ++ beforeScan, after, by rw [List.length_append, hlength, hthree], ?_⟩
    rw [hshown, hshownBefore]
    simp only [List.append_assoc]
  · refine List.map_congr_left fun index _ ↦ ?_
    rw [List.length_append]
    omega

theorem Drives.waitIdle {driver : Driver} {edges : List DmiJtagTap.Inputs} {cycles : ℕ}
    (hdrives : Drives events first last edges)
    (hknows : Knows driver (run idcodeValue start events first).jtag.tap)
    (hedges : (Driver.waitIdle cycles driver).edges = driver.edges ++ edges) :
    Performed idcodeValue start events first last [] ∧
      Knows (Driver.waitIdle cycles driver) (run idcodeValue start events last).jtag.tap := by
  rw [Driver.waitIdle_eq cycles hknows.tms] at hedges ⊢
  rw [← List.append_cancel_left hedges] at hdrives
  obtain ⟨hperformed, hstate, hir⟩ := hdrives.waits hknows.state
  exact ⟨hperformed, hknows.tms, hstate, hir.trans hknows.ir⟩

/-! ### Programs -/

/-- Every task adds edges to those that the driver has made, and leaves TMS low. -/
theorem Task.exists_edges {driver : Driver} (hidle : driver.tms = false) (task : Task) :
    (task.perform driver).tms = false ∧
      ∃ edges, (task.perform driver).edges = driver.edges ++ edges := by
  cases task with
  | writeDmi address data =>
    obtain ⟨selecting, idle, final, hwritten, -⟩ := Driver.writeDmi_eq address data hidle
    exact ⟨(congrArg Driver.tms hwritten).trans hidle, _, congrArg Driver.edges hwritten⟩
  | readDmi address waitCycles =>
    obtain ⟨selecting, idle, tdi, final, before, -, hread, -⟩ :=
      Driver.readDmi_eq address waitCycles hidle
    exact ⟨(congrArg Driver.tms hread).trans hidle, _, congrArg Driver.edges hread⟩
  | waitIdle cycles =>
    have hwaited := Driver.waitIdle_eq cycles hidle
    exact ⟨(congrArg Driver.tms hwaited).trans hidle, _, congrArg Driver.edges hwaited⟩

theorem performAll_tms {driver : Driver} (hidle : driver.tms = false) (tasks : List Task) :
    (performAll tasks driver).tms = false := by
  induction tasks generalizing driver with
  | nil => exact hidle
  | cons task tasks ih => exact ih (task.exists_edges hidle).1

theorem exists_edges_performAll {driver : Driver} (hidle : driver.tms = false)
    (tasks : List Task) :
    ∃ edges, (performAll tasks driver).edges = driver.edges ++ edges := by
  induction tasks generalizing driver with
  | nil => exact ⟨[], (List.append_nil _).symm⟩
  | cons task tasks ih =>
    obtain ⟨hafter, first, hfirst⟩ := task.exists_edges hidle
    obtain ⟨rest, hrest⟩ := ih hafter
    exact ⟨first ++ rest, hrest.trans (by rw [hfirst, List.append_assoc])⟩

/-- A task attempts its requests, and the driver knows the TAP afterwards. -/
theorem Drives.task {driver : Driver} {edges : List DmiJtagTap.Inputs} {task : Task}
    (hdrives : Drives events first last edges)
    (hknows : Knows driver (run idcodeValue start events first).jtag.tap)
    (hedges : (task.perform driver).edges = driver.edges ++ edges) :
    Performed idcodeValue start events first last task.requests ∧
      Knows (task.perform driver) (run idcodeValue start events last).jtag.tap := by
  cases task with
  | writeDmi address data => exact hdrives.writeDmi hknows hedges
  | readDmi address waitCycles =>
    obtain ⟨hperformed, hafter, -⟩ := hdrives.readDmi hknows hedges
    exact ⟨hperformed, hafter⟩
  | waitIdle cycles => exact hdrives.waitIdle hknows hedges

theorem performAll_append (tasks more : List Task) (driver : Driver) :
    performAll (tasks ++ more) driver = performAll more (performAll tasks driver) :=
  List.foldl_append

/-- A program attempts its requests in their order. -/
theorem Drives.program {driver : Driver} {tasks : List Task} {edges : List DmiJtagTap.Inputs}
    (hdrives : Drives events first last edges)
    (hknows : Knows driver (run idcodeValue start events first).jtag.tap)
    (hedges : (performAll tasks driver).edges = driver.edges ++ edges) :
    Performed idcodeValue start events first last (requestsOf tasks) ∧
      Knows (performAll tasks driver) (run idcodeValue start events last).jtag.tap := by
  induction tasks generalizing driver first edges with
  | nil =>
    obtain rfl : edges = [] := List.append_cancel_left (hedges.symm.trans (List.append_nil _).symm)
    have hjtag := (hdrives.kept idcodeValue start).1
    exact ⟨hdrives.performed_nil trivial (hjtag ▸ hknows.state), hjtag ▸ hknows⟩
  | cons task tasks ih =>
    obtain ⟨hafter, firstEdges, hfirst⟩ := task.exists_edges hknows.tms
    obtain ⟨rest, hrest⟩ := exists_edges_performAll hafter tasks
    have hsplit : edges = firstEdges ++ rest := by
      have hall : driver.edges ++ edges = driver.edges ++ (firstEdges ++ rest) := by
        rw [← hedges, ← List.append_assoc, ← hfirst, ← hrest]
        rfl
      exact List.append_cancel_left hall
    rw [hsplit] at hdrives
    obtain ⟨middle, hone, hmore⟩ := hdrives.append
    obtain ⟨hperformed, hbetween⟩ := hone.task hknows hfirst
    obtain ⟨hlater, hdone⟩ := ih hmore hbetween hrest
    exact ⟨hperformed.trans hlater, hdone⟩

end Tasks

/-! ### Errors of a run without a clear -/

section Errors

variable {idcodeValue : BitVec 32} {start : Link cfg} {events : ℕ → Event cfg} {time : ℕ}

/-- A response on its way reports a success or that the debug module is busy. -/
def Stage.Honest : Stage → Prop
  | .queued _ response | .returned _ response =>
    response.resp = dtmSuccess ∨ response.resp = dtmBusy
  | _ => True

variable (hidle : At start .idle) (hclear : NoClear idcodeValue start events)

omit hidle hclear in
theorem stages_honest (time : ℕ) : (stages idcodeValue start events time).Honest := by
  induction time with
  | zero => trivial
  | succ time ih =>
    rw [stages_succ]
    cases hstage : stages idcodeValue start events time with
    | idle =>
      cases hevent : events time with
      | clk environment gives takes => trivial
      | tck pins takes gives =>
        rw [Stage.next]
        split <;> trivial
    | offered request =>
      cases hevent : events time with
      | clk environment gives takes => trivial
      | tck pins takes gives => cases takes <;> trivial
    | sent request =>
      cases hevent : events time with
      | tck pins takes gives => trivial
      | clk environment gives takes =>
        cases gives with
        | false => trivial
        | true =>
          have hanswer := answerAt_resp idcodeValue start events time
          rw [answerAt, hevent] at hanswer
          exact hanswer
    | queued request response =>
      rw [hstage] at ih
      cases hevent : events time with
      | tck pins takes gives => exact ih
      | clk environment gives takes => cases takes <;> exact ih
    | returned request response =>
      rw [hstage] at ih
      cases hevent : events time with
      | clk environment gives takes => exact ih
      | tck pins takes gives =>
        cases gives with
        | false => exact ih
        | true => trivial

include hidle hclear

/-- The only error is that of a busy debug module. -/
theorem error_run (hnone : start.jtag.error = .noError) (time : ℕ) :
    (run idcodeValue start events time).jtag.error = .noError ∨
      (run idcodeValue start events time).jtag.error = .busy := by
  induction time with
  | zero => exact Or.inl hnone
  | succ time ih =>
    cases hevent : events time with
    | clk environment gives takes =>
      rw [jtag_succ_clk hevent]
      exact ih
    | tck pins takes gives =>
      have hresets : resets (run idcodeValue start events time).jtag
          (jtagInputs (run idcodeValue start events time) pins takes gives) = false := hclear time
      have hfailed : answersFailed (run idcodeValue start events time).jtag
          (jtagInputs (run idcodeValue start events time) pins takes gives) = false := by
        rw [Bool.eq_false_iff]
        intro hfailed
        obtain ⟨hanswers, hstatus⟩ := Bool.and_eq_true_iff.mp hfailed
        obtain ⟨request, response, hstage, -, hresponse⟩ :=
          (stage_run hidle hclear time).answers_eq pins takes gives hanswers
        have hhonest : (Stage.returned request response).Honest := hstage ▸ stages_honest time
        rw [Stage.Honest, ← hresponse, eq_of_beq hstatus] at hhonest
        revert hhonest
        decide
      rw [jtag_succ_tck hevent]
      exact error_next_mem idcodeValue hresets hfailed ih

omit hidle in
/-- An error sticks as long as nothing clears it. -/
theorem error_sticks {later : ℕ} (hle : time ≤ later)
    (hcalm : ∀ moment, time ≤ moment → moment < later → Calm (run idcodeValue start events moment))
    (herror : (run idcodeValue start events time).jtag.error ≠ .noError) :
    (run idcodeValue start events later).jtag.error ≠ .noError := by
  induction later, hle using Nat.le_induction with
  | base => exact herror
  | succ later hle ih =>
    have hstuck := ih fun moment hafter hbefore ↦ hcalm moment hafter (by omega)
    cases hevent : events later with
    | clk environment gives takes =>
      rw [jtag_succ_clk hevent]
      exact hstuck
    | tck pins takes gives =>
      have hresets : resets (run idcodeValue start events later).jtag
          (jtagInputs (run idcodeValue start events later) pins takes gives) = false := hclear later
      rw [jtag_succ_tck hevent, error_of_sticky idcodeValue hresets
        (hcalm later hle (Nat.lt_succ_self later)).2 hstuck]
      exact hstuck

omit hidle hclear in
/-- What is issued is what is attempted, or nothing. -/
theorem issuedAt_sublist (time : ℕ) :
    (issuedAt idcodeValue start events time).Sublist
      (attemptedAt idcodeValue start events time) := by
  unfold issuedAt attemptedAt
  cases events time with
  | clk environment gives takes => exact List.Sublist.refl _
  | tck pins takes gives =>
    rw [issued, attempted]
    cases operates (run idcodeValue start events time).jtag with
    | false => exact List.Sublist.refl _
    | true =>
      rw [Bool.true_and, if_pos rfl]
      split_ifs
      · exact List.Sublist.refl _
      · exact List.nil_sublist _

omit hidle hclear in
/-- A dropped attempt leaves an error. -/
theorem issuedAt_eq (hnone : (run idcodeValue start events (time + 1)).jtag.error = .noError) :
    issuedAt idcodeValue start events time = attemptedAt idcodeValue start events time := by
  unfold issuedAt attemptedAt
  cases hevent : events time with
  | clk environment gives takes => rfl
  | tck pins takes gives =>
    rw [jtag_succ_tck hevent] at hnone
    rw [issued_tck, attempted]
    cases hoperates : operates (run idcodeValue start events time).jtag with
    | false =>
      rw [if_neg fun hstarts ↦
        Bool.false_ne_true (hoperates.symm.trans (starts_iff.mp hstarts).2.2.2)]
      rfl
    | true =>
      have hstarts : starts (run idcodeValue start events time).jtag
          (jtagInputs (run idcodeValue start events time) pins takes gives) = true := by
        by_contra hdropped
        exact error_of_dropped idcodeValue rfl hoperates
          (Bool.eq_false_of_not_eq_true hdropped) hnone
      rw [hstarts]

omit hidle hclear in
/-- A Capture-DR shows a success, or an error that is there after it. -/
theorem loaded_cases (hcaptures : captures (run idcodeValue start events time) (events time) = true)
    (herror : (run idcodeValue start events time).jtag.error = .noError ∨
      (run idcodeValue start events time).jtag.error = .busy) :
    (run idcodeValue start events time).jtag.error = .noError ∧
        (loaded idcodeValue start events time).op = DmiError.noError.bits ∨
      (run idcodeValue start events (time + 1)).jtag.error ≠ .noError ∧
        (loaded idcodeValue start events time).op = DmiError.busy.bits := by
  unfold loaded
  cases hevent : events time with
  | clk environment gives takes =>
    rw [hevent] at hcaptures
    exact absurd hcaptures Bool.false_ne_true
  | tck pins takes gives =>
    rw [hevent] at hcaptures
    rw [jtag_succ_tck hevent]
    exact captured_cases idcodeValue rfl hcaptures herror

omit hidle hclear in
/-- As long as there is no error, everything that is attempted is issued. -/
theorem history_issuedAt_eq {last : ℕ}
    (hnone : ∀ time, time ≤ last → (run idcodeValue start events time).jtag.error = .noError) :
    history (issuedAt idcodeValue start events) last =
      history (attemptedAt idcodeValue start events) last := by
  induction last with
  | zero => rfl
  | succ last ih =>
    rw [history_succ, history_succ, ih fun time hle ↦ hnone time (by omega),
      issuedAt_eq (hnone (last + 1) le_rfl)]

end Errors

/-! ### Whole programs -/

/-- The driver performs a program: by `last` it has made the edges of its tasks, and it makes no
other ones. -/
structure Performs (events : ℕ → Event cfg) (last : ℕ) (driver : Driver) (tasks : List Task) :
    Prop where
  fresh : driver.edges = []
  edges : history (pinsAt events) last = (performAll tasks driver).edges
  rest : ∀ time, last ≤ time → pinsAt events time = []

/-- The word that a read at a place of the program samples. -/
def sampled (idcodeValue : BitVec 32) (start : Link cfg) (events : ℕ → Event cfg) (last : ℕ)
    (driver : Driver) (earlier : List Task) (address : BitVec 8) (waitCycles : ℕ) : Dmi :=
  let reader := performAll (earlier ++ [.readDmi address waitCycles]) driver
  Dmi.ofBits (reader.readData 41 (history (shownAt idcodeValue start events) last))

/-- `dm_csrs` follows a program. Its requests arrive in order, all of them if there is no error in
the end. A read shows the busy error, which sticks, or the answer that `dm_csrs` has given to it
after exactly the requests of the earlier tasks. -/
structure Followed (idcodeValue : BitVec 32) (start : Link cfg) (events : ℕ → Event cfg)
    (last : ℕ) (driver : Driver) (tasks : List Task) : Prop where
  delivered : (history (deliveredAt idcodeValue start events) last).Sublist (requestsOf tasks)
  issued : (run idcodeValue start events last).jtag.error = .noError →
    history (issuedAt idcodeValue start events) last = requestsOf tasks
  reads : ∀ earlier address waitCycles later,
    tasks = earlier ++ .readDmi address waitCycles :: later →
      let dmi := sampled idcodeValue start events last driver earlier address waitCycles
      (run idcodeValue start events last).jtag.error = .busy ∧ dmi.op = dtmBusy ∨
        dmi.op = dtmSuccess ∧ ∃ acceptance, acceptance < last ∧
          deliveredAt idcodeValue start events acceptance =
            [⟨address.setWidth 7, dtmRead, 0⟩] ∧
          history (deliveredAt idcodeValue start events) acceptance = requestsOf earlier ∧
          answerAt idcodeValue start events acceptance = ⟨dmi.data, dtmSuccess⟩

section Programs

variable {idcodeValue : BitVec 32} {start : Link cfg} {events : ℕ → Event cfg} {last : ℕ}
  {driver : Driver} {tasks : List Task}

/-- The driver reads the word that TDO shows while it samples. -/
theorem readData_eq {width : ℕ} {word : BitVec width} {before after : List Bool}
    (hsamples : driver.samples = (List.range width).map fun index ↦ before.length + index) :
    driver.readData width (before ++ (bitsOf word ++ after)) = word := by
  apply BitVec.eq_of_getLsbD_eq
  intro index hindex
  have hbit : (before ++ (bitsOf word ++ after)).getD (before.length + index) false =
      word.getLsbD index := by
    rw [List.getD_append_right _ _ _ _ (Nat.le_add_right _ _), Nat.add_sub_cancel_left,
      List.getD_append _ _ _ _ (by rwa [length_bitsOf])]
    simp [bitsOf, hindex]
  rw [Driver.readData, getLsbD_packBits, decide_eq_true hindex, Bool.and_true, hsamples,
    List.map_map, ← hbit]
  simp [List.getD_eq_getElem?_getD, hindex]

variable (idcodeValue) in
theorem Performs.noClear (hknows : Knows driver start.jtag.tap)
    (hperforms : Performs events last driver tasks) :
    Performed idcodeValue start events 0 last (requestsOf tasks) ∧
      NoClear idcodeValue start events := by
  have hdrives : Drives events 0 last (performAll tasks driver).edges :=
    ⟨Nat.zero_le last, hperforms.edges⟩
  obtain ⟨hperformed, -⟩ := hdrives.program hknows (by rw [hperforms.fresh]; rfl)
  refine ⟨hperformed, fun time ↦ ?_⟩
  rcases Nat.le_total time last with hle | hge
  · exact (hperformed.calm time (Nat.zero_le time) hle).1
  · have hkept : Drives events last time [] := by
      refine ⟨hge, ?_⟩
      rw [List.append_nil]
      exact history_of_none hge fun moment hafter _ ↦ hperforms.rest moment hafter
    rw [(hkept.kept idcodeValue start).1]
    exact (hperformed.calm last (Nat.zero_le last) le_rfl).1

variable (idcodeValue) in
/-- What a read samples is what its second scan has captured. -/
theorem sampled_eq {earlier later : List Task} {address : BitVec 8} {waitCycles : ℕ}
    (hknows : Knows driver start.jtag.tap) (hperforms : Performs events last driver tasks)
    (htasks : tasks = earlier ++ .readDmi address waitCycles :: later) :
    ∃ first middle position scan capture,
      Performed idcodeValue start events 0 first (requestsOf earlier) ∧ middle ≤ last ∧
        Reads idcodeValue start events first middle ⟨address.setWidth 7, dtmRead, 0⟩ position scan
          capture ∧
        sampled idcodeValue start events last driver earlier address waitCycles =
          loaded idcodeValue start events capture := by
  have hdrives : Drives events 0 last (performAll tasks driver).edges :=
    ⟨Nat.zero_le last, hperforms.edges⟩
  have hfresh (program : List Task) :
      (performAll program driver).edges = driver.edges ++ (performAll program driver).edges := by
    rw [hperforms.fresh]
    rfl
  -- The edges of the three parts of the program.
  have hearlierTms : (performAll earlier driver).tms = false :=
    performAll_tms hknows.tms earlier
  have hreaderEq : performAll (earlier ++ [.readDmi address waitCycles]) driver =
      Driver.readDmi address waitCycles (performAll earlier driver) :=
    performAll_append earlier _ driver
  obtain ⟨-, reading, hreading⟩ := (Task.readDmi address waitCycles).exists_edges hearlierTms
  have hreaderTms : (Driver.readDmi address waitCycles (performAll earlier driver)).tms = false :=
    ((Task.readDmi address waitCycles).exists_edges hearlierTms).1
  obtain ⟨rest, hrest⟩ := exists_edges_performAll hreaderTms later
  have hsplit : (performAll tasks driver).edges =
      (performAll earlier driver).edges ++ (reading ++ rest) := by
    rw [htasks, performAll_append, ← List.append_assoc, ← hreading]
    exact hrest
  rw [hsplit] at hdrives
  obtain ⟨first, hbefore, hafter⟩ := hdrives.append
  obtain ⟨middle, hread, hlater⟩ := hafter.append
  obtain ⟨hperformed, hknowsReader⟩ := hbefore.program hknows (hfresh earlier)
  obtain ⟨-, -, position, scan, capture, hreads, hsamples⟩ := hread.readDmi hknowsReader hreading
  refine ⟨first, middle, position, scan, capture, hperformed, hlater.1, hreads, ?_⟩
  -- The samples fall on the bits that the second scan has captured.
  obtain ⟨shownFirst, hlengthFirst, hshownFirst⟩ := hbefore.length_shown idcodeValue start
  obtain ⟨beforeScan, afterScan, hlengthScan, hshownScan⟩ := hreads.shown
  obtain ⟨shownRest, hshownRest⟩ := history_le (shownAt idcodeValue start events) hlater.1
  have hshown : history (shownAt idcodeValue start events) last =
      (shownFirst ++ beforeScan) ++
        (bitsOf (run idcodeValue start events (capture + 1)).jtag.dr ++
          (afterScan ++ shownRest)) := by
    rw [← hshownRest, hshownScan, hshownFirst]
    simp [history]
  rw [sampled, hreaderEq, hshown, loaded]
  refine congrArg Dmi.ofBits (readData_eq ?_)
  rw [hsamples, List.length_append, hlengthFirst, hlengthScan]

/-- `dm_csrs` follows the program of a driver, whatever the clocks and the channels do. -/
theorem followed (hidle : At start .idle) (hnone : start.jtag.error = .noError)
    (hknows : Knows driver start.jtag.tap) (hperforms : Performs events last driver tasks) :
    Followed idcodeValue start events last driver tasks := by
  obtain ⟨hperformed, hclear⟩ := hperforms.noClear idcodeValue hknows
  have hattempted : history (attemptedAt idcodeValue start events) last = requestsOf tasks :=
    hperformed.attempted
  have hdelivered {time : ℕ} : history (deliveredAt idcodeValue start events) time <+:
      history (issuedAt idcodeValue start events) time :=
    issued_eq hidle hclear time ▸ List.prefix_append _ _
  have herrors {time later : ℕ} (hle : time ≤ later) (hlater : later ≤ last)
      (hfree : (run idcodeValue start events later).jtag.error = .noError) :
      (run idcodeValue start events time).jtag.error = .noError := by
    by_contra herror
    exact error_sticks hclear hle (fun moment _ hbefore ↦
      hperformed.calm moment (Nat.zero_le moment) (by omega)) herror hfree
  refine ⟨?_, fun hfree ↦ ?_, fun earlier address waitCycles later htasks ↦ ?_⟩
  · rw [← hattempted]
    exact hdelivered.sublist.trans (history_sublist issuedAt_sublist last)
  · rw [history_issuedAt_eq fun time hle ↦ herrors hle le_rfl hfree, hattempted]
  obtain ⟨first, middle, position, scan, capture, hearlier, hmiddle, hreads, hsampled⟩ :=
    sampled_eq idcodeValue hknows hperforms htasks
  have horder := hreads.order
  intro dmi
  rw [show dmi = loaded idcodeValue start events capture from hsampled]
  rcases loaded_cases hreads.captures (error_run hidle hclear hnone capture) with
    ⟨hfree, hop⟩ | ⟨herror, hop⟩
  · right
    -- Without an error at the capture nothing has been dropped before it.
    have hissued {time : ℕ} (hlt : time < capture) :
        issuedAt idcodeValue start events time = attemptedAt idcodeValue start events time :=
      issuedAt_eq (herrors hlt (by omega) hfree)
    have hfirst : FirstCapture idcodeValue start events scan capture
        ⟨address.setWidth 7, dtmRead, 0⟩ :=
      ⟨(hissued horder.2.1).trans hreads.attempted, rfl, horder.2.1, hreads.captures,
        hreads.between⟩
    have hrequests : history (issuedAt idcodeValue start events) scan = requestsOf earlier := by
      rw [history_issuedAt_eq fun time hle ↦
          herrors (show time ≤ capture by omega) (by omega) hfree,
        hreads.earlier, hearlier.attempted]
      rfl
    rcases loaded_of_firstCapture hidle hclear hfirst with
      hbusy | ⟨acceptance, haccepted, hlt, -, hcase⟩
    · rw [hop] at hbusy
      exact absurd hbusy (by decide)
    refine ⟨hop, acceptance, by omega, haccepted.delivered, haccepted.earlier.trans hrequests, ?_⟩
    rcases hcase with ⟨hsuccess, hdata⟩ | ⟨-, -, moment, -, hmoment, hclears⟩
    · rw [hdata, ← hsuccess]
    · exfalso
      have hcalm := (hperformed.calm moment (Nat.zero_le moment) (by omega)).2
      cases hevent : events moment with
      | clk environment gives takes =>
        rw [hevent] at hclears
        exact Bool.false_ne_true hclears
      | tck pins takes gives =>
        rw [hevent] at hclears
        exact Bool.false_ne_true (hcalm.symm.trans hclears)
  · left
    refine ⟨(error_run hidle hclear hnone last).resolve_left fun hfree ↦ ?_, hop⟩
    exact herror (herrors (by omega) le_rfl hfree)

end Programs

/-! ### A program -/

/-- A driver after the reset of the JTAG port. -/
def freshDriver : Driver where
  tms := false
  tdi := false
  irSelect := idcode
  edges := []
  samples := []

/-- `Data0` is written and read back. -/
def writeThenRead : List Task := [.writeDmi 4 0xCAFE, .readDmi 4 8]

/-- The core clock runs as fast as TCK, and no command is executing. -/
def writeThenReadEvents (time : ℕ) : Event oneHart :=
  ((performAll writeThenRead freshDriver).edges.flatMap fun pins ↦
    [.tck pins true true, .clk { commandRunning with cmdbusy := false } true true]).getD time
      (.clk { commandRunning with cmdbusy := false } true true)

theorem writeThenRead_performs : Performs writeThenReadEvents 314 freshDriver writeThenRead where
  fresh := rfl
  edges := by decide +kernel
  rest := fun time hle ↦ by
    have hlength : ((performAll writeThenRead freshDriver).edges.flatMap fun pins ↦
        [(.tck pins true true : Event oneHart),
          .clk { commandRunning with cmdbusy := false } true true]).length ≤ 314 := by
      decide +kernel
    rw [pinsAt, writeThenReadEvents, List.getD_eq_default _ _ (hlength.trans hle)]
    rfl

/-- Nothing is dropped, so the read shows the answer after the write. -/
theorem writeThenRead_followed :
    (run 0xdb3 afterReset writeThenReadEvents 314).jtag.error = .noError ∧
      Followed 0xdb3 afterReset writeThenReadEvents 314 freshDriver writeThenRead :=
  ⟨by decide +kernel, followed at_afterReset rfl ⟨rfl, rfl, rfl⟩ writeThenRead_performs⟩

end RiscvDebug.DmiLink
