import RiscvDebug.DebugModule.HartReads

/-!
# The park loop

The debug ROM as an automaton. A hart in debug mode stands at one of a few points of the ROM at
which it accesses the debug memory, and `Step` says what it may do there in one clock cycle: wait,
fetch, or make the access of the point and go on, the flag byte it has read deciding where. Code
that runs from the program buffer, or outside debug mode, is arbitrary but for writes to the
control addresses. `ParkedHarts` schedules any number of harts on the one bus, in any order.
-/

set_option autoImplicit false
set_option relaxedAutoImplicit false

namespace RiscvDebug.Hart

open Foundations DmMem

variable {cfg : Config}

/-! ### A single hart -/

/-- Where a hart stands: in its program, at a point of the ROM, or in the code of a command. -/
inductive Position
  /-- Not in debug mode. -/
  | running
  /-- Before the store to Halted in `entry_loop`. -/
  | entry
  /-- Before the load of the flag byte that is tested for Go. -/
  | pollGo
  /-- Before the load of the flag byte that is tested for Resume. -/
  | pollResume
  /-- Before the store to Going. -/
  | going
  /-- At `whereto`. -/
  | whereTo
  /-- In the generated command or the program buffer. -/
  | executing
  /-- In `_exception`, before the store to Exception. -/
  | exception
  /-- In `_resume`, before the store to Resuming. -/
  | resuming
deriving DecidableEq, Repr

/-- A write to one of the four control addresses. -/
def writesControl (a : SlaveAccess cfg) : Bool :=
  a.writes haltedAddr || a.writes goingAddr || a.writes resumingAddr || a.writes exceptionAddr

/-- What a hart may do in one cycle, with the access it makes if it has the bus, and with the flag
byte that the debug memory returns for it. -/
inductive Step (hart : ℕ) (flag : BitVec 8) :
    Option (SlaveAccess cfg) → Position → Position → Prop
  | pause (position : Position) : Step hart flag none position position
  | halt : Step hart flag none .running .entry
  | program {a : SlaveAccess cfg} (hcontrol : writesControl a = false) :
    Step hart flag (some a) .running .running
  | fetch {a : SlaveAccess cfg} (hreads : a.reads = true) (position : Position) :
    Step hart flag (some a) position position
  | signalHalted {a : SlaveAccess cfg} (hwrites : a.writes haltedAddr = true)
    (hhart : a.wdataHartsel = hart) : Step hart flag (some a) .entry .pollGo
  | seeGo {a : SlaveAccess cfg} (hreads : a.readsByte (flagAddress hart) = true)
    (hflag : flag.getLsbD 0 = true) : Step hart flag (some a) .pollGo .going
  | seeNoGo {a : SlaveAccess cfg} (hreads : a.readsByte (flagAddress hart) = true)
    (hflag : flag.getLsbD 0 = false) : Step hart flag (some a) .pollGo .pollResume
  | seeResume {a : SlaveAccess cfg} (hreads : a.readsByte (flagAddress hart) = true)
    (hflag : flag.getLsbD 1 = true) : Step hart flag (some a) .pollResume .resuming
  | seeNoResume {a : SlaveAccess cfg} (hreads : a.readsByte (flagAddress hart) = true)
    (hflag : flag.getLsbD 1 = false) : Step hart flag (some a) .pollResume .entry
  | signalGoing {a : SlaveAccess cfg} (hwrites : a.writes goingAddr = true) :
    Step hart flag (some a) .going .whereTo
  | fetchWhereTo {a : SlaveAccess cfg} (hreads : a.reads = true)
    (haddress : a.offset = whereToAddr) : Step hart flag (some a) .whereTo .executing
  | execute {a : SlaveAccess cfg} (hcontrol : writesControl a = false) :
    Step hart flag (some a) .executing .executing
  | ebreak : Step hart flag none .executing .entry
  | trap : Step hart flag none .executing .exception
  | signalException {a : SlaveAccess cfg} (hwrites : a.writes exceptionAddr = true) :
    Step hart flag (some a) .exception .entry
  | signalResuming {a : SlaveAccess cfg} (hwrites : a.writes resumingAddr = true)
    (hhart : a.wdataHartsel = hart) : Step hart flag (some a) .resuming .running

theorem offset_of_writes {a : SlaveAccess cfg} {address : BitVec 12}
    (hwrites : a.writes address = true) : a.offset = address :=
  beq_iff_eq.mp (Bool.and_eq_true_iff.mp hwrites).2

theorem not_writesControl_of_reads {a : SlaveAccess cfg} (hreads : a.reads = true) :
    writesControl a = false := by
  simp only [SlaveAccess.reads, Bool.and_eq_true, Bool.not_eq_true'] at hreads
  simp [writesControl, SlaveAccess.writes, hreads.2]

theorem reads_of_readsByte {a : SlaveAccess cfg} {address : ℕ}
    (hreads : a.readsByte address = true) : a.reads = true :=
  (Bool.and_eq_true_iff.mp hreads).1

section Step

variable {hart : ℕ} {flag : BitVec 8} {a : SlaveAccess cfg} {before after : Position}

/-- A write to a control address is the store of one point of the ROM. -/
theorem Step.signal (hstep : Step hart flag (some a) before after)
    (hcontrol : writesControl a = true) :
    (a.offset = haltedAddr ∧ before = .entry ∧ after = .pollGo ∧ a.wdataHartsel = hart) ∨
      (a.offset = goingAddr ∧ before = .going ∧ after = .whereTo) ∨
      (a.offset = exceptionAddr ∧ before = .exception ∧ after = .entry) ∨
      (a.offset = resumingAddr ∧ before = .resuming ∧ after = .running ∧
        a.wdataHartsel = hart) := by
  cases hstep with
  | program hnone | execute hnone =>
    rw [hnone] at hcontrol
    exact absurd hcontrol Bool.false_ne_true
  | fetch hreads | fetchWhereTo hreads =>
    rw [not_writesControl_of_reads hreads] at hcontrol
    exact absurd hcontrol Bool.false_ne_true
  | seeGo hreads | seeNoGo hreads | seeResume hreads | seeNoResume hreads =>
    rw [not_writesControl_of_reads (reads_of_readsByte hreads)] at hcontrol
    exact absurd hcontrol Bool.false_ne_true
  | signalHalted hwrites hhart => exact Or.inl ⟨offset_of_writes hwrites, rfl, rfl, hhart⟩
  | signalGoing hwrites => exact Or.inr (Or.inl ⟨offset_of_writes hwrites, rfl, rfl⟩)
  | signalException hwrites =>
    exact Or.inr (Or.inr (Or.inl ⟨offset_of_writes hwrites, rfl, rfl⟩))
  | signalResuming hwrites hhart =>
    exact Or.inr (Or.inr (Or.inr ⟨offset_of_writes hwrites, rfl, rfl, hhart⟩))

/-- Only a hart that stands before the store to Going writes Going. -/
theorem Step.going_of_writes (hstep : Step hart flag (some a) before after)
    (hwrites : a.writes goingAddr = true) : before = .going ∧ after = .whereTo := by
  have hoffset := offset_of_writes hwrites
  rcases hstep.signal (by simp [writesControl, hwrites]) with
    ⟨hother, -⟩ | ⟨-, hpositions⟩ | ⟨hother, -⟩ | ⟨hother, -⟩
  · exact absurd (hoffset.symm.trans hother) (by decide)
  · exact hpositions
  · exact absurd (hoffset.symm.trans hother) (by decide)
  · exact absurd (hoffset.symm.trans hother) (by decide)

/-- Only a hart that stands before the store to Halted writes Halted, and it writes its index. -/
theorem Step.entry_of_writes (hstep : Step hart flag (some a) before after)
    (hwrites : a.writes haltedAddr = true) :
    before = .entry ∧ after = .pollGo ∧ a.wdataHartsel = hart := by
  have hoffset := offset_of_writes hwrites
  rcases hstep.signal (by simp [writesControl, hwrites]) with
    ⟨-, hpositions⟩ | ⟨hother, -⟩ | ⟨hother, -⟩ | ⟨hother, -⟩
  · exact hpositions
  · exact absurd (hoffset.symm.trans hother) (by decide)
  · exact absurd (hoffset.symm.trans hother) (by decide)
  · exact absurd (hoffset.symm.trans hother) (by decide)

/-- Only a hart that stands before the store to Resuming writes Resuming, and it writes its
index. -/
theorem Step.resuming_of_writes (hstep : Step hart flag (some a) before after)
    (hwrites : a.writes resumingAddr = true) :
    before = .resuming ∧ after = .running ∧ a.wdataHartsel = hart := by
  have hoffset := offset_of_writes hwrites
  rcases hstep.signal (by simp [writesControl, hwrites]) with
    ⟨hother, -⟩ | ⟨hother, -⟩ | ⟨hother, -⟩ | ⟨-, hpositions⟩
  · exact absurd (hoffset.symm.trans hother) (by decide)
  · exact absurd (hoffset.symm.trans hother) (by decide)
  · exact absurd (hoffset.symm.trans hother) (by decide)
  · exact hpositions

end Step

/-! ### What the flags make of a hart -/

/-- A hart that nothing is offered to stays at these points. -/
def Position.isParked : Position → Bool
  | .running | .entry | .pollGo | .pollResume => true
  | _ => false

/-- A halted hart that Go is offered to, until it has written Going. -/
def Position.awaitsGo : Position → Bool
  | .entry | .pollGo | .pollResume | .going => true
  | _ => false

/-- A halted hart that Resume is offered to, until it has written Resuming. -/
def Position.awaitsResume : Position → Bool
  | .entry | .pollGo | .pollResume | .resuming => true
  | _ => false

/-- A hart that has taken Go, until it has written Halted again. -/
def Position.takesCommand : Position → Bool
  | .whereTo | .executing | .exception | .entry => true
  | _ => false

/-- A parked hart in debug mode awaits what it is offered. -/
theorem Position.awaits_of_isParked {position : Position} (hparked : position.isParked = true)
    (hhalted : position ≠ .running) :
    position.awaitsGo = true ∧ position.awaitsResume = true := by
  cases position with
  | running => exact absurd rfl hhalted
  | entry | pollGo | pollResume => exact ⟨rfl, rfl⟩
  | _ => exact absurd hparked (by decide)

/-- A read of the flag byte of the hart shows these two offers. -/
def FlagServes (hart : ℕ) (flag : BitVec 8) (access : Option (SlaveAccess cfg))
    (go resume : Bool) : Prop :=
  ∀ a, access = some a → a.readsByte (flagAddress hart) = true →
    flag.getLsbD 0 = go ∧ flag.getLsbD 1 = resume

section Flags

variable {hart : ℕ} {flag : BitVec 8} {access : Option (SlaveAccess cfg)}
  {before after : Position}

/-- Without an offer a parked hart stays parked. -/
theorem Step.parked (hstep : Step hart flag access before after)
    (hserves : FlagServes hart flag access false false) (hbefore : before.isParked = true) :
    after.isParked = true := by
  cases hstep with
  | seeGo hreads hflag =>
    rw [(hserves _ rfl hreads).1] at hflag
    exact absurd hflag Bool.false_ne_true
  | seeResume hreads hflag =>
    rw [(hserves _ rfl hreads).2] at hflag
    exact absurd hflag Bool.false_ne_true
  | _ => first | exact hbefore | rfl

/-- A hart that Go is offered to takes it in the end by writing Going. -/
theorem Step.awaitsGo (hstep : Step hart flag access before after)
    (hserves : FlagServes hart flag access true false) (hbefore : before.awaitsGo = true) :
    after.awaitsGo = true ∨
      before = .going ∧ after = .whereTo ∧ ∃ a, access = some a ∧ a.writes goingAddr = true := by
  cases hstep with
  | seeResume hreads hflag =>
    rw [(hserves _ rfl hreads).2] at hflag
    exact absurd hflag Bool.false_ne_true
  | signalGoing hwrites => exact Or.inr ⟨rfl, rfl, _, rfl, hwrites⟩
  | _ => first | exact Or.inl hbefore | exact Or.inl rfl

/-- A hart that Resume is offered to takes it in the end by writing Resuming. -/
theorem Step.awaitsResume (hstep : Step hart flag access before after)
    (hserves : FlagServes hart flag access false true) (hbefore : before.awaitsResume = true) :
    after.awaitsResume = true ∨
      before = .resuming ∧ after = .running ∧
        ∃ a, access = some a ∧ a.writes resumingAddr = true ∧ a.wdataHartsel = hart := by
  cases hstep with
  | seeGo hreads hflag =>
    rw [(hserves _ rfl hreads).1] at hflag
    exact absurd hflag Bool.false_ne_true
  | signalResuming hwrites hhart => exact Or.inr ⟨rfl, rfl, _, rfl, hwrites, hhart⟩
  | _ => first | exact Or.inl hbefore | exact Or.inl rfl

/-- A hart that executes a command comes back by writing Halted. -/
theorem Step.takesCommand (hstep : Step hart flag access before after)
    (hbefore : before.takesCommand = true) :
    after.takesCommand = true ∨
      before = .entry ∧ after = .pollGo ∧
        ∃ a, access = some a ∧ a.writes haltedAddr = true ∧ a.wdataHartsel = hart := by
  cases hstep with
  | signalHalted hwrites hhart => exact Or.inr ⟨rfl, rfl, _, rfl, hwrites, hhart⟩
  | _ => first | exact Or.inl hbefore | exact Or.inl rfl

/-- How far a hart that Go is offered to is from writing Going. -/
def Position.goRank : Position → ℕ
  | .pollResume => 4
  | .entry => 3
  | .pollGo => 2
  | .going => 1
  | _ => 0

/-- How far a hart that executes a command is from writing Halted. -/
def Position.commandRank : Position → ℕ
  | .whereTo => 4
  | .executing => 3
  | .exception => 2
  | .entry => 1
  | _ => 0

/-- Each move of a hart that Go is offered to brings it nearer to writing Going. -/
theorem Step.goRank_lt (hstep : Step hart flag access before after)
    (hserves : FlagServes hart flag access true false) (hbefore : before.awaitsGo = true)
    (hmoves : after ≠ before) : after.goRank < before.goRank := by
  cases hstep with
  | pause | fetch => exact absurd rfl hmoves
  | seeNoGo hreads hflag =>
    rw [(hserves _ rfl hreads).1] at hflag
    exact absurd hflag.symm Bool.false_ne_true
  | seeResume hreads hflag =>
    rw [(hserves _ rfl hreads).2] at hflag
    exact absurd hflag Bool.false_ne_true
  | _ => first | exact absurd hbefore Bool.false_ne_true | decide

/-- Each move of a hart that executes a command brings it nearer to writing Halted. -/
theorem Step.commandRank_lt (hstep : Step hart flag access before after)
    (hbefore : before.takesCommand = true) (hmoves : after ≠ before) :
    after.commandRank < before.commandRank := by
  cases hstep with
  | pause | fetch | execute => exact absurd rfl hmoves
  | _ => first | exact absurd hbefore Bool.false_ne_true | decide

/-- A hart leaves debug mode only by writing Resuming. -/
theorem Step.resuming_of_leaves (hstep : Step hart flag access before after)
    (hbefore : before ≠ .running) (hafter : after = .running) :
    before = .resuming ∧
      ∃ a, access = some a ∧ a.writes resumingAddr = true ∧ a.wdataHartsel = hart := by
  cases hstep with
  | signalResuming hwrites hhart => exact ⟨rfl, _, rfl, hwrites, hhart⟩
  | pause | fetch => exact absurd hafter hbefore
  | halt | program => exact absurd rfl hbefore
  | _ => exact absurd hafter (by decide)

/-- A hart leaves the loop for `_resume` only when its flag byte offers Resume. -/
theorem Step.resume_of_leaves {go resume : Bool}
    (hstep : Step hart flag access .pollResume .resuming)
    (hserves : FlagServes hart flag access go resume) : resume = true := by
  cases hstep with
  | seeResume hreads hflag =>
    rw [(hserves _ rfl hreads).2] at hflag
    exact hflag

/-- A hart that has left for `_resume` stays there until it writes Resuming. -/
theorem Step.of_resuming (hstep : Step hart flag access .resuming after) :
    after = .resuming ∨
      ∃ a, access = some a ∧ a.writes resumingAddr = true ∧ a.wdataHartsel = hart := by
  cases hstep with
  | pause | fetch => exact Or.inl rfl
  | signalResuming hwrites hhart => exact Or.inr ⟨_, rfl, hwrites, hhart⟩

/-- A hart in its program stays there or enters debug mode. -/
theorem Step.of_running (hstep : Step hart flag access .running after) :
    after.isParked = true := by
  cases hstep <;> rfl

end Flags

/-! ### Any number of harts on one bus -/

/-- The access a hart makes in a cycle in which one hart at most drives the bus. -/
def accessOf (driver : Option ℕ) (slave : SlaveAccess cfg) (hart : ℕ) :
    Option (SlaveAccess cfg) :=
  if driver = some hart then some slave else none

/-- A schedule of the harts under which the bus accesses of the stream are theirs: in each cycle
one hart at most has the bus, and every hart takes a step. -/
structure ParkedHarts (inputs : ℕ → DmTop.Inputs cfg) where
  position : ℕ → ℕ → Position
  driver : ℕ → Option ℕ
  running_initially : ∀ hart, position 0 hart = .running
  driver_lt : ∀ time hart, driver time = some hart → hart < cfg.nrHarts
  silent : ∀ time, driver time = none → (inputs time).slave.req = false
  step : ∀ time, ∀ hart < cfg.nrHarts,
    Step hart ((DmTop.run inputs (time + 1)).mem.readByte (flagAddress hart))
      (accessOf (driver time) (inputs time).slave hart) (position time hart)
      (position (time + 1) hart)

namespace ParkedHarts

variable {inputs : ℕ → DmTop.Inputs cfg} (harts : ParkedHarts inputs)

/-- A write of the bus has a driver, and is the access of its step. -/
theorem driver_of_writes {time : ℕ} {address : BitVec 12}
    (hwrites : (inputs time).slave.writes address = true) :
    ∃ hart < cfg.nrHarts, harts.driver time = some hart ∧
      Step hart ((DmTop.run inputs (time + 1)).mem.readByte (flagAddress hart))
        (some (inputs time).slave) (harts.position time hart)
        (harts.position (time + 1) hart) := by
  cases hdriver : harts.driver time with
  | none =>
    rw [SlaveAccess.writes, harts.silent time hdriver, Bool.false_and] at hwrites
    exact absurd hwrites Bool.false_ne_true
  | some hart =>
    have hhart := harts.driver_lt time hart hdriver
    have hstep := harts.step time hart hhart
    rw [accessOf, hdriver, if_pos rfl] at hstep
    exact ⟨hart, hhart, rfl, hstep⟩

/-- The access of a step is the one on the bus, and its hart drives it. -/
theorem eq_of_accessOf {time hart : ℕ} {a : SlaveAccess cfg}
    (haccess : accessOf (harts.driver time) (inputs time).slave hart = some a) :
    harts.driver time = some hart ∧ (inputs time).slave = a := by
  unfold accessOf at haccess
  split_ifs at haccess with hdriver
  exact ⟨hdriver, Option.some_inj.mp haccess⟩

/-- The hart that writes Going. -/
theorem going_of_writes {time : ℕ} (hwrites : (inputs time).slave.writes goingAddr = true) :
    ∃ hart < cfg.nrHarts, harts.driver time = some hart ∧
      harts.position time hart = .going ∧ harts.position (time + 1) hart = .whereTo := by
  obtain ⟨hart, hhart, hdriver, hstep⟩ := harts.driver_of_writes hwrites
  exact ⟨hart, hhart, hdriver, hstep.going_of_writes hwrites⟩

/-- The hart that writes Halted. -/
theorem entry_of_writes {time hart : ℕ}
    (hwrites : (inputs time).hartWrites haltedAddr hart = true) :
    harts.driver time = some hart ∧ harts.position time hart = .entry ∧
      harts.position (time + 1) hart = .pollGo := by
  obtain ⟨haddress, hindex⟩ := Bool.and_eq_true_iff.mp hwrites
  obtain ⟨writer, -, hdriver, hstep⟩ := harts.driver_of_writes haddress
  obtain ⟨hbefore, hafter, hwriter⟩ := hstep.entry_of_writes haddress
  rw [beq_iff_eq, hwriter] at hindex
  subst hindex
  exact ⟨hdriver, hbefore, hafter⟩

/-- The hart that writes Resuming. -/
theorem resuming_of_writes {time hart : ℕ}
    (hwrites : (inputs time).hartWrites resumingAddr hart = true) :
    harts.position time hart = .resuming ∧ harts.position (time + 1) hart = .running := by
  obtain ⟨haddress, hindex⟩ := Bool.and_eq_true_iff.mp hwrites
  obtain ⟨writer, -, -, hstep⟩ := harts.driver_of_writes haddress
  obtain ⟨hbefore, hafter, hwriter⟩ := hstep.resuming_of_writes haddress
  rw [beq_iff_eq, hwriter] at hindex
  subst hindex
  exact ⟨hbefore, hafter⟩

end ParkedHarts

end RiscvDebug.Hart
