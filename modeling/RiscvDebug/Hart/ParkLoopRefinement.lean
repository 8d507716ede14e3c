import RiscvDebug.Hart.ExceptionReturn
import RiscvDebug.Hart.ParkLoop

/-!
# The ROM follows the park loop

`Step` describes the park loop as an automaton, and `romStep` executes the decoded words of the
ROM. This module ties the second to the first. A `Path` is a list of bus accesses each of which
moves a hart from one point of the park loop to another, the polls returning the flag bytes in
turn. However many instructions of the ROM a hart has executed, its accesses so far are a path from
the head of the loop, and the two ways out of the ROM are those of the automaton
(`rom_followsParkLoop`).
-/

set_option autoImplicit false
set_option relaxedAutoImplicit false

namespace RiscvDebug.Hart

open Foundations DmMem

variable {cfg : Config} {xlen flen : ℕ}

/-! ### Paths -/

/-- An access of the ROM on the bus. -/
def Access.onBus (cfg : Config) : Access → SlaveAccess cfg
  | .store offset value => writeAccess cfg offset 4 (value.setWidth 64)
  | .poll offset => readAccess cfg offset

/-- The number of flag bytes that some accesses load. -/
def pollCount (accesses : List Access) : ℕ := accesses.countP Access.isPoll

/-- The accesses that take a hart from one point of the park loop to another, with the number of
flag bytes loaded before. Each of them is a move of the hart. -/
inductive Path (cfg : Config) (hart : ℕ) (flags : ℕ → BitVec 8) :
    ℕ → Position → List Access → Position → Prop
  | nil (polls : ℕ) (position : Position) : Path cfg hart flags polls position [] position
  | move {polls : ℕ} {before middle after : Position} {access : Access} {rest : List Access}
    (hstep : Step hart (flags polls) (some (access.onBus cfg)) before middle)
    (hmoves : middle ≠ before)
    (hrest : Path cfg hart flags (polls + pollCount [access]) middle rest after) :
    Path cfg hart flags polls before (access :: rest) after

section Paths

variable {hart polls : ℕ} {flags : ℕ → BitVec 8} {first middle last : Position}
  {accesses accesses' : List Access}

theorem pollCount_append : pollCount (accesses ++ accesses') =
    pollCount accesses + pollCount accesses' := List.countP_append

theorem Path.single {access : Access}
    (hstep : Step hart (flags polls) (some (access.onBus cfg)) first last)
    (hmoves : last ≠ first) : Path cfg hart flags polls first [access] last :=
  .move hstep hmoves (.nil _ last)

theorem Path.append (hfirst : Path cfg hart flags polls first accesses middle)
    (hlast : Path cfg hart flags (polls + pollCount accesses) middle accesses' last) :
    Path cfg hart flags polls first (accesses ++ accesses') last := by
  induction hfirst with
  | nil polls position => exact hlast
  | @move polls before after _ access rest hstep hmoves hrest ih =>
    refine .move hstep hmoves (ih ?_)
    rwa [Nat.add_assoc, ← pollCount_append]

/-- What a hart has accessed so far on a path is a path as well. -/
theorem Path.of_append (hpath : Path cfg hart flags polls first (accesses ++ accesses') last) :
    ∃ middle, Path cfg hart flags polls first accesses middle := by
  induction accesses generalizing polls first with
  | nil => exact ⟨first, .nil polls first⟩
  | cons access rest ih =>
    rw [List.cons_append] at hpath
    cases hpath with
    | move hstep hmoves hrest =>
      obtain ⟨middle, hmiddle⟩ := ih hrest
      exact ⟨middle, .move hstep hmoves hmiddle⟩

end Paths

/-! ### The moves of a hart -/

section Moves

variable {hart polls : ℕ} {flags : ℕ → BitVec 8}

/-- A store of the ROM is a write of its offset. -/
theorem writes_onBus (offset : BitVec 12) (value : BitVec 32) :
    ((Access.store offset value).onBus cfg).writes offset = true := by
  rw [Access.onBus, SlaveAccess.writes, offset_writeAccess, beq_self_eq_true]
  rfl

/-- A store of the index of a hart to a 64-bit row names the hart. -/
theorem wdataHartsel_onBus {offset : BitVec 12} (hrow : offset.toNat % 8 = 0)
    (hhart : hart < cfg.nrHarts) :
    ((Access.store offset (BitVec.ofNat 32 hart)).onBus cfg).wdataHartsel = hart := by
  have hcount := cfg.nrHarts_le
  have hselected : hart < 2 ^ cfg.hartSelLen := by
    unfold Config.hartSelLen
    split_ifs with hone
    · omega
    · exact hhart.trans_le (le_two_pow_clog2 cfg.nrHarts)
  have hwide : 2 ^ 32 ≤ 2 ^ cfg.busWidth := by
    rcases cfg.busWidth_eq with hwidth | hwidth <;> rw [hwidth]
    decide
  have hlane : 8 * (offset.toNat % busBytes cfg) = 0 := by
    rcases busBytes_eq cfg with hbytes | hbytes <;> rw [hbytes] <;> omega
  rw [Access.onBus]
  unfold SlaveAccess.wdataHartsel writeAccess Config.hartIndex
  rw [hlane, BitVec.shiftLeft_zero, BitVec.toNat_setWidth, BitVec.toNat_setWidth,
    BitVec.toNat_ofNat, Nat.mod_eq_of_lt (show hart < 2 ^ 32 by omega),
    Nat.mod_eq_of_lt (show hart < 2 ^ 64 by omega),
    Nat.mod_eq_of_lt (show hart < 2 ^ cfg.busWidth by omega), Nat.mod_eq_of_lt hselected]

/-- A poll reads the bus word of the flag byte. -/
theorem readsByte_onBus (hhart : hart < 1024) :
    ((Access.poll (flagOffset hart)).onBus cfg).readsByte (flagAddress hart) = true := by
  rw [Access.onBus, SlaveAccess.readsByte, offset_readAccess, flagOffset_toNat hhart,
    beq_self_eq_true]
  rfl

/-- The signal to Halted, at the head of the loop. -/
theorem path_halted (hhart : hart < cfg.nrHarts) :
    Path cfg hart flags polls .entry [.store haltedAddr (BitVec.ofNat 32 hart)] .pollGo :=
  .single (.signalHalted (writes_onBus _ _) (wdataHartsel_onBus (by decide) hhart)) (by decide)

/-- The poll for Go. -/
theorem path_pollGo (hhart : hart < 1024) :
    Path cfg hart flags polls .pollGo [.poll (flagOffset hart)]
      (if (flags polls).getLsbD 0 then .going else .pollResume) := by
  cases hflag : (flags polls).getLsbD 0 with
  | true => exact .single (.seeGo (readsByte_onBus hhart) hflag) (by decide)
  | false => exact .single (.seeNoGo (readsByte_onBus hhart) hflag) (by decide)

/-- The poll for Resume. -/
theorem path_pollResume (hhart : hart < 1024) :
    Path cfg hart flags polls .pollResume [.poll (flagOffset hart)]
      (if (flags polls).getLsbD 1 then .resuming else .entry) := by
  cases hflag : (flags polls).getLsbD 1 with
  | true => exact .single (.seeResume (readsByte_onBus hhart) hflag) (by decide)
  | false => exact .single (.seeNoResume (readsByte_onBus hhart) hflag) (by decide)

theorem path_going :
    Path cfg hart flags polls .going [.store goingAddr 0] .whereTo :=
  .single (.signalGoing (writes_onBus _ _)) (by decide)

theorem path_resuming (hhart : hart < cfg.nrHarts) :
    Path cfg hart flags polls .resuming [.store resumingAddr (BitVec.ofNat 32 hart)] .running :=
  .single (.signalResuming (writes_onBus _ _) (wdataHartsel_onBus (by decide) hhart)) (by decide)

theorem path_exception :
    Path cfg hart flags polls .exception [.store exceptionAddr 0] .entry :=
  .single (.signalException (writes_onBus _ _)) (by decide)

end Moves

/-! ### Rounds -/

section Rounds

variable {hart : ℕ} (flags : ℕ → BitVec 8) (hhart : hart < cfg.nrHarts)
  (hcount : cfg.nrHarts ≤ 1024) (round : ℕ)
include hhart hcount

/-- The accesses up to the test for Go of a round. -/
theorem path_goTest (hbefore : Path cfg hart flags 0 .entry (roundAccesses hart round) .entry) :
    Path cfg hart flags 0 .entry (roundAccesses hart round ++ firstAccesses hart)
      (if goSeen flags round then .going else .pollResume) := by
  refine hbefore.append ?_
  rw [pollCount, countP_roundAccesses, Nat.zero_add]
  exact (path_halted hhart).append (path_pollGo (hhart.trans_le hcount))

/-- The accesses up to the test for Resume of a round. -/
theorem path_resumeTest (hgo : goSeen flags round = false)
    (hbefore : Path cfg hart flags 0 .entry (roundAccesses hart round) .entry) :
    Path cfg hart flags 0 .entry (roundAccesses hart (round + 1))
      (if resumeSeen flags round then .resuming else .entry) := by
  have hfirst := path_goTest flags hhart hcount round hbefore
  rw [hgo, if_neg Bool.false_ne_true] at hfirst
  rw [roundAccesses_succ]
  refine hfirst.append ?_
  rw [pollCount, countP_firstAccesses, Nat.zero_add]
  exact path_pollResume (hhart.trans_le hcount)

/-- The rounds before the first successful test lead back to the head of the loop. -/
theorem path_roundAccesses
    (hnone : ∀ earlier < round, goSeen flags earlier = false ∧ resumeSeen flags earlier = false) :
    Path cfg hart flags 0 .entry (roundAccesses hart round) .entry := by
  induction round with
  | zero => exact .nil 0 .entry
  | succ round ih =>
    obtain ⟨hgo, hresume⟩ := hnone round (Nat.lt_succ_self round)
    have hround := path_resumeTest flags hhart hcount round hgo
      (ih fun earlier hlt ↦ hnone earlier (Nat.lt_succ_of_lt hlt))
    rwa [hresume, if_neg Bool.false_ne_true] at hround

/-- The accesses of a hart that leaves in a round. -/
def leavingAccesses (hart : ℕ) : List Access :=
  if goSeen flags round then
    roundAccesses hart round ++ firstAccesses hart ++ [.store goingAddr 0]
  else roundAccesses hart (round + 1) ++ [.store resumingAddr (BitVec.ofNat 32 hart)]

/-- The first round with a successful test leads out of the loop. -/
theorem path_leaving
    (hnone : ∀ earlier < round, goSeen flags earlier = false ∧ resumeSeen flags earlier = false)
    (htested : goSeen flags round = true ∨ resumeSeen flags round = true) :
    Path cfg hart flags 0 .entry (leavingAccesses flags round hart)
      (if goSeen flags round then .whereTo else .running) := by
  have hbefore := path_roundAccesses flags hhart hcount round hnone
  rw [leavingAccesses]
  cases hgo : goSeen flags round with
  | true =>
    have hfirst := path_goTest flags hhart hcount round hbefore
    rw [hgo, if_pos rfl] at hfirst
    exact hfirst.append path_going
  | false =>
    have hresume := htested.resolve_left (by rw [hgo]; exact Bool.false_ne_true)
    have hsecond := path_resumeTest flags hhart hcount round hgo hbefore
    rw [hresume, if_pos rfl] at hsecond
    exact hsecond.append (path_resuming hhart)

end Rounds

/-! ### Runs of the ROM -/

section Steps

variable (e : Environment cfg xlen flen) (flags : ℕ → BitVec 8) {s after : Session cfg xlen flen}

theorem counted_accesses (s : Session cfg xlen flen) : s.counted.accesses = s.accesses := by
  unfold Session.counted
  split_ifs <;> rfl

/-- An instruction adds its access, if it makes one, to those before it. -/
theorem accesses_of_romExecute {instruction : RomInstruction}
    (hexecute : e.romExecute flags s instruction = some after) : s.accesses <+: after.accesses := by
  cases instruction with
  | generated instruction =>
    obtain ⟨machine, -, rfl⟩ := Option.map_eq_some_iff.mp hexecute
    exact List.prefix_rfl
  | fence | andi | add | bne =>
    rw [← Option.some_inj.mp hexecute]
    exact List.prefix_rfl
  | lbu =>
    obtain ⟨offset, -, hload⟩ := Option.bind_eq_some_iff.mp hexecute
    split_ifs at hload
    rw [← Option.some_inj.mp hload]
    exact List.prefix_append _ _
  | sw =>
    obtain ⟨offset, -, hstore⟩ := Option.bind_eq_some_iff.mp hexecute
    rw [← Option.some_inj.mp hstore]
    exact List.prefix_append _ _
  | dret => exact absurd hexecute.symm (Option.some_ne_none after)

theorem accesses_of_romStep (hstep : e.romStep flags s = .next after) :
    s.accesses <+: after.accesses := by
  unfold Environment.romStep at hstep
  split_ifs at hstep
  rw [← counted_accesses s]
  cases hfetch : e.romFetch s.machine with
  | none => simp [hfetch, Environment.romDispatch] at hstep
  | some instruction =>
    rw [hfetch] at hstep
    cases hexecute : e.romExecute flags s.counted instruction with
    | none => cases instruction <;> simp [Environment.romDispatch, hexecute] at hstep
    | some last =>
      have hnext : e.romDispatch flags s.counted (some instruction) = .next last := by
        cases instruction with
        | dret => exact absurd hexecute.symm (Option.some_ne_none last)
        | _ => simp only [Environment.romDispatch, hexecute]
      rw [hnext] at hstep
      exact StepResult.next.inj hstep ▸ accesses_of_romExecute e flags hexecute

/-- The accesses of a hart in the ROM only grow. -/
theorem accesses_of_advances {count : ℕ} (hadvances : Advances (e.romStep flags) count s after) :
    s.accesses <+: after.accesses :=
  hadvances.preserves (fun state ↦ s.accesses <+: state.accesses)
    (fun _ _ hstep hbefore ↦ hbefore.trans (accesses_of_romStep e flags hstep)) List.prefix_rfl

/-- The accesses with which a hart leaves the ROM. -/
def RomExit.accesses : RomExit cfg xlen flen → List Access
  | .whereTo last | .dret last => last.accesses
  | .stuck => []

/-- A hart leaves the ROM with the accesses it has made. -/
theorem accesses_of_exit {outcome : RomExit cfg xlen flen}
    (hdone : e.romStep flags s = .done outcome) (hstuck : outcome ≠ .stuck) :
    outcome.accesses = s.accesses := by
  unfold Environment.romStep at hdone
  split_ifs at hdone
  · rw [← StepResult.done.inj hdone]
    rfl
  · cases hfetch : e.romFetch s.machine with
    | none =>
      rw [hfetch] at hdone
      exact absurd (StepResult.done.inj hdone).symm hstuck
    | some instruction =>
      rw [hfetch] at hdone
      cases instruction with
      | dret =>
        rw [← StepResult.done.inj hdone]
        exact counted_accesses s
      | _ =>
        simp only [Environment.romDispatch] at hdone
        split at hdone
        · cases hdone
        · exact absurd (StepResult.done.inj hdone).symm hstuck

theorem leaving_accesses (m : Machine cfg xlen flen) (hart round : ℕ) :
    (leaving m flags hart round).accesses = leavingAccesses flags round hart ∧
      leaving m flags hart round ≠ .stuck := by
  unfold leaving leavingAccesses
  split_ifs
  · exact ⟨rfl, fun hstuck ↦ by cases hstuck⟩
  · exact ⟨rfl, fun hstuck ↦ by cases hstuck⟩

end Steps

section Runs

variable (hxlen : xlen = 32 ∨ xlen = 64) (haligned : cfg.dmBaseAddress.toNat % 4096 = 0)
  (e : Environment cfg xlen flen) (flags : ℕ → BitVec 8) {m : Machine cfg xlen flen} {hart : ℕ}
  (hhart : hart < cfg.nrHarts) (hcount : cfg.nrHarts ≤ 1024)
  (hmhartid : m.csrs csrMhartid = BitVec.ofNat xlen hart) (hpc : m.pc = haltPc cfg xlen)
include hxlen haligned hhart hcount hmhartid hpc

/-- The head of a round is reached, as long as no test has succeeded. -/
theorem advances_loopHead (round : ℕ)
    (hnone : ∀ earlier < round, goSeen flags earlier = false ∧ resumeSeen flags earlier = false) :
    ∃ count, round ≤ count ∧
      Advances (e.romStep flags) count (Session.enter m) (loopHead m hart round) := by
  have hentry : Advances (e.romStep flags) _ (Session.enter m) (loopHead m hart 0) :=
    advances_entry hxlen haligned e flags (by rw [hpc, haltPc_eq hxlen])
  have hrounds := advances_rounds fun earlier hlt ↦
    advances_round hxlen haligned e flags (hhart.trans_le hcount) hmhartid earlier
      (hnone earlier hlt).1 (hnone earlier hlt).2
  refine ⟨_, ?_, hentry.trans hrounds⟩
  exact (Nat.le_mul_of_pos_left round (Nat.succ_pos _)).trans (Nat.le_add_left _ _)

/-- The way out of the ROM in the first round with a successful test. -/
theorem advances_leaving {round : ℕ}
    (hnone : ∀ earlier < round, goSeen flags earlier = false ∧ resumeSeen flags earlier = false)
    (htested : goSeen flags round = true ∨ resumeSeen flags round = true) :
    ∃ count last, Advances (e.romStep flags) count (Session.enter m) last ∧
      e.romStep flags last = .done (leaving m flags hart round) ∧
      last.accesses = leavingAccesses flags round hart := by
  obtain ⟨before, -, hhead⟩ :=
    advances_loopHead hxlen haligned e flags hhart hcount hmhartid hpc round hnone
  obtain ⟨count, last, hleave, hdone⟩ :=
    leaves_round hxlen haligned e flags (hhart.trans_le hcount) hmhartid round htested
  obtain ⟨haccesses, hstuck⟩ := leaving_accesses flags m hart round
  exact ⟨_, last, hhead.trans hleave, hdone,
    (accesses_of_exit e flags hdone hstuck).symm.trans haccesses⟩

/-- Whatever a hart has executed since it entered the ROM, its accesses are the first ones of a
path from the head of the loop. -/
theorem accesses_extend {count : ℕ} {after : Session cfg xlen flen}
    (hafter : Advances (e.romStep flags) count (Session.enter m) after) :
    ∃ accesses position, Path cfg hart flags 0 .entry accesses position ∧
      after.accesses <+: accesses := by
  classical
  by_cases htested : ∃ round, goSeen flags round = true ∨ resumeSeen flags round = true
  · have hnone (earlier : ℕ) (hlt : earlier < Nat.find htested) :
        goSeen flags earlier = false ∧ resumeSeen flags earlier = false := by
      simpa using Nat.find_min htested hlt
    obtain ⟨total, last, hlast, hdone, haccesses⟩ := advances_leaving hxlen haligned e flags hhart
      hcount hmhartid hpc hnone (Nat.find_spec htested)
    refine ⟨_, _, path_leaving flags hhart hcount _ hnone (Nat.find_spec htested), ?_⟩
    rw [← haccesses]
    exact accesses_of_advances e flags (hafter.between hlast (hlast.le_of_done hdone hafter))
  · have hnone (earlier : ℕ) : goSeen flags earlier = false ∧ resumeSeen flags earlier = false := by
      simpa using not_exists.mp htested earlier
    obtain ⟨total, hle, hhead⟩ := advances_loopHead hxlen haligned e flags hhart hcount hmhartid
      hpc count fun earlier _ ↦ hnone earlier
    exact ⟨_, _, path_roundAccesses flags hhart hcount count fun earlier _ ↦ hnone earlier,
      accesses_of_advances e flags (hafter.between hhead hle)⟩

end Runs

/-- The ROM refines the park loop. After any number of instructions from the halt address the
accesses of the hart are a path from the head of the loop; a hart that goes to WhereTo has taken Go,
and one that leaves debug mode has taken Resume. From the exception address the hart comes back to
the head of the loop by the move of `_exception`. -/
theorem rom_followsParkLoop (hxlen : xlen = 32 ∨ xlen = 64)
    (haligned : cfg.dmBaseAddress.toNat % 4096 = 0) (e : Environment cfg xlen flen)
    (flags : ℕ → BitVec 8) (m : Machine cfg xlen flen) {hart : ℕ} (hhart : hart < cfg.nrHarts)
    (hcount : cfg.nrHarts ≤ 1024) (hmhartid : m.csrs csrMhartid = BitVec.ofNat xlen hart)
    (hpc : m.pc = haltPc cfg xlen) :
    (∀ count after, Advances (e.romStep flags) count (Session.enter m) after →
      ∃ position, Path cfg hart flags 0 .entry after.accesses position) ∧
      (∀ fuel last, boundedRun (e.romStep flags) fuel (Session.enter m) = some (.whereTo last) →
        Path cfg hart flags 0 .entry last.accesses .whereTo) ∧
      (∀ fuel last, boundedRun (e.romStep flags) fuel (Session.enter m) = some (.dret last) →
        Path cfg hart flags 0 .entry last.accesses .running) ∧
      ∃ count after, Advances (e.parkStep flags) count
          (Session.enter (m.withPc (exceptionPc cfg xlen))) after ∧
        after.machine.pc = haltPc cfg xlen ∧
          Path cfg hart flags 0 .exception after.accesses .entry := by
  have hends {fuel : ℕ} {outcome : RomExit cfg xlen flen}
      (hrun : boundedRun (e.romStep flags) fuel (Session.enter m) = some outcome) :
      ∃ round, Path cfg hart flags 0 .entry (leavingAccesses flags round hart)
        (if goSeen flags round then .whereTo else .running) ∧
          outcome = leaving m flags hart round := by
    classical
    have htested : ∃ round, goSeen flags round = true ∨ resumeSeen flags round = true := by
      obtain ⟨round, -, hround, -⟩ := exists_leaving hxlen haligned e flags
        (hhart.trans_le hcount) hmhartid (by rw [hpc, haltPc_eq hxlen]) hrun
      exact ⟨round, hround⟩
    have hnone (earlier : ℕ) (hlt : earlier < Nat.find htested) :
        goSeen flags earlier = false ∧ resumeSeen flags earlier = false := by
      simpa using Nat.find_min htested hlt
    obtain ⟨count, last, hlast, hdone, -⟩ := advances_leaving hxlen haligned e flags hhart
      hcount hmhartid hpc hnone (Nat.find_spec htested)
    exact ⟨Nat.find htested, path_leaving flags hhart hcount _ hnone (Nat.find_spec htested),
      boundedRun_unique hrun (hlast.run_done hdone)⟩
  refine ⟨fun count after hafter ↦ ?_, fun fuel last hrun ↦ ?_, fun fuel last hrun ↦ ?_,
    _, _, advances_exception hxlen haligned e flags m [] 0, rfl, path_exception⟩
  · obtain ⟨accesses, position, hpath, rest, hstarts⟩ :=
      accesses_extend hxlen haligned e flags hhart hcount hmhartid hpc hafter
    exact (hstarts.symm ▸ hpath).of_append
  · obtain ⟨round, hpath, hleaving⟩ := hends hrun
    unfold leaving at hleaving
    unfold leavingAccesses at hpath
    split_ifs at hleaving hpath with hgo
    exact RomExit.whereTo.inj hleaving ▸ hpath
  · obtain ⟨round, hpath, hleaving⟩ := hends hrun
    unfold leaving at hleaving
    unfold leavingAccesses at hpath
    split_ifs at hleaving hpath with hgo
    exact RomExit.dret.inj hleaving ▸ hpath

/-- The hart with index zero at the halt address. -/
def firstHart : Machine farModule 64 64 := { haltedHart with csrs := fun _ ↦ 0 }

/-- A hart that finds Go in the first poll of its second round has gone once around the loop before
it goes to WhereTo. -/
theorem firstHart_followsParkLoop :
    ∃ last, boundedRun (writesA0.romStep thirdPollGo) 30 (Session.enter firstHart) =
        some (.whereTo last) ∧
      Path farModule 0 thirdPollGo 0 .entry last.accesses .whereTo ∧ last.iterations = 2 := by
  obtain ⟨-, hgoing, -, -⟩ := rom_followsParkLoop (Or.inr rfl) (by decide) writesA0 thirdPollGo
    firstHart (show 0 < farModule.nrHarts by decide) (by decide) rfl rfl
  have hiterations : iterationsToWhereTo (boundedRun (writesA0.romStep thirdPollGo) 30
      (Session.enter firstHart)) = 2 := by decide +kernel
  cases hrun : boundedRun (writesA0.romStep thirdPollGo) 30 (Session.enter firstHart) with
  | none =>
    rw [hrun] at hiterations
    exact absurd hiterations (show (0 : ℕ) ≠ 2 by decide)
  | some outcome =>
    rw [hrun] at hiterations
    cases outcome with
    | whereTo last => exact ⟨last, rfl, hgoing 30 last hrun, hiterations⟩
    | dret last => exact absurd hiterations (show (0 : ℕ) ≠ 2 by decide)
    | stuck => exact absurd hiterations (show (0 : ℕ) ≠ 2 by decide)

end RiscvDebug.Hart
