import Mathlib

/-!
# Bounded runs

A deterministic machine that goes on or ends with an outcome, and its run of a bounded number of
steps. `Advances` says that some steps lead from one state to another; it composes, and a loop whose
body advances from each of its states to the next advances through any number of rounds
(`advances_rounds`). Runs that end agree (`boundedRun_unique`), and a machine that can always
advance further never ends (`boundedRun_eq_none_of_rounds`). For operations that may fail
`foldlM_preserves` carries a property through a list of them.
-/

set_option autoImplicit false
set_option relaxedAutoImplicit false

namespace RiscvDebug.Foundations

/-- What one step leads to. -/
inductive StepResult (State Outcome : Type*)
  | next (state : State)
  | done (outcome : Outcome)

variable {State Outcome : Type*} (step : State → StepResult State Outcome)

/-- The outcome of a run of a bounded number of steps, and none while it has not ended. -/
def boundedRun : ℕ → State → Option Outcome
  | 0, _ => none
  | fuel + 1, state =>
    match step state with
    | .next after => boundedRun fuel after
    | .done outcome => some outcome

/-- A number of steps leads from one state to another. -/
def Advances : ℕ → State → State → Prop
  | 0, first, last => first = last
  | count + 1, first, last => ∃ middle, step first = .next middle ∧ Advances count middle last

/-- The state after a number of steps, and none when the machine ends before. -/
def stateAfter : ℕ → State → Option State
  | 0, state => some state
  | count + 1, state =>
    match step state with
    | .next after => stateAfter count after
    | .done _ => none

variable {step}

theorem advances_of_stateAfter {count : ℕ} {first last : State}
    (hafter : stateAfter step count first = some last) : Advances step count first last := by
  induction count generalizing first with
  | zero => exact Option.some_inj.mp hafter
  | succ count ih =>
    rw [stateAfter] at hafter
    cases hstep : step first with
    | next middle =>
      rw [hstep] at hafter
      exact ⟨middle, hstep, ih hafter⟩
    | done outcome =>
      rw [hstep] at hafter
      exact absurd hafter.symm (Option.some_ne_none last)

theorem Advances.single {first last : State} (hstep : step first = .next last) :
    Advances step 1 first last :=
  ⟨last, hstep, rfl⟩

theorem Advances.trans {count count' : ℕ} {first middle last : State}
    (hfirst : Advances step count first middle) (hlast : Advances step count' middle last) :
    Advances step (count + count') first last := by
  induction count generalizing first with
  | zero =>
    rw [Nat.zero_add]
    exact hfirst ▸ hlast
  | succ count ih =>
    obtain ⟨after, hstep, hrest⟩ := hfirst
    rw [Nat.add_right_comm]
    exact ⟨after, hstep, ih hrest⟩

/-- A machine that takes the steps of another one advances as it does. -/
theorem Advances.mono {step' : State → StepResult State Outcome}
    (hstep : ∀ first last, step first = .next last → step' first = .next last) {count : ℕ}
    {first last : State} (hadvances : Advances step count first last) :
    Advances step' count first last := by
  induction count generalizing first with
  | zero => exact hadvances
  | succ count ih =>
    obtain ⟨after, hfirst, hrest⟩ := hadvances
    exact ⟨after, hstep _ _ hfirst, ih hrest⟩

/-- A loop advances through its rounds. -/
theorem advances_rounds {length rounds : ℕ} {head : ℕ → State}
    (hround : ∀ round < rounds, Advances step length (head round) (head (round + 1))) :
    Advances step (length * rounds) (head 0) (head rounds) := by
  induction rounds with
  | zero => rfl
  | succ rounds ih =>
    rw [Nat.mul_succ]
    exact (ih fun round hlt ↦ hround round (Nat.lt_succ_of_lt hlt)).trans
      (hround rounds rounds.lt_succ_self)

/-- Of two states the machine advances to the earlier one leads to the later one. -/
theorem Advances.between {count count' : ℕ} {first middle last : State}
    (hmiddle : Advances step count first middle) (hlast : Advances step count' first last)
    (hle : count ≤ count') : Advances step (count' - count) middle last := by
  induction count generalizing first count' with
  | zero =>
    obtain rfl : first = middle := hmiddle
    exact hlast
  | succ count ih =>
    obtain ⟨after, hstep, hrest⟩ := hmiddle
    cases count' with
    | zero => exact absurd hle (Nat.not_succ_le_zero count)
    | succ count' =>
      obtain ⟨after', hstep', hrest'⟩ := hlast
      obtain rfl : after = after' := StepResult.next.inj (hstep.symm.trans hstep')
      rw [Nat.add_sub_add_right]
      exact ih hrest hrest' (Nat.le_of_succ_le_succ hle)

/-- No step follows the state in which a run ends. -/
theorem Advances.le_of_done {count count' : ℕ} {first middle last : State} {outcome : Outcome}
    (hmiddle : Advances step count first middle) (hdone : step middle = .done outcome)
    (hlast : Advances step count' first last) : count' ≤ count := by
  by_contra hgt
  have hrest := hmiddle.between hlast (Nat.le_of_not_le hgt)
  obtain ⟨further, hfurther⟩ := Nat.exists_eq_succ_of_ne_zero
    (show count' - count ≠ 0 by omega)
  rw [hfurther] at hrest
  obtain ⟨after, hstep, -⟩ := hrest
  rw [hdone] at hstep
  cases hstep

/-- What every step preserves, a number of steps preserves. -/
theorem Advances.preserves (property : State → Prop)
    (hpreserves : ∀ first last, step first = .next last → property first → property last)
    {count : ℕ} {first last : State} (hadvances : Advances step count first last)
    (hfirst : property first) : property last := by
  induction count generalizing first with
  | zero => exact hadvances ▸ hfirst
  | succ count ih =>
    obtain ⟨after, hstep, hrest⟩ := hadvances
    exact ih hrest (hpreserves first after hstep hfirst)

/-- A run that ends does so after a number of steps. -/
theorem exists_advances_of_run {fuel : ℕ} {first : State} {outcome : Outcome}
    (hrun : boundedRun step fuel first = some outcome) :
    ∃ count last, Advances step count first last ∧ step last = .done outcome := by
  induction fuel generalizing first with
  | zero => exact absurd hrun.symm (Option.some_ne_none outcome)
  | succ fuel ih =>
    rw [boundedRun] at hrun
    cases hstep : step first with
    | next after =>
      simp only [hstep] at hrun
      obtain ⟨count, last, hadvances, hdone⟩ := ih hrun
      exact ⟨count + 1, last, ⟨after, hstep, hadvances⟩, hdone⟩
    | done result =>
      simp only [hstep] at hrun
      exact ⟨0, first, rfl, hstep.trans (congrArg StepResult.done (Option.some_inj.mp hrun))⟩

/-- The run from a state the machine advances to is the rest of the run. -/
theorem Advances.run_eq {count : ℕ} {first last : State}
    (hadvances : Advances step count first last) (fuel : ℕ) :
    boundedRun step (count + fuel) first = boundedRun step fuel last := by
  induction count generalizing first with
  | zero =>
    rw [Nat.zero_add]
    exact congrArg _ hadvances
  | succ count ih =>
    obtain ⟨after, hstep, hrest⟩ := hadvances
    rw [Nat.add_right_comm, boundedRun, hstep]
    exact ih hrest

/-- A run that has ended does not change any more. -/
theorem boundedRun_mono {fuel : ℕ} {state : State} {outcome : Outcome}
    (hrun : boundedRun step fuel state = some outcome) (extra : ℕ) :
    boundedRun step (fuel + extra) state = some outcome := by
  induction fuel generalizing state with
  | zero => exact absurd hrun (Option.some_ne_none outcome).symm
  | succ fuel ih =>
    rw [Nat.add_right_comm]
    rw [boundedRun] at hrun ⊢
    cases hstep : step state with
    | next after =>
      simp only [hstep] at hrun ⊢
      exact ih hrun
    | done result =>
      simp only [hstep] at hrun ⊢
      exact hrun

/-- Two runs of a machine that end have the same outcome. -/
theorem boundedRun_unique {fuel fuel' : ℕ} {state : State} {outcome outcome' : Outcome}
    (hrun : boundedRun step fuel state = some outcome)
    (hrun' : boundedRun step fuel' state = some outcome') : outcome = outcome' := by
  have hlong := boundedRun_mono hrun fuel'
  have hlong' := boundedRun_mono hrun' fuel
  rw [Nat.add_comm] at hlong'
  exact Option.some_inj.mp (hlong.symm.trans hlong')

/-- The end of a run after some steps is the end of the whole run. -/
theorem Advances.run_done {count : ℕ} {first last : State} {outcome : Outcome}
    (hadvances : Advances step count first last) (hdone : step last = .done outcome) :
    boundedRun step (count + 1) first = some outcome := by
  rw [hadvances.run_eq, boundedRun, hdone]

/-- A machine that goes through a loop for ever never ends. -/
theorem boundedRun_eq_none_of_rounds {length : ℕ} {head : ℕ → State} (hlength : 0 < length)
    (hround : ∀ round, Advances step length (head round) (head (round + 1))) (fuel : ℕ) :
    boundedRun step fuel (head 0) = none := by
  by_contra hended
  obtain ⟨outcome, hrun⟩ := Option.ne_none_iff_exists'.mp hended
  have hle : fuel ≤ length * fuel := Nat.le_mul_of_pos_left fuel hlength
  have hlong := boundedRun_mono hrun (length * fuel - fuel)
  rw [Nat.add_sub_cancel' hle, ← Nat.add_zero (length * fuel),
    (advances_rounds fun round _ ↦ hround round).run_eq] at hlong
  exact Option.some_ne_none outcome hlong.symm

/-- Steps that lead to a state whose runs never end do not end either. -/
theorem Advances.run_eq_none {count : ℕ} {first last : State}
    (hadvances : Advances step count first last)
    (hnone : ∀ fuel, boundedRun step fuel last = none) (fuel : ℕ) :
    boundedRun step fuel first = none := by
  by_contra hended
  obtain ⟨outcome, hrun⟩ := Option.ne_none_iff_exists'.mp hended
  have hlong := boundedRun_mono hrun count
  rw [Nat.add_comm, hadvances.run_eq, hnone] at hlong
  exact Option.some_ne_none outcome hlong.symm

/-! ### Folds that may fail -/

/-- What every operation of a list preserves, a fold through the list preserves. -/
theorem foldlM_preserves {Operation : Type*} {apply : State → Operation → Option State}
    (property : State → Prop) {operations : List Operation}
    (hpreserves : ∀ operation ∈ operations, ∀ first last, property first →
      apply first operation = some last → property last)
    {first last : State} (hfirst : property first)
    (hfold : operations.foldlM apply first = some last) : property last := by
  induction operations generalizing first with
  | nil => exact Option.some_inj.mp hfold ▸ hfirst
  | cons operation rest ih =>
    rw [List.foldlM_cons, Option.bind_eq_bind, Option.bind_eq_some_iff] at hfold
    obtain ⟨middle, hmiddle, hrest⟩ := hfold
    exact ih (fun other hother ↦ hpreserves other (List.mem_cons_of_mem _ hother))
      (hpreserves operation List.mem_cons_self first middle hfirst hmiddle) hrest

end RiscvDebug.Foundations
