import Mathlib

/-!
# Clocked machines and their runs

A synchronous circuit is a reset state and a step that reads the registers and the inputs of one
clock cycle. A run is driven by a stream of inputs, and `states` lists the registers at the start
of every cycle. This module collects the rules the later proofs use on runs: an invariant that
every step keeps (`invariant_states`) and two runs in lockstep (`lockstep_states`).
-/

set_option autoImplicit false
set_option relaxedAutoImplicit false

namespace RiscvDebug.Foundations

/-- A clocked machine: the registers after reset, and the registers after one clock cycle. -/
structure ClockedMachine (State Input : Type*) where
  reset : State
  step : State → Input → State

namespace ClockedMachine

variable {State Input : Type*}

/-- The registers at the start of every cycle of the run driven by a stream of inputs. -/
def states (machine : ClockedMachine State Input) (inputs : ℕ → Input) : ℕ → State
  | 0 => machine.reset
  | time + 1 => machine.step (states machine inputs time) (inputs time)

@[simp] theorem states_zero (machine : ClockedMachine State Input) (inputs : ℕ → Input) :
    machine.states inputs 0 = machine.reset := rfl

theorem states_succ (machine : ClockedMachine State Input) (inputs : ℕ → Input) (time : ℕ) :
    machine.states inputs (time + 1) =
      machine.step (machine.states inputs time) (inputs time) := rfl

/-- The states some run reaches. -/
def Reachable (machine : ClockedMachine State Input) (state : State) : Prop :=
  ∃ inputs time, machine.states inputs time = state

theorem reachable_states (machine : ClockedMachine State Input) (inputs : ℕ → Input)
    (time : ℕ) : machine.Reachable (machine.states inputs time) :=
  ⟨inputs, time, rfl⟩

/-- An invariant of the reset state that every step keeps holds along every run. -/
theorem invariant_states {machine : ClockedMachine State Input} {invariant : State → Prop}
    (hreset : invariant machine.reset)
    (hstep : ∀ state input, invariant state → invariant (machine.step state input))
    (inputs : ℕ → Input) (time : ℕ) : invariant (machine.states inputs time) := by
  induction time with
  | zero => exact hreset
  | succ time ih => exact hstep _ _ ih

/-- Two machines driven by related input streams stay related, when related states and inputs
step to related states. -/
theorem lockstep_states {State' Input' : Type*} {machine : ClockedMachine State Input}
    {machine' : ClockedMachine State' Input'} {related : State → State' → Prop}
    (hreset : related machine.reset machine'.reset) {inputs : ℕ → Input} {inputs' : ℕ → Input'}
    (hstep : ∀ time, related (machine.states inputs time) (machine'.states inputs' time) →
      related (machine.states inputs (time + 1)) (machine'.states inputs' (time + 1)))
    (time : ℕ) : related (machine.states inputs time) (machine'.states inputs' time) := by
  induction time with
  | zero => exact hreset
  | succ time ih => exact hstep time ih

end ClockedMachine

end RiscvDebug.Foundations
