import Mathlib.Data.List.Basic

/-!
# Runs over lists of inputs

A machine that takes a finite list of inputs, one after the other. `after` is the state it reaches,
and `Passes` says that a property holds in the state before each input. Both split where the list
does (`after_append`, `passes_append`), so a long list is read piece by piece.
-/

set_option autoImplicit false
set_option relaxedAutoImplicit false

namespace RiscvDebug.Foundations

variable {State Input : Type*} (step : State → Input → State)

/-- The state after a list of inputs. -/
def after (start : State) (inputs : List Input) : State := inputs.foldl step start

@[simp] theorem after_nil (start : State) : after step start [] = start := rfl

@[simp] theorem after_cons (start : State) (input : Input) (inputs : List Input) :
    after step start (input :: inputs) = after step (step start input) inputs := rfl

theorem after_append (start : State) (first second : List Input) :
    after step start (first ++ second) = after step (after step start first) second :=
  List.foldl_append

/-- The property holds before each input. -/
def Passes (property : State → Prop) : State → List Input → Prop
  | _, [] => True
  | start, input :: inputs => property start ∧ Passes property (step start input) inputs

variable {step} {property : State → Prop} {start : State}

theorem passes_append {first second : List Input} :
    Passes step property start (first ++ second) ↔
      Passes step property start first ∧ Passes step property (after step start first) second := by
  induction first generalizing start with
  | nil => simp [Passes]
  | cons input first ih =>
    rw [List.cons_append, Passes, Passes, ih, after_cons, and_assoc]

theorem Passes.mono {property' : State → Prop} {inputs : List Input}
    (hpasses : Passes step property start inputs)
    (hmono : ∀ state, property state → property' state) :
    Passes step property' start inputs := by
  induction inputs generalizing start with
  | nil => trivial
  | cons input inputs ih => exact ⟨hmono _ hpasses.1, ih hpasses.2⟩

/-- The property holds wherever a list that keeps it is broken off. -/
theorem Passes.at_le {inputs seen : List Input} (hpasses : Passes step property start inputs)
    (hend : property (after step start inputs)) (hseen : seen <+: inputs) :
    property (after step start seen) := by
  obtain ⟨rest, rfl⟩ := hseen
  cases rest with
  | nil => rwa [List.append_nil] at hend
  | cons input rest => exact (passes_append.mp hpasses).2.1

end RiscvDebug.Foundations
