import Mathlib

/-!
# Phases of a run

A phase is a stretch of consecutive cycles with a common property, which ends, if it ends, in a
cycle with another one. `Until` says that it ends and `Unless` that it may last for ever. A phase is
established cycle by cycle from an invariant (`unless_of_step`), and it ends when a rank that never
grows keeps changing (`until_of_rank`). A quantity that no cycle of a bounded phase changes is the
same at both ends (`eq_start_of_step`). Events that each use up a credit, which other events grant,
are no more than those (`count_le_of_credit`). A flag that one kind of events sets and another one
clears tells which kind has occurred last (`latch_iff`).
-/

set_option autoImplicit false
set_option relaxedAutoImplicit false

namespace RiscvDebug.Foundations

variable {lasts lasts' ends ends' invariant : ℕ → Prop} {start : ℕ}

/-- The first property holds from a cycle on until a cycle with the second one. -/
def Until (lasts ends : ℕ → Prop) (start : ℕ) : Prop :=
  ∃ stop, start ≤ stop ∧ (∀ time, start ≤ time → time < stop → lasts time) ∧ ends stop

/-- The first property holds from a cycle on, for ever or until a cycle with the second one. -/
def Unless (lasts ends : ℕ → Prop) (start : ℕ) : Prop :=
  (∀ time, start ≤ time → lasts time) ∨ Until lasts ends start

theorem Until.mono (huntil : Until lasts ends start)
    (hlasts : ∀ time, start ≤ time → lasts time → lasts' time)
    (hends : ∀ time, start ≤ time → ends time → ends' time) : Until lasts' ends' start := by
  obtain ⟨stop, hstop, hbefore, hend⟩ := huntil
  exact ⟨stop, hstop, fun time hle hlt ↦ hlasts time hle (hbefore time hle hlt),
    hends stop hstop hend⟩

theorem Unless.mono (hunless : Unless lasts ends start)
    (hlasts : ∀ time, start ≤ time → lasts time → lasts' time)
    (hends : ∀ time, start ≤ time → ends time → ends' time) : Unless lasts' ends' start := by
  rcases hunless with halways | huntil
  · exact Or.inl fun time hle ↦ hlasts time hle (halways time hle)
  · exact Or.inr (huntil.mono hlasts hends)

/-- A phase from an invariant: every cycle with the invariant ends the phase, or belongs to it and
hands the invariant on. -/
theorem unless_of_step (hstart : invariant start)
    (hstep : ∀ time, start ≤ time → invariant time →
      lasts time ∧ invariant (time + 1) ∨ ends time) : Unless lasts ends start := by
  by_cases hended : ∃ time, start ≤ time ∧ ends time
  · -- The phase ends in the first of these cycles.
    classical
    right
    have hinvariant : ∀ time, start ≤ time → time ≤ Nat.find hended → invariant time := by
      intro time hle
      induction time, hle using Nat.le_induction with
      | base => exact fun _ ↦ hstart
      | succ time hle ih =>
        intro hbefore
        rcases hstep time hle (ih (by omega)) with ⟨-, hnext⟩ | hend
        · exact hnext
        · exact absurd ⟨hle, hend⟩ (Nat.find_min hended (by omega))
    refine ⟨Nat.find hended, (Nat.find_spec hended).1, fun time hle hlt ↦ ?_,
      (Nat.find_spec hended).2⟩
    rcases hstep time hle (hinvariant time hle hlt.le) with ⟨hlasts, -⟩ | hend
    · exact hlasts
    · exact absurd ⟨hle, hend⟩ (Nat.find_min hended hlt)
  · left
    have hnever : ∀ time, start ≤ time → ¬ ends time :=
      fun time hle hend ↦ hended ⟨time, hle, hend⟩
    have hinvariant : ∀ time, start ≤ time → invariant time := by
      intro time hle
      induction time, hle using Nat.le_induction with
      | base => exact hstart
      | succ time hle ih => exact ((hstep time hle ih).resolve_right (hnever time hle)).2
    exact fun time hle ↦ ((hstep time hle (hinvariant time hle)).resolve_right (hnever time hle)).1

/-- A phase ends when a rank that does not grow in it changes again and again. -/
theorem until_of_rank (rank : ℕ → ℕ) (hstart : invariant start)
    (hstep : ∀ time, start ≤ time → invariant time →
      lasts time ∧ invariant (time + 1) ∧ rank (time + 1) ≤ rank time ∨ ends time)
    (hprogress : ∀ time, start ≤ time → invariant time →
      ∃ later, time ≤ later ∧ (invariant later → rank (later + 1) ≠ rank later ∨ ends later)) :
    Until lasts ends start := by
  -- The induction is on the rank of the first cycle of the phase.
  induction hrank : rank start using Nat.strong_induction_on generalizing start with
  | _ bound ih =>
    have hphase : Unless (fun time ↦ lasts time ∧ invariant time ∧ invariant (time + 1) ∧
        rank (time + 1) ≤ rank time) ends start :=
      unless_of_step hstart fun time hle hinvariant ↦ by
        rcases hstep time hle hinvariant with ⟨hlasts, hnext, hdown⟩ | hend
        · exact Or.inl ⟨⟨hlasts, hinvariant, hnext, hdown⟩, hnext⟩
        · exact Or.inr hend
    rcases hphase with halways | huntil
    · obtain ⟨later, hlater, hchange⟩ := hprogress start le_rfl hstart
      obtain ⟨-, hinvariant, hnext, hdown⟩ := halways later hlater
      rcases hchange hinvariant with hchanged | hend
      · have hrankLater : rank later ≤ rank start := by
          clear hchange hinvariant hnext hdown hchanged
          induction later, hlater using Nat.le_induction with
          | base => exact le_rfl
          | succ time hle ihRank => exact (halways time hle).2.2.2.trans ihRank
        obtain ⟨stop, hstop, -, hend⟩ := ih (rank (later + 1)) (by omega) hnext
          (fun time hle ↦ hstep time (by omega)) (fun time hle ↦ hprogress time (by omega)) rfl
        exact ⟨stop, by omega, fun time hle _ ↦ (halways time hle).1, hend⟩
      · exact ⟨later, hlater, fun time hle _ ↦ (halways time hle).1, hend⟩
    · exact huntil.mono (fun _ _ hboth ↦ hboth.1) fun _ _ hend ↦ hend

/-- A quantity that no cycle of a stretch changes is the same at its end. A cycle may count on the
value at the start. -/
theorem eq_start_of_step {α : Type*} {q : ℕ → α} {stop : ℕ} (hle : start ≤ stop)
    (hstep : ∀ time, start ≤ time → time < stop → q time = q start → q (time + 1) = q start) :
    q stop = q start := by
  induction stop, hle using Nat.le_induction with
  | base => rfl
  | succ stop hle ih =>
    have hbefore := ih fun time hstart hstop ↦ hstep time hstart (Nat.lt_succ_of_lt hstop)
    exact hstep stop hle (Nat.lt_succ_self stop) hbefore

/-- Uses are no more than grants when each cycle pays for its use from the credit of the cycles
before it and from its own grant. -/
theorem count_le_of_credit {uses grants : ℕ → Prop} [DecidablePred uses] [DecidablePred grants]
    (credit : ℕ → ℕ) (hinitial : credit 0 = 0)
    (hstep : ∀ time, (if uses time then 1 else 0) + credit (time + 1) ≤
      credit time + if grants time then 1 else 0) (time : ℕ) :
    Nat.count uses time + credit time ≤ Nat.count grants time := by
  induction time with
  | zero => simp [hinitial]
  | succ time ih =>
    have hcycle := hstep time
    rw [Nat.count_succ, Nat.count_succ]
    omega

/-- Before a time the last event that sets comes after the last one that clears. A flag that is set
at first has been set before all cycles. -/
def SetSince (initially : Prop) (sets clears : ℕ → Prop) (time : ℕ) : Prop :=
  (initially ∧ ∀ earlier < time, ¬ clears earlier) ∨
    ∃ last < time, sets last ∧ ∀ later, last < later → later < time → ¬ clears later

/-- A flag tells which of its two kinds of events has occurred last. When both occur in one cycle
the flag is set. -/
theorem latch_iff {initially : Prop} {flag sets clears : ℕ → Prop} (hstart : flag 0 ↔ initially)
    (hstep : ∀ time, flag (time + 1) ↔ sets time ∨ flag time ∧ ¬ clears time) (time : ℕ) :
    flag time ↔ SetSince initially sets clears time := by
  induction time with
  | zero =>
    rw [hstart]
    constructor
    · exact fun hinitially ↦ Or.inl ⟨hinitially, fun _ hlt ↦ absurd hlt (Nat.not_lt_zero _)⟩
    · rintro (⟨hinitially, -⟩ | ⟨last, hlt, -⟩)
      · exact hinitially
      · exact absurd hlt (Nat.not_lt_zero _)
  | succ time ih =>
    rw [hstep, ih]
    constructor
    · rintro (hsets | ⟨⟨hinitially, hkept⟩ | ⟨last, hlast, hsets, hkept⟩, hclears⟩)
      · exact Or.inr ⟨time, Nat.lt_succ_self time, hsets, fun later hlater hlt ↦ by omega⟩
      · refine Or.inl ⟨hinitially, fun earlier hlt ↦ ?_⟩
        rcases Nat.lt_succ_iff_lt_or_eq.mp hlt with hbefore | rfl
        · exact hkept earlier hbefore
        · exact hclears
      · refine Or.inr ⟨last, by omega, hsets, fun later hlater hlt ↦ ?_⟩
        rcases Nat.lt_succ_iff_lt_or_eq.mp hlt with hbefore | rfl
        · exact hkept later hlater hbefore
        · exact hclears
    · rintro (⟨hinitially, hkept⟩ | ⟨last, hlast, hsets, hkept⟩)
      · exact Or.inr ⟨Or.inl ⟨hinitially, fun earlier hlt ↦ hkept earlier (by omega)⟩,
          hkept time (Nat.lt_succ_self time)⟩
      · rcases Nat.lt_succ_iff_lt_or_eq.mp hlast with hbefore | rfl
        · exact Or.inr ⟨Or.inr ⟨last, hbefore, hsets, fun later hlater hlt ↦
            hkept later hlater (by omega)⟩, hkept time hbefore (Nat.lt_succ_self time)⟩
        · exact Or.inl hsets

end RiscvDebug.Foundations
