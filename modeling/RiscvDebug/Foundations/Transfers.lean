import RiscvDebug.Foundations.Temporal

/-!
# Elements under way

Elements enter a system in some cycles and leave it in others, and it holds those that are under
way. When every cycle conserves them (`Conserves`), what has left is what has entered, in the same
order, but for the elements under way (`history_eq`). An element that the system hands on whenever
it gets the opportunity leaves in the end (`until_of_opportunity`), and when opportunities keep
coming everything that has entered leaves, in order (`exists_handedOn`).
-/

set_option autoImplicit false
set_option relaxedAutoImplicit false

namespace RiscvDebug.Foundations

/-! ### Histories -/

section Histories

variable {α : Type*} {enters leaves underway : ℕ → List α}

/-- The elements of the cycles before a time, oldest first. -/
def history (elements : ℕ → List α) : ℕ → List α
  | 0 => []
  | time + 1 => history elements time ++ elements time

theorem history_succ (elements : ℕ → List α) (time : ℕ) :
    history elements (time + 1) = history elements time ++ elements time := rfl

/-- No cycle loses, duplicates or reorders the elements under way. -/
def Conserves (enters leaves underway : ℕ → List α) : Prop :=
  ∀ time, underway time ++ enters time = leaves time ++ underway (time + 1)

/-- As long as every cycle conserves the elements, what was under way at first and what has entered
since has left, but for the elements under way. -/
theorem append_history_eq {last : ℕ}
    (hconserves : ∀ time < last,
      underway time ++ enters time = leaves time ++ underway (time + 1)) {time : ℕ}
    (hle : time ≤ last) :
    underway 0 ++ history enters time = history leaves time ++ underway time := by
  induction time with
  | zero => exact List.append_nil _
  | succ time ih =>
    calc underway 0 ++ (history enters time ++ enters time)
        = history leaves time ++ (underway time ++ enters time) := by
          rw [← List.append_assoc, ih (by omega), List.append_assoc]
      _ = history leaves (time + 1) ++ underway (time + 1) := by
          rw [hconserves time (by omega), history_succ, List.append_assoc]

/-- What has entered an empty system has left it, but for the elements under way. -/
theorem history_eq (hempty : underway 0 = []) (hconserves : Conserves enters leaves underway)
    (time : ℕ) : history enters time = history leaves time ++ underway time := by
  have hall := append_history_eq (fun time _ ↦ hconserves time) (le_refl time)
  rwa [hempty, List.nil_append] at hall

theorem history_sublist {elements elements' : ℕ → List α}
    (hsublist : ∀ time, (elements time).Sublist (elements' time)) (time : ℕ) :
    (history elements time).Sublist (history elements' time) := by
  induction time with
  | zero => exact List.Sublist.refl []
  | succ time ih => exact ih.append (hsublist time)

theorem history_le (elements : ℕ → List α) {time later : ℕ} (hle : time ≤ later) :
    history elements time <+: history elements later := by
  induction later, hle using Nat.le_induction with
  | base => exact List.prefix_rfl
  | succ later hle ih => exact ih.trans (List.prefix_append _ _)

/-- Nothing enters in a stretch. -/
theorem history_of_none {elements : ℕ → List α} {first last : ℕ} (hle : first ≤ last)
    (hnone : ∀ time, first ≤ time → time < last → elements time = []) :
    history elements last = history elements first := by
  induction last, hle using Nat.le_induction with
  | base => rfl
  | succ last hle ih =>
    rw [history_succ, hnone last hle (Nat.lt_succ_self last), List.append_nil]
    exact ih fun time hafter hbefore ↦ hnone time hafter (by omega)

/-- Elements enter at one time of a stretch only. -/
theorem history_of_single {elements : ℕ → List α} {first last moment : ℕ} (hfirst : first ≤ moment)
    (hlast : moment < last)
    (hnone : ∀ time, first ≤ time → time < last → time ≠ moment → elements time = []) :
    history elements last = history elements first ++ elements moment := by
  rw [history_of_none hlast fun time hafter hbefore ↦ hnone time (by omega) hbefore (by omega),
    history_succ, history_of_none hfirst fun time hafter hbefore ↦
      hnone time hafter (by omega) (by omega)]

/-- When at most one element enters at a time, each element of a history has a cycle in which it has
entered. -/
theorem exists_entry {elements : ℕ → List α} (hone : ∀ time, (elements time).length ≤ 1)
    {first second : List α} {element : α} {start last : ℕ} (hle : start ≤ last)
    (hhistory : history elements last = history elements start ++ (first ++ element :: second)) :
    ∃ time, start ≤ time ∧ time < last ∧
      history elements time = history elements start ++ first ∧ elements time = [element] := by
  induction last, hle using Nat.le_induction generalizing second with
  | base =>
    have hlength := congrArg List.length hhistory
    simp at hlength
  | succ last hle ih =>
    rw [history_succ] at hhistory
    cases helements : elements last with
    | nil =>
      rw [helements, List.append_nil] at hhistory
      obtain ⟨time, hstart, hlt, hentry⟩ := ih hhistory
      exact ⟨time, hstart, by omega, hentry⟩
    | cons entered rest =>
      have hsingle := hone last
      rw [helements, List.length_cons] at hsingle
      obtain rfl : rest = [] := List.length_eq_zero_iff.mp (by omega)
      rw [helements] at hhistory
      -- The last cycle enters the element itself, or one that comes after it.
      rcases List.eq_nil_or_concat second with rfl | ⟨between, final, rfl⟩
      · rw [← List.append_assoc] at hhistory
        obtain ⟨hbefore, hentered⟩ := List.append_inj' hhistory rfl
        exact ⟨last, hle, Nat.lt_succ_self last, hbefore, by rw [helements, hentered]⟩
      · have hgrouped : history elements last ++ [entered] =
            (history elements start ++ (first ++ element :: between)) ++ [final] := by
          rw [hhistory]
          simp
        obtain ⟨hbefore, -⟩ := List.append_inj' hgrouped rfl
        obtain ⟨time, hstart, hlt, hentry⟩ := ih hbefore
        exact ⟨time, hstart, by omega, hentry⟩

/-- Such a history is broken off anywhere by a cycle. -/
theorem exists_history_eq {elements : ℕ → List α} (hone : ∀ time, (elements time).length ≤ 1)
    {first second : List α} {start last : ℕ} (hle : start ≤ last)
    (hhistory : history elements last = history elements start ++ (first ++ second)) :
    ∃ time, start ≤ time ∧ time ≤ last ∧
      history elements time = history elements start ++ first := by
  cases second with
  | nil => exact ⟨last, hle, le_rfl, by rw [hhistory, List.append_nil]⟩
  | cons element second =>
    obtain ⟨time, hstart, hlt, hbefore, -⟩ := exists_entry hone hle hhistory
    exact ⟨time, hstart, hlt.le, hbefore⟩

end Histories

/-! ### Opportunities -/

/-- A phase that lasts until an opportunity ends with one, when they keep coming. -/
theorem until_of_opportunity {lasts opportunity : ℕ → Prop} {start : ℕ} (hstart : lasts start)
    (hstep : ∀ time, start ≤ time → lasts time → ¬ opportunity time → lasts (time + 1))
    (hcoming : ∀ time, start ≤ time → lasts time → ∃ later, time ≤ later ∧ opportunity later) :
    Until lasts (fun time ↦ lasts time ∧ opportunity time) start := by
  refine until_of_rank (fun _ ↦ 0) hstart (fun time hle hlasts ↦ ?_)
    fun time hle hlasts ↦ ?_
  · by_cases hopportunity : opportunity time
    · exact Or.inr ⟨hlasts, hopportunity⟩
    · exact Or.inl ⟨hlasts, hstep time hle hlasts hopportunity, le_rfl⟩
  · obtain ⟨later, hlater, hopportunity⟩ := hcoming time hle hlasts
    exact ⟨later, hlater, fun hstill ↦ Or.inr ⟨hstill, hopportunity⟩⟩

/-- What is under way at first and what enters by any time has left by some later time, in the same
order, when an element leaves at every opportunity and opportunities keep coming. -/
theorem exists_handedOn {α : Type*} {enters leaves underway : ℕ → List α} {opportunity : ℕ → Prop}
    (hconserves : Conserves enters leaves underway)
    (hleaves : ∀ time, opportunity time → underway time ≠ [] → leaves time ≠ [])
    (hcoming : ∀ time, ∃ later, time ≤ later ∧ opportunity later) (time : ℕ) :
    ∃ later, time ≤ later ∧ underway 0 ++ history enters time <+: history leaves later := by
  have hall (later : ℕ) : underway 0 ++ history enters later =
      history leaves later ++ underway later :=
    append_history_eq (fun time _ ↦ hconserves time) (le_refl later)
  have hentered {later : ℕ} (hle : time ≤ later) :
      underway 0 ++ history enters time <+: underway 0 ++ history enters later :=
    (List.prefix_append_right_inj _).mpr (history_le enters hle)
  -- One element after the other leaves: the induction is on how many have left.
  have hcount (count : ℕ) (hbound : count ≤ (underway 0 ++ history enters time).length) :
      ∃ later, time ≤ later ∧ count ≤ (history leaves later).length := by
    induction count with
    | zero => exact ⟨time, le_rfl, Nat.zero_le _⟩
    | succ count ih =>
      obtain ⟨before, hbefore, hleft⟩ := ih (by omega)
      obtain ⟨later, hlater, hopportunity⟩ := hcoming before
      have hgrown : count ≤ (history leaves later).length :=
        hleft.trans (history_le leaves hlater).length_le
      by_cases hunderway : underway later = []
      · refine ⟨later, by omega, hbound.trans ?_⟩
        have hdone := hall later
        rw [hunderway, List.append_nil] at hdone
        exact hdone ▸ (hentered (by omega)).length_le
      · have hone := List.length_pos_iff.mpr (hleaves later hopportunity hunderway)
        refine ⟨later + 1, by omega, ?_⟩
        rw [history_succ, List.length_append]
        omega
  obtain ⟨later, hle, hlength⟩ := hcount _ le_rfl
  exact ⟨later, hle, List.prefix_of_prefix_length_le (hentered hle)
    ((hall later).symm ▸ List.prefix_append _ _) hlength⟩

end RiscvDebug.Foundations
