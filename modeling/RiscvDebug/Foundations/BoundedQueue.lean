import Mathlib

/-!
# Queues of bounded depth

A first-in first-out buffer of a fixed depth, clocked: in one cycle it may be flushed, may take an
entry when it is not full and may give its oldest entry away when it is not empty. The bound on
the number of entries is part of the type, so an overfull queue cannot be built.
-/

set_option autoImplicit false
set_option relaxedAutoImplicit false

namespace RiscvDebug.Foundations

/-- A queue of at most `depth` entries, oldest first. -/
structure BoundedQueue (α : Type*) (depth : ℕ) where
  entries : List α
  length_le : entries.length ≤ depth
deriving DecidableEq

namespace BoundedQueue

variable {α : Type*} {depth : ℕ}

@[ext] theorem ext {first second : BoundedQueue α depth}
    (hentries : first.entries = second.entries) : first = second := by
  cases first
  cases second
  simpa using hentries

/-- The empty queue. -/
def empty : BoundedQueue α depth := ⟨[], Nat.zero_le depth⟩

/-- Whether the queue holds no entry. -/
def isEmpty (queue : BoundedQueue α depth) : Bool := queue.entries.isEmpty

/-- Whether the queue cannot take another entry. -/
def isFull (queue : BoundedQueue α depth) : Bool := decide (queue.entries.length = depth)

theorem length_lt_of_not_isFull {queue : BoundedQueue α depth} (hfull : queue.isFull = false) :
    queue.entries.length < depth :=
  lt_of_le_of_ne queue.length_le (of_decide_eq_false hfull)

/-- The entries after one cycle without a flush: the oldest entry leaves on `pop`, and `entry` is
taken on `push` unless the queue is full. -/
def cycleEntries (queue : BoundedQueue α depth) (push pop : Bool) (entry : α) : List α :=
  (if pop then queue.entries.tail else queue.entries) ++
    (if push && !queue.isFull then [entry] else [])

theorem length_cycleEntries_le (queue : BoundedQueue α depth) (push pop : Bool) (entry : α) :
    (queue.cycleEntries push pop entry).length ≤ depth := by
  have hle := queue.length_le
  have htail : (if pop then queue.entries.tail else queue.entries).length ≤
      queue.entries.length := by
    split_ifs <;> simp
  unfold cycleEntries
  rw [List.length_append]
  by_cases hpush : (push && !queue.isFull) = true
  · have hlt := length_lt_of_not_isFull (by simpa using (Bool.and_eq_true_iff.mp hpush).2)
    rw [if_pos hpush, List.length_singleton]
    omega
  · rw [if_neg hpush, List.length_nil]
    omega

/-- One clock cycle of the queue. A flush empties it whatever else happens. -/
def cycle (queue : BoundedQueue α depth) (flush push pop : Bool) (entry : α) :
    BoundedQueue α depth :=
  if flush then empty
  else ⟨queue.cycleEntries push pop entry, queue.length_cycleEntries_le push pop entry⟩

@[simp] theorem entries_empty : (empty : BoundedQueue α depth).entries = [] := rfl

@[simp] theorem entries_cycle (queue : BoundedQueue α depth) (push pop : Bool) (entry : α) :
    (queue.cycle false push pop entry).entries = queue.cycleEntries push pop entry := rfl

@[simp] theorem cycle_flush (queue : BoundedQueue α depth) (push pop : Bool) (entry : α) :
    queue.cycle true push pop entry = empty := rfl

/-- No cycle without a flush loses, duplicates or reorders the entries. -/
theorem append_cycle (queue : BoundedQueue α depth) (push pop : Bool) (entry : α) :
    queue.entries ++ (if push && !queue.isFull then [entry] else []) =
      (if pop then queue.entries.head?.toList else []) ++
        (queue.cycle false push pop entry).entries := by
  rw [entries_cycle, cycleEntries]
  cases pop with
  | true => cases hentries : queue.entries <;> simp
  | false => rfl

/-- A queue that gives away an entry whenever it has one holds at most one. -/
theorem length_cycle_le_one {queue : BoundedQueue α depth} (hle : queue.entries.length ≤ 1)
    (flush push : Bool) (entry : α) :
    (queue.cycle flush push (!queue.isEmpty) entry).entries.length ≤ 1 := by
  cases flush with
  | true => exact Nat.zero_le 1
  | false =>
    have hpopped : (if !queue.isEmpty then queue.entries.tail else queue.entries) = [] := by
      unfold isEmpty
      cases hentries : queue.entries with
      | nil => rfl
      | cons first rest =>
        rw [hentries, List.length_cons] at hle
        exact List.length_eq_zero_iff.mp (Nat.le_zero.mp (Nat.le_of_succ_le_succ hle))
    show (queue.cycleEntries push (!queue.isEmpty) entry).length ≤ 1
    rw [cycleEntries, hpopped, List.nil_append]
    split_ifs
    · exact le_rfl
    · exact Nat.zero_le 1

/-- Whether a queue is empty or full depends on the number of its entries only. -/
theorem isEmpty_congr {first second : BoundedQueue α depth}
    (hlength : first.entries.length = second.entries.length) : first.isEmpty = second.isEmpty := by
  rw [isEmpty, isEmpty, Bool.eq_iff_iff, List.isEmpty_iff_length_eq_zero,
    List.isEmpty_iff_length_eq_zero, hlength]

theorem isFull_congr {first second : BoundedQueue α depth}
    (hlength : first.entries.length = second.entries.length) : first.isFull = second.isFull := by
  rw [isFull, isFull, hlength]

/-- The number of entries after a cycle does not depend on what is stored. -/
theorem length_cycle_congr {first second : BoundedQueue α depth}
    (hlength : first.entries.length = second.entries.length) (flush push pop : Bool)
    (entry entry' : α) :
    (first.cycle flush push pop entry).entries.length =
      (second.cycle flush push pop entry').entries.length := by
  cases flush
  · have hfull := isFull_congr hlength
    simp only [entries_cycle, cycleEntries, List.length_append, hfull]
    congr 1
    · split_ifs <;> simp [hlength]
    · split_ifs <;> rfl
  · simp

end BoundedQueue

end RiscvDebug.Foundations
