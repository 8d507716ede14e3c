import RiscvDebug.Foundations.BoundedQueue

/-!
# Clocked buffers by their ports

A circuit that keeps its entries in a first-in first-out buffer sees the ports of the buffer only:
whether it is full or empty, the entry at its head, and the flush, push and pop of a cycle. `Fifo`
is a buffer with whatever registers it has, and `Fifo.Lawful` says that it follows a bounded queue
as long as nobody pushes into a full buffer or pops an empty one; to other users it promises
nothing. `circularFifo` is the usual implementation, a memory with two pointers and a counter, and
`circularFifo_lawful` shows that it keeps this.
-/

set_option autoImplicit false
set_option relaxedAutoImplicit false

namespace RiscvDebug.Foundations

/-! ### Buffers -/

/-- A clocked first-in first-out buffer: its registers after reset, what they show on the ports, and
the registers after a cycle with a flush, a push and a pop. -/
structure Fifo (α : Type*) where
  State : Type
  reset : State
  full : State → Bool
  empty : State → Bool
  dataOut : State → α
  next : State → (flush push pop : Bool) → α → State

namespace Fifo

variable {α : Type*}

/-- The buffer follows a queue of bounded depth: registers that hold a queue show it on the ports,
and hold what one cycle makes of it when the cycle pushes into no full buffer and pops no empty
one. -/
structure Lawful (fifo : Fifo α) (depth : ℕ) (holds : fifo.State → BoundedQueue α depth → Prop) :
    Prop where
  reset : holds fifo.reset BoundedQueue.empty
  full : ∀ {state queue}, holds state queue → fifo.full state = queue.isFull
  empty : ∀ {state queue}, holds state queue → fifo.empty state = queue.isEmpty
  dataOut : ∀ {state queue}, holds state queue →
    ∀ first ∈ queue.entries.head?, fifo.dataOut state = first
  next : ∀ {state queue}, holds state queue → ∀ (flush : Bool) {push pop : Bool} (entry : α),
    (push = true → fifo.full state = false) → (pop = true → fifo.empty state = false) →
      holds (fifo.next state flush push pop entry) (queue.cycle flush push pop entry)

end Fifo

/-! ### Circular buffers -/

/-- The registers of a circular buffer. -/
structure CircularBuffer (α : Type) where
  mem : ℕ → α
  readPointer : ℕ
  writePointer : ℕ
  count : ℕ

namespace CircularBuffer

variable {α : Type} {depth : ℕ}

/-- The cell of an entry, counted from the head. -/
def cell (depth : ℕ) (buffer : CircularBuffer α) (index : ℕ) : ℕ :=
  (buffer.readPointer + index) % depth

/-- The entries from the head on. -/
def entries (depth : ℕ) (buffer : CircularBuffer α) : List α :=
  (List.range buffer.count).map fun index ↦ buffer.mem (buffer.cell depth index)

/-- The buffer after a push. -/
def pushed (depth : ℕ) (buffer : CircularBuffer α) (entry : α) : CircularBuffer α where
  mem := Function.update buffer.mem buffer.writePointer entry
  readPointer := buffer.readPointer
  writePointer := (buffer.writePointer + 1) % depth
  count := buffer.count + 1

/-- The buffer after a pop. -/
def popped (depth : ℕ) (buffer : CircularBuffer α) : CircularBuffer α :=
  { buffer with readPointer := (buffer.readPointer + 1) % depth, count := buffer.count - 1 }

/-- The buffer stores these entries, and the next one goes into the cell behind the last one. -/
structure Stores (depth : ℕ) (buffer : CircularBuffer α) (stored : List α) : Prop where
  entries : stored = buffer.entries depth
  readPointer : buffer.readPointer % depth = buffer.readPointer
  writePointer : buffer.writePointer = buffer.cell depth buffer.count

theorem Stores.count {buffer : CircularBuffer α} {stored : List α}
    (hstores : buffer.Stores depth stored) : buffer.count = stored.length := by
  rw [hstores.entries]
  simp [CircularBuffer.entries]

/-- The cells of fewer entries than the depth are different. -/
theorem cell_ne {buffer : CircularBuffer α} {index index' : ℕ} (hlt : index < index')
    (hdepth : index' < depth) : buffer.cell depth index ≠ buffer.cell depth index' := by
  intro hsame
  have hindex : index ≡ index' [MOD depth] := Nat.ModEq.add_left_cancel' buffer.readPointer hsame
  rw [Nat.ModEq, Nat.mod_eq_of_lt (hlt.trans hdepth), Nat.mod_eq_of_lt hdepth] at hindex
  exact hlt.ne hindex

/-- A push appends the entry. -/
theorem Stores.pushed {buffer : CircularBuffer α} {stored : List α}
    (hstores : buffer.Stores depth stored) (hroom : buffer.count < depth) (entry : α) :
    (buffer.pushed depth entry).Stores depth (stored ++ [entry]) where
  entries := by
    have hmem (index : ℕ) : (buffer.pushed depth entry).mem index =
        Function.update buffer.mem (buffer.cell depth buffer.count) entry index := by
      rw [← hstores.writePointer]
      rfl
    have hcell (index : ℕ) :
        (buffer.pushed depth entry).cell depth index = buffer.cell depth index := rfl
    rw [CircularBuffer.entries, show (buffer.pushed depth entry).count = buffer.count + 1 from rfl,
      List.range_succ, List.map_append, List.map_singleton, hcell, hmem, Function.update_self,
      hstores.entries, CircularBuffer.entries]
    congr 1
    refine List.map_congr_left fun index hindex ↦ ?_
    rw [hcell, hmem, Function.update_of_ne (cell_ne (List.mem_range.mp hindex) hroom)]
  readPointer := hstores.readPointer
  writePointer := by
    show (buffer.writePointer + 1) % depth = (buffer.readPointer + (buffer.count + 1)) % depth
    rw [hstores.writePointer, cell, Nat.mod_add_mod, Nat.add_assoc]

/-- A pop removes the first entry. -/
theorem Stores.popped {buffer : CircularBuffer α} {stored : List α}
    (hstores : buffer.Stores depth stored) (hsome : buffer.count ≠ 0) :
    (buffer.popped depth).Stores depth stored.tail := by
  obtain ⟨count, hcount⟩ := Nat.exists_eq_succ_of_ne_zero hsome
  have hpopped : (buffer.popped depth).count = count := by
    show buffer.count - 1 = count
    omega
  have hcell (index : ℕ) :
      (buffer.popped depth).cell depth index = buffer.cell depth (index + 1) := by
    show ((buffer.readPointer + 1) % depth + index) % depth = _
    rw [Nat.mod_add_mod, cell, Nat.add_assoc, Nat.add_comm 1]
  refine ⟨?_, Nat.mod_mod _ _, ?_⟩
  · rw [hstores.entries, CircularBuffer.entries, CircularBuffer.entries, hpopped, hcount,
      List.range_succ_eq_map, List.map_cons, List.tail_cons, List.map_map]
    exact List.map_congr_left fun index _ ↦ congrArg buffer.mem (hcell index).symm
  · rw [hpopped, hcell, ← Nat.succ_eq_add_one, ← hcount]
    exact hstores.writePointer

/-- The cell at the read pointer shows the first entry. -/
theorem Stores.head {buffer : CircularBuffer α} {stored : List α}
    (hstores : buffer.Stores depth stored) {first : α} (hfirst : first ∈ stored.head?) :
    buffer.mem buffer.readPointer = first := by
  rw [hstores.entries, CircularBuffer.entries] at hfirst
  cases hcount : buffer.count with
  | zero => simp [hcount] at hfirst
  | succ count =>
    rw [hcount, List.range_succ_eq_map, List.map_cons, List.head?_cons, Option.mem_some_iff, cell,
      Nat.add_zero, hstores.readPointer] at hfirst
    exact hfirst

/-- The buffer after the push of a cycle, which is ignored when the buffer is full. -/
def filled (depth : ℕ) (buffer : CircularBuffer α) (push : Bool) (entry : α) : CircularBuffer α :=
  if push && buffer.count != depth then buffer.pushed depth entry else buffer

/-- The registers after a cycle. A pop of an empty buffer is ignored. -/
def next (depth : ℕ) (buffer : CircularBuffer α) (flush push pop : Bool) (entry : α) :
    CircularBuffer α :=
  let filled := buffer.filled depth push entry
  let left := if pop && buffer.count != 0 then filled.popped depth else filled
  if flush then { left with readPointer := 0, writePointer := 0, count := 0 } else left

/-- An empty buffer with its pointers at the first cell. -/
theorem stores_nil (mem : ℕ → α) : Stores depth ⟨mem, 0, 0, 0⟩ [] :=
  ⟨rfl, Nat.zero_mod depth, (Nat.zero_mod depth).symm⟩

section Cycle

variable {buffer : CircularBuffer α} {queue : BoundedQueue α depth}
  (hstores : buffer.Stores depth queue.entries)
include hstores

/-- What is pushed into a buffer with room goes behind the entries. -/
theorem Stores.filled (entry : α) {push : Bool}
    (hpush : push = true → (buffer.count == depth) = false) :
    (buffer.filled depth push entry).Stores depth
      (queue.entries ++ if push && !queue.isFull then [entry] else []) := by
  have hfull : queue.isFull = (buffer.count == depth) := by
    rw [hstores.count]
    rfl
  rw [CircularBuffer.filled, hfull]
  cases push with
  | false => exact (List.append_nil _).symm ▸ hstores
  | true =>
    have hroom := hpush rfl
    rw [bne, hroom]
    rw [beq_eq_false_iff_ne] at hroom
    have hle := queue.length_le
    have hcount := hstores.count
    exact hstores.pushed (by omega) entry

/-- A cycle that overfills no buffer and pops no empty one is that of the queue. -/
theorem Stores.next (flush : Bool) {push pop : Bool} (entry : α)
    (hpush : push = true → (buffer.count == depth) = false)
    (hpop : pop = true → (buffer.count == 0) = false) :
    (buffer.next depth flush push pop entry).Stores depth
      (queue.cycle flush push pop entry).entries := by
  have hfilled := hstores.filled entry hpush
  cases flush with
  | true => exact stores_nil _
  | false =>
    rw [BoundedQueue.entries_cycle, BoundedQueue.cycleEntries]
    cases pop with
    | false => exact hfilled
    | true =>
      have hsome := hpop rfl
      have hleft : buffer.next depth false push true entry =
          (buffer.filled depth push entry).popped depth := by
        rw [CircularBuffer.next, bne, hsome]
        rfl
      have hpos : 0 < queue.entries.length := by
        rw [← hstores.count, Nat.pos_iff_ne_zero]
        exact beq_eq_false_iff_ne.mp hsome
      -- The entry is pushed first, and what is popped is the head of the queue all the same.
      rw [hleft, if_pos rfl, ← List.tail_append_of_ne_nil (List.length_pos_iff.mp hpos)]
      refine hfilled.popped ?_
      rw [hfilled.count, List.length_append]
      omega

end Cycle

end CircularBuffer

variable {α : Type}

/-- A buffer in a memory of a given depth, with a read pointer, a write pointer and a counter. -/
def circularFifo (depth : ℕ) (initial : α) : Fifo α where
  State := CircularBuffer α
  reset := ⟨fun _ ↦ initial, 0, 0, 0⟩
  full buffer := buffer.count == depth
  empty buffer := buffer.count == 0
  dataOut buffer := buffer.mem buffer.readPointer
  next := CircularBuffer.next depth

/-- The circular buffer follows the queue of the entries that it stores. -/
theorem circularFifo_lawful (depth : ℕ) (initial : α) :
    (circularFifo depth initial).Lawful depth fun buffer queue ↦
      CircularBuffer.Stores depth buffer queue.entries where
  reset := CircularBuffer.stores_nil _
  full := fun {buffer queue} hstores ↦ by
    show ((buffer : CircularBuffer α).count == depth) = decide (queue.entries.length = depth)
    rw [hstores.count]
    rfl
  empty := fun {buffer queue} hstores ↦ by
    show ((buffer : CircularBuffer α).count == 0) = queue.entries.isEmpty
    rw [hstores.count]
    cases queue.entries <;> rfl
  dataOut := fun hstores _ hfirst ↦ hstores.head hfirst
  next := fun hstores flush _ _ entry hpush hpop ↦ hstores.next flush entry hpush hpop

end RiscvDebug.Foundations
