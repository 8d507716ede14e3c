import RiscvDebug.Foundations.BitVectors

/-!
# Groups of consecutive indices

The indices from `0` on fall into groups of one size, and the groups into groups of groups.
`SomeInGroup` says that some index of a group has a property. A word of one bit per group of a block
summarises the block: it is nonzero iff some index of the block has the property
(`Summarises.ne_zero_iff`), so a cascade of such words summarises groups of every level
(`packBits_summarises`).
-/

set_option autoImplicit false
set_option relaxedAutoImplicit false

namespace RiscvDebug.Foundations

/-- Some index of the group numbered `group`, among groups of `size` indices, has the property. -/
def SomeInGroup (size : ℕ) (property : ℕ → Prop) (group : ℕ) : Prop :=
  ∃ index, index / size = group ∧ property index

variable {size count width bound : ℕ} {property : ℕ → Prop}

@[simp] theorem someInGroup_one (group : ℕ) : SomeInGroup 1 property group ↔ property group := by
  simp [SomeInGroup]

/-- A group of `count` smaller groups has an index with the property iff one of these has. -/
theorem someInGroup_mul (hcount : 0 < count) (block : ℕ) :
    SomeInGroup (size * count) property block ↔
      ∃ part < count, SomeInGroup size property (count * block + part) := by
  constructor
  · rintro ⟨index, hblock, hproperty⟩
    rw [← Nat.div_div_eq_div_mul] at hblock
    refine ⟨index / size % count, Nat.mod_lt _ hcount, index, ?_, hproperty⟩
    rw [← hblock]
    exact (Nat.div_add_mod _ _).symm
  · rintro ⟨part, hpart, index, hgroup, hproperty⟩
    refine ⟨index, ?_, hproperty⟩
    rw [← Nat.div_div_eq_div_mul, hgroup, Nat.mul_add_div hcount, Nat.div_eq_of_lt hpart,
      Nat.add_zero]

/-- A group with an index below a bound starts below it. -/
theorem SomeInGroup.mul_lt {group : ℕ} (hbound : ∀ index, property index → index < bound)
    (hsome : SomeInGroup size property group) : size * group < bound := by
  obtain ⟨index, rfl, hproperty⟩ := hsome
  exact (Nat.mul_div_le index size).trans_lt (hbound index hproperty)

/-- The groups with an index below a bound are no more than cover the bound. -/
theorem SomeInGroup.lt_entries {group : ℕ} (hbound : ∀ index, property index → index < bound)
    (hsome : SomeInGroup size property group) : group < (bound - 1) / size + 1 := by
  obtain ⟨index, rfl, hproperty⟩ := hsome
  have hindex : index ≤ bound - 1 := by
    have hlt := hbound index hproperty
    omega
  exact Nat.lt_succ_of_le (Nat.div_le_div_right hindex)

/-! ### Words of one bit per group -/

/-- A word has a bit for each group of the block: it is set iff some index of the group has the
property. -/
def Summarises (size : ℕ) (property : ℕ → Prop) (block : ℕ) (word : BitVec width) : Prop :=
  ∀ part < width,
    word.getLsbD part = true ↔ SomeInGroup size property (width * block + part)

/-- A nonzero vector has a bit that is set. -/
theorem ne_zero_iff_getLsbD (word : BitVec width) :
    word ≠ 0 ↔ ∃ part < width, word.getLsbD part = true := by
  constructor
  · intro hword
    by_contra hnone
    push Not at hnone
    refine hword (BitVec.eq_of_getLsbD_eq fun part hpart ↦ ?_)
    have hclear := hnone part hpart
    simpa using hclear
  · rintro ⟨part, -, hset⟩ rfl
    simp at hset

/-- The disjunction of a summary's bits is the summary of the block. -/
theorem Summarises.ne_zero_iff {block : ℕ} {word : BitVec width} (hwidth : 0 < width)
    (hword : Summarises size property block word) :
    word ≠ 0 ↔ SomeInGroup (size * width) property block := by
  rw [ne_zero_iff_getLsbD, someInGroup_mul hwidth]
  constructor
  · rintro ⟨part, hpart, hset⟩
    exact ⟨part, hpart, (hword part hpart).mp hset⟩
  · rintro ⟨part, hpart, hsome⟩
    exact ⟨part, hpart, (hword part hpart).mpr hsome⟩

/-- A word packed from bits that summarise one group each is a summary of its block. -/
theorem packBits_summarises {bits : ℕ → Bool}
    (hbits : ∀ group, bits group = true ↔ SomeInGroup size property group) (block : ℕ) :
    Summarises size property block (packBits width fun part ↦ bits (width * block + part)) := by
  intro part hpart
  rw [getLsbD_packBits, decide_eq_true hpart, Bool.and_true]
  exact hbits _

end RiscvDebug.Foundations
