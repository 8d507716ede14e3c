import Mathlib.Data.List.DropRight

/-!
# Shift registers

A word as the stream of its bits, the lowest first (`bitsOf`). Shifting a bit in at the top hands on
the lowest bit (`bitsOf_shift`), so a shift register is a queue of constant length. Whatever a queue
of constant length is given, what has left it and what it holds are the two ends of one stream
(`ends_of_constant_length`).
-/

set_option autoImplicit false
set_option relaxedAutoImplicit false

namespace RiscvDebug.Foundations

/-! ### Words -/

section Words

variable {width : ℕ}

/-- The bits of a word, the lowest first. -/
def bitsOf {width : ℕ} (word : BitVec width) : List Bool := (List.range width).map word.getLsbD

@[simp] theorem length_bitsOf (word : BitVec width) : (bitsOf word).length = width := by
  rw [bitsOf, List.length_map, List.length_range]

/-- A word is determined by its stream of bits. -/
theorem bitsOf_inj {word word' : BitVec width} (hbits : bitsOf word = bitsOf word') :
    word = word' := by
  apply BitVec.eq_of_getLsbD_eq
  intro index hindex
  exact List.map_inj_left.mp hbits index (List.mem_range.mpr hindex)

/-- A shift takes a bit in at the top and hands on the lowest bit. -/
theorem bitsOf_shift (word : BitVec (1 + width)) (bit : Bool) :
    bitsOf word ++ [bit] =
      word.getLsbD 0 :: bitsOf (BitVec.ofBool bit ++ word.extractLsb' 1 width) := by
  have hkept : ∀ index ∈ List.range width,
      (BitVec.ofBool bit ++ word.extractLsb' 1 width).getLsbD index = word.getLsbD (index + 1) := by
    intro index hindex
    rw [List.mem_range] at hindex
    rw [BitVec.getLsbD_append, if_pos hindex, BitVec.getLsbD_extractLsb', decide_eq_true hindex,
      Bool.true_and]
    exact congrArg word.getLsbD (Nat.add_comm 1 index)
  have htop : (BitVec.ofBool bit ++ word.extractLsb' 1 width).getLsbD width = bit := by
    rw [BitVec.getLsbD_append, if_neg (lt_irrefl width), Nat.sub_self, BitVec.getLsbD_ofBool]
    exact Bool.true_and bit
  have hrange : List.range (1 + width) = List.range (width + 1) :=
    congrArg List.range (Nat.add_comm 1 width)
  calc bitsOf word ++ [bit]
      = word.getLsbD 0 :: (List.range width).map (fun index ↦ word.getLsbD (index + 1)) ++
        [bit] := by
        rw [bitsOf, hrange, List.range_succ_eq_map, List.map_cons, List.map_map]
        rfl
    _ = word.getLsbD 0 :: bitsOf (BitVec.ofBool bit ++ word.extractLsb' 1 width) := by
        rw [bitsOf, hrange, List.range_succ, List.map_append, List.map_congr_left hkept,
          List.map_singleton, htop]
        rfl

end Words

/-! ### Queues of constant length -/

section Queues

variable {α : Type*} {first entered left last : List α}

theorem rtake_left (first last : List α) : (first ++ last).rtake last.length = last := by
  rw [List.rtake.eq_1, List.length_append, Nat.add_sub_cancel, List.drop_left]

/-- What has left a queue of constant length is the front of its stream, and what it holds is the
back. -/
theorem ends_of_constant_length (hstream : first ++ entered = left ++ last)
    (hlength : last.length = first.length) :
    left = (first ++ entered).take entered.length ∧
      last = (first ++ entered).rtake first.length := by
  have hleft : left.length = entered.length := by
    have htotal := congrArg List.length hstream
    simp only [List.length_append] at htotal
    omega
  rw [hstream, ← hleft, ← hlength]
  exact ⟨List.take_left.symm, (rtake_left left last).symm⟩

end Queues

end RiscvDebug.Foundations
