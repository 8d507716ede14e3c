import Mathlib

/-!
# Bits, fields and ceilings of logarithms

Small facts on bit vectors that hardware descriptions need: the vector with one bit replaced
(`setBit`), the vector packed from a family of bits (`packBits`), the number of bits that index a
range (`clog2`), and the bytes of a vector (`byteAt`, `setByte`).
-/

set_option autoImplicit false
set_option relaxedAutoImplicit false

namespace RiscvDebug.Foundations

/-- The number of bits needed to index `count` entries, `$clog2` of the hardware languages. -/
def clog2 (count : ℕ) : ℕ :=
  if count ≤ 1 then 0 else (count - 1).log2 + 1

/-- Every index below `count` fits in `clog2 count` bits. -/
theorem le_two_pow_clog2 (count : ℕ) : count ≤ 2 ^ clog2 count := by
  unfold clog2
  split_ifs with hcount
  · simpa using hcount
  · have hlog := @Nat.lt_log2_self (count - 1)
    omega

/-- A count bounded by a power of two needs no more bits than its exponent. -/
theorem clog2_le_of_le_two_pow {count width : ℕ} (hcount : count ≤ 2 ^ width) :
    clog2 count ≤ width := by
  unfold clog2
  split_ifs with hsmall
  · exact Nat.zero_le width
  · have hpos : count - 1 ≠ 0 := by omega
    have hlog : (count - 1).log2 < width := (Nat.log2_lt hpos).mpr (by omega)
    omega

variable {width : ℕ}

/-- The vector with bit `index` replaced; nothing changes when the index is outside it. -/
def setBit (vector : BitVec width) (index : ℕ) (value : Bool) : BitVec width :=
  if value then vector ||| BitVec.twoPow width index
  else vector &&& ~~~ BitVec.twoPow width index

@[simp] theorem getLsbD_setBit (vector : BitVec width) (index other : ℕ) (value : Bool) :
    (setBit vector index value).getLsbD other =
      if other = index then (value && decide (index < width)) else vector.getLsbD other := by
  by_cases hwidth : other < width
  · unfold setBit
    by_cases hother : other = index
    · subst hother
      cases value <;> simp [hwidth]
    · cases value <;> simp [hother, hwidth]
  · have hwide : width ≤ other := not_lt.mp hwidth
    rw [BitVec.getLsbD_of_ge _ _ hwide, BitVec.getLsbD_of_ge _ _ hwide]
    split_ifs with hother
    · simp [← hother, hwidth]
    · rfl

@[simp] theorem getElem_setBit (vector : BitVec width) (index other : ℕ) (value : Bool)
    (hother : other < width) :
    (setBit vector index value)[other] = if other = index then value else vector[other] := by
  have hbit := getLsbD_setBit vector index other value
  simp only [BitVec.getLsbD_eq_getElem hother] at hbit
  rw [hbit]
  split_ifs with hindex
  · simp [← hindex, hother]
  · rfl

/-- The vector whose bits are listed by a family, least significant first. -/
def packBits (width : ℕ) (bits : ℕ → Bool) : BitVec width :=
  (List.range width).foldl (fun vector index ↦ setBit vector index (bits index)) 0

theorem getLsbD_foldl_setBit (bits : ℕ → Bool) (count : ℕ) (hcount : count ≤ width) (index : ℕ) :
    ((List.range count).foldl (fun vector index ↦ setBit vector index (bits index))
      (0 : BitVec width)).getLsbD index = (bits index && decide (index < count)) := by
  induction count with
  | zero => simp
  | succ count ih =>
    rw [List.range_succ, List.foldl_append]
    simp only [List.foldl_cons, List.foldl_nil, getLsbD_setBit, ih (by omega)]
    by_cases hindex : index = count
    · subst hindex
      simp [show index < width by omega]
    · simp only [if_neg hindex]
      congr 1
      exact decide_eq_decide.mpr (by omega)

@[simp] theorem getLsbD_packBits (width : ℕ) (bits : ℕ → Bool) (index : ℕ) :
    (packBits width bits).getLsbD index = (bits index && decide (index < width)) :=
  getLsbD_foldl_setBit bits width le_rfl index

/-! ### Bytes -/

/-- The byte in a lane of the vector. -/
def byteAt (vector : BitVec width) (lane : ℕ) : BitVec 8 := vector.extractLsb' (8 * lane) 8

theorem getLsbD_byteAt (vector : BitVec width) (lane : ℕ) {index : ℕ} (hindex : index < 8) :
    (byteAt vector lane).getLsbD index = vector.getLsbD (8 * lane + index) := by
  simp [byteAt, hindex]

/-- Two bytes with the same bits are equal. -/
theorem byteAt_ext {width' : ℕ} {vector : BitVec width} {vector' : BitVec width'} {lane lane' : ℕ}
    (hbits : ∀ index < 8, vector.getLsbD (8 * lane + index) = vector'.getLsbD (8 * lane' + index)) :
    byteAt vector lane = byteAt vector' lane' := by
  apply BitVec.eq_of_getLsbD_eq
  intro index hindex
  rw [getLsbD_byteAt _ _ hindex, getLsbD_byteAt _ _ hindex]
  exact hbits index hindex

/-- Vectors with the same bytes are equal. -/
theorem eq_of_byteAt {vector vector' : BitVec width}
    (hbytes : ∀ lane, 8 * lane < width → byteAt vector lane = byteAt vector' lane) :
    vector = vector' := by
  refine BitVec.eq_of_getLsbD_eq fun index hindex ↦ ?_
  have hbyte := congrArg (fun byte ↦ byte.getLsbD (index % 8)) (hbytes (index / 8) (by omega))
  simpa only [getLsbD_byteAt _ _ (Nat.mod_lt index (by decide)), Nat.div_add_mod] using hbyte

@[simp] theorem byteAt_zero (lane : ℕ) : byteAt (0 : BitVec width) lane = 0 := by
  apply BitVec.eq_of_getLsbD_eq
  intro index hindex
  rw [getLsbD_byteAt _ _ hindex]
  simp

/-- Changing the width keeps the bytes that fit in both widths. -/
theorem byteAt_setWidth (vector : BitVec width) (width' : ℕ) {lane : ℕ}
    (hlane : 8 * lane + 8 ≤ width') :
    byteAt (vector.setWidth width') lane = byteAt vector lane := by
  refine byteAt_ext fun index hindex ↦ ?_
  rw [BitVec.getLsbD_setWidth]
  simp [show 8 * lane + index < width' by omega]

/-- The bytes of a part of the vector that starts at a byte lane. -/
theorem byteAt_extractLsb' (vector : BitVec width) (first lane count : ℕ)
    (hlane : 8 * lane + 8 ≤ count) :
    byteAt (vector.extractLsb' (8 * first) count) lane = byteAt vector (first + lane) := by
  refine byteAt_ext fun index hindex ↦ ?_
  rw [BitVec.getLsbD_extractLsb']
  simp only [show 8 * lane + index < count by omega, decide_true, Bool.true_and]
  congr 1
  omega

/-- A single byte shifted into a lane shows in this lane only. -/
theorem byteAt_shiftLeft_setWidth (byte : BitVec 8) {first lane : ℕ}
    (hlane : 8 * lane + 8 ≤ width) :
    byteAt (byte.setWidth width <<< (8 * first)) lane = if lane = first then byte else 0 := by
  apply BitVec.eq_of_getLsbD_eq
  intro index hindex
  rw [getLsbD_byteAt _ _ hindex, BitVec.getLsbD_shiftLeft, BitVec.getLsbD_setWidth]
  rcases lt_trichotomy lane first with hbelow | rfl | habove
  · simp [hbelow.ne, show 8 * lane + index < 8 * first by omega]
  · simp [show 8 * lane + index < width by omega, show index < width by omega]
  · have hbeyond : byte.getLsbD (8 * lane + index - 8 * first) = false :=
      BitVec.getLsbD_of_ge _ _ (by omega)
    simp [habove.ne', hbeyond]

/-- The vector with byte `lane` replaced. -/
def setByte (vector : BitVec width) (lane : ℕ) (byte : BitVec 8) : BitVec width :=
  vector &&& ~~~ ((BitVec.allOnes 8).setWidth width <<< (8 * lane)) |||
    byte.setWidth width <<< (8 * lane)

theorem byteAt_and (vector other : BitVec width) (lane : ℕ) :
    byteAt (vector &&& other) lane = byteAt vector lane &&& byteAt other lane :=
  BitVec.extractLsb'_and

theorem byteAt_or (vector other : BitVec width) (lane : ℕ) :
    byteAt (vector ||| other) lane = byteAt vector lane ||| byteAt other lane :=
  BitVec.extractLsb'_or

theorem byteAt_not (vector : BitVec width) {lane : ℕ} (hlane : 8 * lane + 8 ≤ width) :
    byteAt (~~~ vector) lane = ~~~ byteAt vector lane := by
  apply BitVec.eq_of_getLsbD_eq
  intro index hindex
  rw [getLsbD_byteAt _ _ hindex, BitVec.getLsbD_not, BitVec.getLsbD_not,
    getLsbD_byteAt _ _ hindex]
  simp [hindex, show 8 * lane + index < width by omega]

/-- A replaced byte shows in its lane only. -/
theorem byteAt_setByte (vector : BitVec width) (byte : BitVec 8) {lane other : ℕ}
    (hother : 8 * other + 8 ≤ width) :
    byteAt (setByte vector lane byte) other =
      if other = lane then byte else byteAt vector other := by
  unfold setByte
  rw [byteAt_or, byteAt_and, byteAt_not _ hother, byteAt_shiftLeft_setWidth _ hother,
    byteAt_shiftLeft_setWidth _ hother]
  split_ifs
  · simp
  · have hones : ~~~ (0 : BitVec 8) = BitVec.allOnes 8 := rfl
    rw [hones, BitVec.and_allOnes]
    exact BitVec.or_zero

end RiscvDebug.Foundations
