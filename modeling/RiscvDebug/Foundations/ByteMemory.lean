import RiscvDebug.Foundations.BitVectors

/-!
# Byte-addressed memories

A memory is a byte for each address. Elements of a few bytes are stored one after the other
(`storeBlock`), with addresses that wrap around. A bus reaches the memory a word at a time, and
writes the lanes of the word that it enables; `writeWord_eq` and `byteAt_readWord_shift` say that an
access to the right lanes stores and loads an element.
-/

set_option autoImplicit false
set_option relaxedAutoImplicit false

namespace RiscvDebug.Foundations

/-- A byte for each address. -/
abbrev ByteMemory (addressWidth : ℕ) := BitVec addressWidth → BitVec 8

variable {addressWidth width : ℕ}

/-! ### Elements -/

/-- The memory with the lowest bytes of a value at an address. -/
def storeBytes (memory : ByteMemory addressWidth) (address : BitVec addressWidth) (count : ℕ)
    (value : BitVec width) : ByteMemory addressWidth :=
  fun x ↦
    if (x - address).toNat < count then byteAt value (x - address).toNat else memory x

/-- Only the bytes that are stored matter. -/
theorem storeBytes_congr {width' : ℕ} (memory : ByteMemory addressWidth)
    (address : BitVec addressWidth) {count : ℕ} {value : BitVec width} {value' : BitVec width'}
    (hbytes : ∀ lane < count, byteAt value lane = byteAt value' lane) :
    storeBytes memory address count value = storeBytes memory address count value' := by
  funext x
  unfold storeBytes
  split_ifs with hinside
  · exact hbytes _ hinside
  · rfl

/-- The memory with elements of a few bytes one after the other from an address on. -/
def storeBlock (count : ℕ) (memory : ByteMemory addressWidth) (address : BitVec addressWidth) :
    List (BitVec width) → ByteMemory addressWidth
  | [] => memory
  | value :: values =>
    storeBlock count (storeBytes memory address count value)
      (address + BitVec.ofNat addressWidth count) values

/-- Other bytes stay as they are. -/
theorem storeBlock_outside {count : ℕ} {memory : ByteMemory addressWidth}
    {address x : BitVec addressWidth} {values : List (BitVec width)}
    (houtside : ∀ index < count * values.length, x ≠ address + BitVec.ofNat addressWidth index) :
    storeBlock count memory address values x = memory x := by
  induction values generalizing memory address with
  | nil => rfl
  | cons value values ih =>
    rw [List.length_cons, Nat.mul_succ] at houtside
    rw [storeBlock, ih]
    · rw [storeBytes, if_neg]
      intro hinside
      refine houtside (x - address).toNat (by omega) ?_
      rw [BitVec.ofNat_toNat, BitVec.setWidth_eq, BitVec.add_comm, BitVec.sub_add_cancel]
    · intro index hindex heq
      refine houtside (count + index) (by omega) ?_
      rw [heq, BitVec.ofNat_add, BitVec.add_assoc]

/-- The bytes of the elements, when the block does not overlap itself. -/
theorem storeBlock_inside {count : ℕ} {memory : ByteMemory addressWidth}
    {address : BitVec addressWidth} {values : List (BitVec width)}
    (hfits : count * values.length ≤ 2 ^ addressWidth) {index lane : ℕ}
    (hindex : index < values.length) (hlane : lane < count) :
    storeBlock count memory address values
        (address + BitVec.ofNat addressWidth (count * index + lane)) =
      byteAt (values.get ⟨index, hindex⟩) lane := by
  induction values generalizing memory address index with
  | nil => exact absurd hindex (Nat.not_lt_zero index)
  | cons value values ih =>
    rw [List.length_cons, Nat.mul_succ] at hfits
    cases index with
    | zero =>
      rw [storeBlock, storeBlock_outside, Nat.mul_zero, Nat.zero_add, storeBytes]
      · have hoffset : (address + BitVec.ofNat addressWidth lane - address).toNat = lane := by
          rw [BitVec.add_comm, BitVec.add_sub_cancel, BitVec.toNat_ofNat,
            Nat.mod_eq_of_lt (by omega)]
        rw [hoffset, if_pos hlane]
        rfl
      · -- The elements after the first one do not come back to it.
        intro other hother heq
        rw [Nat.mul_zero, Nat.zero_add, BitVec.add_assoc, ← BitVec.ofNat_add] at heq
        have hsame := congrArg BitVec.toNat (BitVec.add_right_inj address |>.mp heq)
        rw [BitVec.toNat_ofNat, BitVec.toNat_ofNat, Nat.mod_eq_of_lt (by omega),
          Nat.mod_eq_of_lt (by omega)] at hsame
        omega
    | succ index =>
      have hnext : address + BitVec.ofNat addressWidth (count * (index + 1) + lane) =
          address + BitVec.ofNat addressWidth count +
            BitVec.ofNat addressWidth (count * index + lane) := by
        rw [BitVec.add_assoc, ← BitVec.ofNat_add]
        congr 2
        rw [Nat.mul_succ]
        omega
      rw [storeBlock, hnext, ih (by omega)]
      rfl

/-! ### Words -/

/-- The word of `2 ^ laneBits` bytes that holds an address. -/
def readWord (laneBits : ℕ) (memory : ByteMemory addressWidth) (address : BitVec addressWidth) :
    BitVec width :=
  packBits width fun bit ↦
    (memory (BitVec.ofNat addressWidth
      (2 ^ laneBits * (address.toNat / 2 ^ laneBits) + bit / 8))).getLsbD (bit % 8)

/-- The memory with the enabled bytes of the word that holds an address replaced. -/
def writeWord {lanes : ℕ} (laneBits : ℕ) (memory : ByteMemory addressWidth)
    (address : BitVec addressWidth) (enable : BitVec lanes) (word : BitVec width) :
    ByteMemory addressWidth :=
  fun x ↦
    if x.toNat / 2 ^ laneBits = address.toNat / 2 ^ laneBits ∧
        enable.getLsbD (x.toNat % 2 ^ laneBits) = true then
      byteAt word (x.toNat % 2 ^ laneBits)
    else memory x

theorem byteAt_readWord (laneBits : ℕ) (memory : ByteMemory addressWidth)
    (address : BitVec addressWidth) {lane : ℕ} (hlane : 8 * lane + 8 ≤ width) :
    byteAt (readWord laneBits memory address : BitVec width) lane =
      memory (BitVec.ofNat addressWidth
        (2 ^ laneBits * (address.toNat / 2 ^ laneBits) + lane)) := by
  apply BitVec.eq_of_getLsbD_eq
  intro index hindex
  rw [getLsbD_byteAt _ _ hindex, readWord, getLsbD_packBits]
  simp only [show 8 * lane + index < width by omega, decide_true, Bool.and_true]
  rw [show (8 * lane + index) / 8 = lane by omega, show (8 * lane + index) % 8 = index by omega]

theorem byteAt_ushiftRight (vector : BitVec width) (first lane : ℕ) :
    byteAt (vector >>> (8 * first)) lane = byteAt vector (first + lane) := by
  refine byteAt_ext fun index hindex ↦ ?_
  rw [BitVec.getLsbD_ushiftRight]
  congr 1
  omega

theorem byteAt_shiftLeft (vector : BitVec width) (first : ℕ) {lane : ℕ}
    (hlane : 8 * (first + lane) + 8 ≤ width) :
    byteAt (vector <<< (8 * first)) (first + lane) = byteAt vector lane := by
  refine byteAt_ext fun index hindex ↦ ?_
  rw [BitVec.getLsbD_shiftLeft]
  simp only [show 8 * (first + lane) + index < width by omega, decide_true, Bool.true_and,
    show ¬ 8 * (first + lane) + index < 8 * first by omega, decide_false, Bool.not_false]
  congr 1
  omega

section Lanes

variable {laneBits count : ℕ} {address : BitVec addressWidth}

/-- The addresses of an element inside a word. -/
theorem sub_toNat_lt_iff (hbits : laneBits ≤ addressWidth)
    (hfits : address.toNat % 2 ^ laneBits + count ≤ 2 ^ laneBits) (x : BitVec addressWidth) :
    ((x - address).toNat < count ↔ x.toNat / 2 ^ laneBits = address.toNat / 2 ^ laneBits ∧
      address.toNat % 2 ^ laneBits ≤ x.toNat % 2 ^ laneBits ∧
        x.toNat % 2 ^ laneBits < address.toNat % 2 ^ laneBits + count) ∧
    ((x - address).toNat < count →
      x.toNat % 2 ^ laneBits = address.toNat % 2 ^ laneBits + (x - address).toNat) := by
  have haddress := Nat.div_add_mod address.toNat (2 ^ laneBits)
  have hx := Nat.div_add_mod x.toNat (2 ^ laneBits)
  have haddressLt := address.isLt
  have hxLt := x.isLt
  -- The word of the address does not wrap around.
  have hword : 2 ^ laneBits * (address.toNat / 2 ^ laneBits) + 2 ^ laneBits ≤ 2 ^ addressWidth := by
    have hwords : 2 ^ addressWidth = 2 ^ laneBits * 2 ^ (addressWidth - laneBits) := by
      rw [← pow_add, Nat.add_sub_cancel' hbits]
    have hlt : address.toNat / 2 ^ laneBits < 2 ^ (addressWidth - laneBits) := by
      rw [Nat.div_lt_iff_lt_mul (Nat.two_pow_pos laneBits), Nat.mul_comm, ← hwords]
      exact haddressLt
    rw [hwords, ← Nat.mul_succ]
    exact Nat.mul_le_mul_left _ hlt
  by_cases hle : address.toNat ≤ x.toNat
  · have hoffset : (x - address).toNat = x.toNat - address.toNat := by
      rw [BitVec.toNat_sub,
        show 2 ^ addressWidth - address.toNat + x.toNat =
          x.toNat - address.toNat + 2 ^ addressWidth by omega,
        Nat.add_mod_right, Nat.mod_eq_of_lt (by omega)]
    have hsame : (x - address).toNat < count →
        x.toNat / 2 ^ laneBits = address.toNat / 2 ^ laneBits := by
      intro hlt
      refine Nat.div_eq_of_lt_le ?_ ?_
      · rw [Nat.mul_comm]
        omega
      · rw [Nat.mul_comm, Nat.mul_succ]
        omega
    refine ⟨⟨fun hlt ↦ ?_, ?_⟩, fun hlt ↦ ?_⟩
    · have hquotient := hsame hlt
      rw [hquotient] at hx
      exact ⟨hquotient, by omega, by omega⟩
    · rintro ⟨hquotient, hlow, hhigh⟩
      rw [hquotient] at hx
      omega
    · rw [hsame hlt] at hx
      omega
  · have hoffset : (x - address).toNat = 2 ^ addressWidth - address.toNat + x.toNat := by
      rw [BitVec.toNat_sub, Nat.mod_eq_of_lt (by omega)]
    refine ⟨⟨fun hlt ↦ ?_, ?_⟩, fun hlt ↦ ?_⟩
    · omega
    · rintro ⟨hquotient, hlow, hhigh⟩
      rw [hquotient] at hx
      omega
    · omega

/-- Enabling the lanes of an element stores it. -/
theorem writeWord_eq {lanes width' : ℕ} (hbits : laneBits ≤ addressWidth)
    (hfits : address.toNat % 2 ^ laneBits + count ≤ 2 ^ laneBits)
    (memory : ByteMemory addressWidth) {enable : BitVec lanes} {word : BitVec width}
    {value : BitVec width'}
    (henable : ∀ lane < 2 ^ laneBits, enable.getLsbD lane =
      decide (address.toNat % 2 ^ laneBits ≤ lane ∧
        lane < address.toNat % 2 ^ laneBits + count))
    (hword : ∀ lane < count,
      byteAt word (address.toNat % 2 ^ laneBits + lane) = byteAt value lane) :
    writeWord laneBits memory address enable word = storeBytes memory address count value := by
  funext x
  obtain ⟨hinside, hlane⟩ := sub_toNat_lt_iff hbits hfits x
  have hbound : x.toNat % 2 ^ laneBits < 2 ^ laneBits := Nat.mod_lt _ (Nat.two_pow_pos laneBits)
  unfold writeWord storeBytes
  rw [henable _ hbound]
  by_cases hoffset : (x - address).toNat < count
  · rw [if_pos hoffset, if_pos ⟨(hinside.mp hoffset).1, decide_eq_true (hinside.mp hoffset).2⟩,
      hlane hoffset, hword _ hoffset]
  · rw [if_neg hoffset, if_neg]
    rintro ⟨hsame, hlanes⟩
    exact hoffset (hinside.mpr ⟨hsame, of_decide_eq_true hlanes⟩)

/-- A word shifted to the lane of its address shows the bytes from the address on. -/
theorem byteAt_readWord_shift (hfits : address.toNat % 2 ^ laneBits + count ≤ 2 ^ laneBits)
    (hwidth : 8 * 2 ^ laneBits ≤ width) (memory : ByteMemory addressWidth) {lane : ℕ}
    (hlane : lane < count) :
    byteAt ((readWord laneBits memory address : BitVec width) >>>
        (8 * (address.toNat % 2 ^ laneBits))) lane =
      memory (address + BitVec.ofNat addressWidth lane) := by
  rw [byteAt_ushiftRight, byteAt_readWord _ _ _ (by omega), ← Nat.add_assoc,
    Nat.div_add_mod, BitVec.ofNat_add, BitVec.ofNat_toNat, BitVec.setWidth_eq]

end Lanes

end RiscvDebug.Foundations
