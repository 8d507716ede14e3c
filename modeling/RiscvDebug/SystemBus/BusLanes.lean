import RiscvDebug.DebugModule.DmSba
import RiscvDebug.Foundations.ByteMemory

/-!
# The lanes of a system bus access

An access of a size that fits the bus and at a multiple of its size stays inside one word of the
bus. The byte enables are its lanes (`getLsbD_beMask`), so a write stores the lowest bytes of the
data register (`writeWord_access`) and a read loads the bytes from the address on
(`byteAt_readWord_access`).
-/

set_option autoImplicit false
set_option relaxedAutoImplicit false

namespace RiscvDebug.DmSba

open Foundations

variable {cfg : Config}

/-! ### The width of the bus -/

/-- A word of the bus has `2 ^ beIdxWidth` bytes. -/
theorem eight_mul_two_pow (cfg : Config) : 8 * 2 ^ cfg.beIdxWidth = cfg.busWidth := by
  rw [Config.beIdxWidth]
  rcases cfg.busWidth_eq with hwidth | hwidth <;> rw [hwidth] <;> rfl

theorem beIdxWidth_eq (cfg : Config) :
    cfg.busWidth = 32 ∧ cfg.beIdxWidth = 2 ∨ cfg.busWidth = 64 ∧ cfg.beIdxWidth = 3 := by
  rw [Config.beIdxWidth]
  rcases cfg.busWidth_eq with hwidth | hwidth
  · exact Or.inl ⟨hwidth, by rw [hwidth]; rfl⟩
  · exact Or.inr ⟨hwidth, by rw [hwidth]; rfl⟩

theorem beIdxWidth_le_busWidth (cfg : Config) : cfg.beIdxWidth ≤ cfg.busWidth := by
  rcases beIdxWidth_eq cfg with ⟨hwidth, hlanes⟩ | ⟨hwidth, hlanes⟩ <;> omega

/-! ### Accesses -/

section Access

variable {i : Inputs cfg}

/-- An access of a size that fits the bus, at a multiple of its size. -/
structure Fits (i : Inputs cfg) : Prop where
  size : i.sbaccess.toNat ≤ cfg.beIdxWidth
  aligned : i.sbaddress.toNat % 2 ^ i.sbaccess.toNat = 0

/-- The low bits of a multiple of the size are zero. -/
theorem Fits.testBit_eq_false (hfits : Fits i) {index : ℕ} (hindex : index < i.sbaccess.toNat) :
    i.sbaddress.toNat.testBit index = false := by
  have hbit := Nat.testBit_mod_two_pow i.sbaddress.toNat i.sbaccess.toNat index
  rw [hfits.aligned, Nat.zero_testBit] at hbit
  simpa [hindex] using hbit.symm

/-- The bus master does not refuse it. -/
theorem Fits.errors (hfits : Fits i) : sizeError i = false ∧ alignError i = false := by
  refine ⟨decide_eq_false (not_lt.mpr hfits.size), ?_⟩
  rw [alignError, bne_eq_false_iff_eq]
  apply BitVec.eq_of_getLsbD_eq
  intro index hindex
  rw [sbaccessMask, BitVec.getLsbD_and, BitVec.getLsbD_not, BitVec.getLsbD_shiftLeft]
  by_cases hlow : index < i.sbaccess.toNat
  · rw [BitVec.getLsbD, hfits.testBit_eq_false hlow]
    simp
  · simp [hindex, hlow, show index - i.sbaccess.toNat < cfg.busWidth by omega]

/-- It stays inside one word. -/
theorem Fits.dvd_beIdx (hfits : Fits i) : 2 ^ i.sbaccess.toNat ∣ beIdx i := by
  have hsize : 2 ^ i.sbaccess.toNat ∣ 2 ^ cfg.beIdxWidth := pow_dvd_pow 2 hfits.size
  exact (Nat.dvd_mod_iff hsize).mpr (Nat.dvd_of_mod_eq_zero hfits.aligned)

theorem beIdx_lt (i : Inputs cfg) : beIdx i < 2 ^ cfg.beIdxWidth :=
  Nat.mod_lt _ (Nat.two_pow_pos cfg.beIdxWidth)

theorem Fits.lanes (hfits : Fits i) : beIdx i + 2 ^ i.sbaccess.toNat ≤ 2 ^ cfg.beIdxWidth := by
  obtain ⟨first, hfirst⟩ := hfits.dvd_beIdx
  obtain ⟨elements, helements⟩ : 2 ^ i.sbaccess.toNat ∣ 2 ^ cfg.beIdxWidth :=
    pow_dvd_pow 2 hfits.size
  have hlt := beIdx_lt i
  rw [hfirst, helements] at hlt ⊢
  rw [← Nat.mul_succ]
  exact Nat.mul_le_mul_left _ (Nat.lt_of_mul_lt_mul_left hlt)

/-- The lowest lane is that of the address. -/
theorem Fits.beIdxMasked (hfits : Fits i) : beIdxMasked i = beIdx i := by
  have hwidth := beIdxWidth_le_busWidth cfg
  apply Nat.eq_of_testBit_eq
  intro index
  rw [DmSba.beIdxMasked, Nat.testBit_and, Nat.testBit_mod_two_pow, sbaccessMask,
    BitVec.testBit_toNat, BitVec.getLsbD_shiftLeft, beIdx, Nat.testBit_mod_two_pow]
  by_cases hlow : index < i.sbaccess.toNat
  · rw [hfits.testBit_eq_false hlow]
    simp
  · by_cases hindex : index < cfg.beIdxWidth
    · simp [hindex, hlow, show index < cfg.busWidth by omega,
        show index - i.sbaccess.toNat < cfg.busWidth by omega]
    · simp [hindex]

/-- A row of ones, shifted to a lane. -/
theorem getLsbD_ones_shiftLeft (count first : ℕ) {lanes lane : ℕ} (hlane : lane < lanes) :
    (((2 ^ count - 1) <<< first : ℕ) : BitVec lanes).getLsbD lane =
      decide (first ≤ lane ∧ lane < first + count) := by
  rw [BitVec.natCast_eq_ofNat, BitVec.getLsbD_ofNat, Nat.testBit_shiftLeft,
    Nat.testBit_two_pow_sub_one]
  simp only [hlane, decide_true, Bool.true_and]
  rw [Bool.eq_iff_iff, Bool.and_eq_true, decide_eq_true_eq, decide_eq_true_eq, decide_eq_true_eq]
  omega

/-- The byte enables are the lanes of the access. -/
theorem Fits.getLsbD_beMask (hfits : Fits i) {lane : ℕ} (hlane : lane < 2 ^ cfg.beIdxWidth) :
    (beMask i).getLsbD lane =
      decide (beIdx i ≤ lane ∧ lane < beIdx i + 2 ^ i.sbaccess.toNat) := by
  have hbytes := eight_mul_two_pow cfg
  have hlt := beIdx_lt i
  have hlanes : lane < cfg.busWidth / 8 := by omega
  have hdvd := hfits.dvd_beIdx
  have hsize := hfits.size
  -- Only the smaller sizes shift their lanes; an access of the whole bus enables them all.
  have hall (hwhole : 2 ^ i.sbaccess.toNat = 2 ^ cfg.beIdxWidth) :
      (BitVec.allOnes (cfg.busWidth / 8)).getLsbD lane =
        decide (beIdx i ≤ lane ∧ lane < beIdx i + 2 ^ i.sbaccess.toNat) := by
    have hzero : beIdx i = 0 := Nat.eq_zero_of_dvd_of_lt hdvd (by omega)
    simp [hzero, hwhole, hlane, hlanes]
  have haccess : i.sbaccess = 0 ∨ i.sbaccess = 1 ∨ i.sbaccess = 2 ∨ i.sbaccess = 3 := by
    have hle : i.sbaccess.toNat ≤ 3 := by
      rcases beIdxWidth_eq cfg with ⟨-, hwidth⟩ | ⟨-, hwidth⟩ <;> omega
    revert hle
    generalize i.sbaccess = access
    revert access
    decide
  rw [beMask]
  rcases haccess with hzero | hone | htwo | hthree
  · rw [if_pos hzero, hzero]
    exact getLsbD_ones_shiftLeft 1 (beIdx i) hlanes
  · rw [hone] at hdvd
    have heven : beIdx i / 2 * 2 = beIdx i := Nat.div_mul_cancel hdvd
    rw [hone, if_neg (by decide), if_pos rfl, heven]
    exact getLsbD_ones_shiftLeft 2 (beIdx i) hlanes
  · rw [if_neg (by rw [htwo]; decide), if_neg (by rw [htwo]; decide), if_pos htwo]
    rcases beIdxWidth_eq cfg with ⟨hwidth, hindex⟩ | ⟨hwidth, hindex⟩
    · rw [if_neg (by omega)]
      exact hall (by rw [htwo, hindex]; rfl)
    · rw [htwo] at hdvd
      have hfour : beIdx i / 4 * 4 = beIdx i := Nat.div_mul_cancel hdvd
      rw [if_pos hwidth, hfour, htwo]
      exact getLsbD_ones_shiftLeft 4 (beIdx i) hlanes
  · rw [if_neg (by rw [hthree]; decide), if_neg (by rw [hthree]; decide),
      if_neg (by rw [hthree]; decide), if_pos hthree]
    refine hall ?_
    rcases beIdxWidth_eq cfg with ⟨-, hindex⟩ | ⟨-, hindex⟩
    · rw [hthree, hindex] at hsize
      exact absurd hsize (by decide)
    · rw [hthree, hindex]
      rfl

/-- A write stores the lowest bytes of the data register. -/
theorem Fits.writeWord_access (hfits : Fits i) (memory : ByteMemory cfg.busWidth) :
    writeWord cfg.beIdxWidth memory i.sbaddress (beMask i)
        (i.sbdata <<< (8 * DmSba.beIdxMasked i)) =
      storeBytes memory i.sbaddress (2 ^ i.sbaccess.toNat) i.sbdata := by
  have hlanes := hfits.lanes
  have hwidth := eight_mul_two_pow cfg
  refine writeWord_eq (beIdxWidth_le_busWidth cfg) hlanes memory
    (fun lane hlane ↦ hfits.getLsbD_beMask hlane) fun lane hlane ↦ ?_
  rw [hfits.beIdxMasked]
  exact byteAt_shiftLeft i.sbdata (beIdx i) (by omega)

/-- A read loads the bytes from the address on. -/
theorem Fits.byteAt_readWord_access (hfits : Fits i) (memory : ByteMemory cfg.busWidth) {lane : ℕ}
    (hlane : lane < 2 ^ i.sbaccess.toNat) :
    byteAt ((readWord cfg.beIdxWidth memory i.sbaddress : BitVec cfg.busWidth) >>>
        (8 * DmSba.beIdxMasked i)) lane =
      memory (i.sbaddress + BitVec.ofNat cfg.busWidth lane) := by
  rw [hfits.beIdxMasked]
  exact byteAt_readWord_shift hfits.lanes (eight_mul_two_pow cfg).le memory hlane

end Access

end RiscvDebug.DmSba
