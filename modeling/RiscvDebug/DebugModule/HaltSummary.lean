import RiscvDebug.Package

/-!
# Halt summaries

The registers `haltsum0` to `haltsum3` of `dm_csrs`: the halted bits of one block of 32 harts, and
three reductions over blocks of 32, 1024 and 32768 harts. An index that the source leaves outside
its array reads zero here.
-/

set_option autoImplicit false
set_option relaxedAutoImplicit false

namespace RiscvDebug.HaltSummary

open Foundations

variable (cfg : Config) (halted : BitVec cfg.nrHarts) (hartsel : BitVec 20)

/-- `halted_reshaped0`, the halted bits of one block of 32 harts. -/
def haltedReshaped0 (block : ℕ) : BitVec 32 :=
  if block < (cfg.nrHarts - 1) / 2 ^ 5 + 1 then halted.extractLsb' (32 * block) 32 else 0

/-- `haltsum0`. -/
def haltsum0 : BitVec 32 :=
  let hartselIdx0 := (hartsel.extractLsb' 5 15).toNat
  if hartselIdx0 < ((cfg.nrHarts - 1) / 2 ^ 5 + 1) % 2 ^ 15 then
    haltedReshaped0 cfg halted hartselIdx0
  else 0

/-- `halted_flat1`, whether some hart of a block of 32 is halted. -/
def haltedFlat1 (block : ℕ) : Bool :=
  decide (block < (cfg.nrHarts - 1) / 2 ^ 5 + 1) && haltedReshaped0 cfg halted block != 0

/-- `halted_reshaped1`. -/
def haltedReshaped1 (block : ℕ) : BitVec 32 :=
  if block < (cfg.nrHarts - 1) / 2 ^ 10 + 1 then
    packBits 32 fun index ↦ haltedFlat1 cfg halted (32 * block + index)
  else 0

/-- `haltsum1`. -/
def haltsum1 : BitVec 32 :=
  let hartselIdx1 := (hartsel.extractLsb' 10 10).toNat
  if hartselIdx1 < ((cfg.nrHarts - 1) / 2 ^ 10 + 1) % 2 ^ 10 then
    haltedReshaped1 cfg halted hartselIdx1
  else 0

/-- `halted_flat2`, whether some hart of a block of 1024 is halted. -/
def haltedFlat2 (block : ℕ) : Bool :=
  decide (block < (cfg.nrHarts - 1) / 2 ^ 10 + 1) && haltedReshaped1 cfg halted block != 0

/-- `halted_reshaped2`. -/
def haltedReshaped2 (block : ℕ) : BitVec 32 :=
  if block < (cfg.nrHarts - 1) / 2 ^ 15 + 1 then
    packBits 32 fun index ↦ haltedFlat2 cfg halted (32 * block + index)
  else 0

/-- `haltsum2`. -/
def haltsum2 : BitVec 32 :=
  let hartselIdx2 := (hartsel.extractLsb' 15 5).toNat
  if hartselIdx2 < ((cfg.nrHarts - 1) / 2 ^ 15 + 1) % 2 ^ 5 then
    haltedReshaped2 cfg halted hartselIdx2
  else 0

/-- `haltsum3`. The reduction loops over one block more than there is when the number of harts is
a multiple of 32768. -/
def haltsum3 : BitVec 32 :=
  packBits 32 fun block ↦
    decide (block < cfg.nrHarts / 2 ^ 15 + 1) && haltedReshaped2 cfg halted block != 0

/-! ### Array accesses -/

/-- The number of entries of an array that has one for each group of `size` harts. -/
def entries (size : ℕ) : ℕ := (cfg.nrHarts - 1) / size + 1

/-- An index into an array of `length` entries. -/
structure ArrayAccess where
  length : ℕ
  index : ℕ
deriving DecidableEq, Repr

/-- The accesses of a loop that reduces the first `count` entries of one array into another. -/
def reductionAccesses (count target source : ℕ) : List ArrayAccess :=
  (List.range count).flatMap fun index ↦ [⟨target, index⟩, ⟨source, index⟩]

/-- The access of a selection that a bound guards. -/
def selectionAccesses (bound length index : ℕ) : List ArrayAccess :=
  if index < bound then [⟨length, index⟩] else []

/-- The accesses of `p_haltsum0`: the highest bit of `halted` and `halted_reshaped0`. -/
def pHaltsum0Accesses : List ArrayAccess :=
  ⟨entries cfg (2 ^ 5) * 32, cfg.nrHarts - 1⟩ ::
    selectionAccesses (entries cfg (2 ^ 5) % 2 ^ 15) (entries cfg (2 ^ 5))
      (hartsel.extractLsb' 5 15).toNat

/-- The accesses of `p_reduction1`: `halted_flat1`, `halted_reshaped0` and `halted_reshaped1`. -/
def pReduction1Accesses : List ArrayAccess :=
  reductionAccesses (entries cfg (2 ^ 5)) (entries cfg (2 ^ 10) * 32) (entries cfg (2 ^ 5)) ++
    selectionAccesses (entries cfg (2 ^ 10) % 2 ^ 10) (entries cfg (2 ^ 10))
      (hartsel.extractLsb' 10 10).toNat

/-- The accesses of `p_reduction2`: `halted_flat2`, `halted_reshaped1` and `halted_reshaped2`. -/
def pReduction2Accesses : List ArrayAccess :=
  reductionAccesses (entries cfg (2 ^ 10)) (entries cfg (2 ^ 15) * 32) (entries cfg (2 ^ 10)) ++
    selectionAccesses (entries cfg (2 ^ 15) % 2 ^ 5) (entries cfg (2 ^ 15))
      (hartsel.extractLsb' 15 5).toNat

/-- The accesses of `p_reduction3`, whose loop bound is not that of the other loops:
`halted_flat3` and `halted_reshaped2`. -/
def pReduction3Accesses : List ArrayAccess :=
  reductionAccesses (cfg.nrHarts / 2 ^ 15 + 1) 32 (entries cfg (2 ^ 15))

/-- The accesses of the four processes. -/
def arrayAccesses : List ArrayAccess :=
  pHaltsum0Accesses cfg hartsel ++ pReduction1Accesses cfg hartsel ++
    pReduction2Accesses cfg hartsel ++ pReduction3Accesses cfg

end RiscvDebug.HaltSummary
