import RiscvDebug.Hart.CodeRuns

/-!
# Writes of the scratch registers

The code of a transfer uses the scratch registers to save s0 and a0. A command that writes one of
them puts the loaded value where the saved one is, and the value comes back into s0 or a0
(`writesDscratch0_corrupts`). `scratchWrite_keeps_iff` finds the writes of scratch registers after
which the integer registers are as before.
-/

set_option autoImplicit false
set_option relaxedAutoImplicit false

namespace RiscvDebug.Hart

open Foundations DmMem

variable {cfg : Config} {xlen flen : ℕ}

/-! ### Writes of control and status registers -/

section Writes

variable (hxlen : xlen = 32 ∨ xlen = 64) (haligned : cfg.dmBaseAddress.toNat % 4096 = 0)
  (e : Environment cfg xlen flen) {csr : BitVec 12} {size : BitVec 3}
  {start final : Machine cfg xlen flen}
include hxlen haligned

/-- The integer registers after a write of a control and status register: s0 takes what is in the
first scratch register, and a borrowed a0 what is in the second one. -/
theorem gprs_of_csrWrite
    (hgenerates : GeneratesTransfer cfg e.inputs.cmd (.csr csr) size true false)
    (hpc : start.pc = codeAddress cfg xlen 0) {fuel : ℕ} (hrun : e.run fuel start = .halted final) :
    ∃ value, e.load start size (dataAddress cfg xlen) = some value ∧
      ∀ number, final.gprs.read number =
        if number = 8 then if csr = csrDscratch0 then value else start.gprs.read 8
        else if number = 10 ∧ cfg.hasSndScratch = true then
          if csr = csrDscratch1 then value else start.gprs.read 10
        else start.gprs.read number := by
  have hexecuted := foldlM_of_halted hxlen haligned e hgenerates hpc hrun
  obtain ⟨pc, henter⟩ := foldlM_enter hxlen haligned e start hpc
  obtain ⟨pc', hmiddle⟩ := foldlM_throughS0_write_eq e (read_entered start pc) size csr
  have htransfer : transfer cfg (.csr csr) size true = throughS0 cfg csr size true := rfl
  have hload : e.load ((entered start).withPc pc) size (dataAddress cfg xlen) =
      e.load start size (dataAddress cfg xlen) := load_congr e (entered_data start) _ _
  rw [code, List.foldlM_append, List.foldlM_append, henter, htransfer] at hexecuted
  simp only [Option.bind_eq_bind, Option.bind_some, hmiddle, hload] at hexecuted
  cases hvalue : e.load start size (dataAddress cfg xlen) with
  | none => simp [hvalue] at hexecuted
  | some value =>
    refine ⟨value, rfl, fun number ↦ ?_⟩
    rw [hvalue, Option.map_some, Option.bind_some] at hexecuted
    obtain ⟨pc'', hleave⟩ := foldlM_leave e (((((entered start).withPc pc).setCsr csrDscratch0
      ((entered start).gprs.read 8)).setCsr csr value).setGpr 8
        (Function.update (Function.update (entered start).csrs csrDscratch0
          ((entered start).gprs.read 8)) csr value csrDscratch0) |>.withPc pc')
    have hfinal := Option.some_inj.mp (hexecuted.symm.trans hleave)
    have hs0 : (entered start).gprs.read 8 = start.gprs.read 8 :=
      entered_gprs_of_ne start fun hboth ↦ absurd hboth.2 (by decide)
    have hdistinct : csrDscratch1 ≠ csrDscratch0 := by decide
    have hfirst : Function.update (Function.update (entered start).csrs csrDscratch0
        ((entered start).gprs.read 8)) csr value csrDscratch0 =
          if csr = csrDscratch0 then value else start.gprs.read 8 := by
      simp only [Function.update_apply, hs0, if_true, eq_comm]
    have hsecond : Function.update (Function.update (entered start).csrs csrDscratch0
        ((entered start).gprs.read 8)) csr value csrDscratch1 =
          if csr = csrDscratch1 then value else (entered start).csrs csrDscratch1 := by
      simp only [Function.update_apply, hdistinct, if_false, eq_comm]
    rw [hfinal, left, hfirst]
    cases hscratch : cfg.hasSndScratch with
    | false =>
      simp only [Bool.false_eq_true, if_false, Machine.withPc_gprs, Machine.setGpr_gprs,
        Machine.setCsr_gprs, IntegerRegisters.read_write, entered, hscratch, and_false]
      by_cases hnumber : number = 8#5
      · simp [hnumber]
      · simp [hnumber]
    | true =>
      simp only [if_true, Machine.withPc_gprs, Machine.setGpr_gprs, Machine.withPc_csrs,
        Machine.setGpr_csrs, Machine.setCsr_gprs, Machine.setCsr_csrs, hsecond,
        IntegerRegisters.read_write, entered_saved start hscratch, and_true]
      by_cases hs0 : number = 8#5
      · simp [hs0]
      · by_cases ha0 : number = 10#5
        · simp [ha0]
        · simp [hs0, ha0, entered_gprs_of_ne start fun hboth ↦ ha0 hboth.2]

/-- A write of a scratch register keeps the integer registers exactly when the loaded value is the
one that the scratch register is about to hold: that of s0 in the first one, and that of a0 in the
second one when the code borrows a0. -/
theorem scratchWrite_keeps_iff
    (haccess : AccessesRegister cfg e.inputs.cmd (.csr csr) size true)
    (hpc : start.pc = codeAddress cfg xlen 0) {fuel : ℕ} (hrun : e.run fuel start = .halted final) :
    (∀ number, final.gprs.read number = start.gprs.read number) ↔
      (csr = csrDscratch0 →
          e.load start size (dataAddress cfg xlen) = some (start.gprs.read 8)) ∧
        (csr = csrDscratch1 → cfg.hasSndScratch = true →
          e.load start size (dataAddress cfg xlen) = some (start.gprs.read 10)) := by
  obtain ⟨value, hvalue, hgprs⟩ :=
    gprs_of_csrWrite hxlen haligned e haccess.generates hpc hrun
  rw [hvalue]
  constructor
  · intro hkept
    refine ⟨fun hcsr ↦ ?_, fun hcsr hscratch ↦ ?_⟩
    · rw [← hkept 8, hgprs, if_pos rfl, if_pos hcsr]
    · rw [← hkept 10, hgprs, if_neg (by decide), if_pos ⟨rfl, hscratch⟩, if_pos hcsr]
  · rintro ⟨hfirst, hsecond⟩ number
    rw [hgprs]
    split_ifs with hs0 hcsr ha0 hcsr
    · rw [hs0, Option.some_inj.mp (hfirst hcsr)]
    · rw [hs0]
    · rw [ha0.1, Option.some_inj.mp (hsecond hcsr ha0.2)]
    · rw [ha0.1]
    · rfl

end Writes

/-- The hart executes a write of the first scratch register with 64 bits. -/
def writesDscratch0 : Environment farModule 64 64 :=
  { writesA0 with inputs := { writesA0.inputs with cmd := Command.ofBits 0x003307b2 } }

/-- The hart as the ROM leaves it, with s0 and a0 in the scratch registers. -/
def savedHart : Machine farModule 64 64 :=
  { beforeA0 with csrs := fun csr ↦
      if csr = csrDscratch0 then 0x5678 else if csr = csrDscratch1 then 0x1234 else 0 }

/-- The registers a run halts with, and none for another end. -/
def Outcome.halted? : Outcome cfg xlen flen → Option (Machine cfg xlen flen)
  | .halted m => some m
  | _ => none

/-- After the write s0 holds the value that was meant for the scratch register. -/
theorem writesDscratch0_corrupts :
    AccessesRegister farModule writesDscratch0.inputs.cmd (.csr csrDscratch0) 3 true ∧
      savedHart.csrs csrDscratch0 = savedHart.gprs.read 8 ∧
      savedHart.csrs csrDscratch1 = savedHart.gprs.read 10 ∧
      savedHart.gprs.read 8 = 0x5678 ∧
      ((writesDscratch0.run 10 savedHart).halted?.map fun final ↦ final.gprs.read 8) =
        some 0x0123456789abcdef := by
  refine ⟨⟨by decide, by decide, by decide, by decide, by decide, by decide, by decide⟩, by decide,
    by decide, by decide, by decide +kernel⟩

theorem halted_of_halted? {outcome : Outcome cfg xlen flen}
    (hhalted : outcome.halted?.isSome = true) : ∃ final, outcome = .halted final := by
  cases outcome with
  | halted final => exact ⟨final, rfl⟩
  | trapped | stuck | unfinished => exact absurd hhalted Bool.false_ne_true

/-- A write of the first scratch register with the value of s0 is one that keeps the registers. -/
theorem writesSavedS0_keeps :
    ∃ final, writesDscratch0.run 10 { savedHart with data := #v[0x5678, 0] } = .halted final ∧
      ∀ number, final.gprs.read number = savedHart.gprs.read number := by
  have hhalts : (writesDscratch0.run 10 { savedHart with data := #v[0x5678, 0] }).halted?.isSome =
      true := by decide +kernel
  have haccess : AccessesRegister farModule writesDscratch0.inputs.cmd (.csr csrDscratch0) 3 true :=
    ⟨by decide, by decide, by decide, by decide, by decide, by decide, by decide⟩
  obtain ⟨final, hrun⟩ := halted_of_halted? hhalts
  refine ⟨final, hrun, (scratchWrite_keeps_iff (Or.inr rfl) (by decide) writesDscratch0 haccess rfl
    hrun).mpr ⟨fun _ ↦ ?_, fun hcsr ↦ absurd hcsr (by decide)⟩⟩
  decide +kernel

end RiscvDebug.Hart
