import RiscvDebug.Hart.CodeRuns
import RiscvDebug.Hart.ExceptionReturn

/-!
# Transfers that trap

The access to the register a command names may trap. The instructions before it change only the
registers that the code borrows, and those are in the scratch registers (`recoverable_take`), so
that the handler brings all of them back (`Recoverable.restored_gprs`).
-/

set_option autoImplicit false
set_option relaxedAutoImplicit false

namespace RiscvDebug.Hart

open Foundations DmMem

variable {cfg : Config} {xlen flen : ℕ}

/-! ### The access -/

/-- The position of the instruction that accesses the named register, and for a borrowed a0 of the
one that accesses the scratch register with its value. -/
def accessPosition (cfg : Config) (name : RegisterName) (write : Bool) : ℕ :=
  match name with
  | .gpr number => if cfg.hasSndScratch ∧ number = 10 then if write then 6 else 5 else 4
  | .fpr _ => 4
  | .csr _ => if write then 6 else 5

theorem length_enter (cfg : Config) : (enter cfg).length = 4 := by
  unfold enter
  split_ifs <;> rfl

/-! ### What the handler brings back -/

/-- The registers that the handler does not bring back are as at the start, and the scratch
registers hold those that it does. -/
structure Recoverable (start m : Machine cfg xlen flen) : Prop where
  gprs : ∀ number, number ≠ 8 → ¬ (cfg.hasSndScratch = true ∧ number = 10) →
    m.gprs.read number = start.gprs.read number
  dscratch0 : m.csrs csrDscratch0 = start.gprs.read 8
  dscratch1 : cfg.hasSndScratch = true → m.csrs csrDscratch1 = start.gprs.read 10
  fprs : m.fprs = start.fprs
  csrs : ∀ csr, csr ≠ csrDscratch0 → csr ≠ csrDscratch1 → m.csrs csr = start.csrs csr
  data : m.data = start.data

theorem restored_csrs (m : Machine cfg xlen flen) : (restored m).csrs = m.csrs := by
  rw [restored, Machine.setGpr_csrs, left_csrs]

namespace Recoverable

variable {start m after : Machine cfg xlen flen}

theorem restored_gprs (hm : Recoverable start m) (number : BitVec 5) :
    (restored m).gprs.read number = start.gprs.read number := by
  rw [restored, Machine.setGpr_gprs, hm.dscratch0]
  by_cases hs0 : number = 8
  · rw [hs0]
    exact IntegerRegisters.read_write_self _ _ (by decide)
  · rw [IntegerRegisters.read_write_of_ne _ _ hs0, left]
    split_ifs with hscratch
    · rw [Machine.setGpr_gprs, hm.dscratch1 hscratch]
      by_cases ha0 : number = 10
      · rw [ha0]
        exact IntegerRegisters.read_write_self _ _ (by decide)
      · rw [IntegerRegisters.read_write_of_ne _ _ ha0]
        exact hm.gprs number hs0 fun hboth ↦ ha0 hboth.2
    · exact hm.gprs number hs0 fun hboth ↦ hscratch hboth.1

theorem withPc (hm : Recoverable start m) (pc : BitVec xlen) : Recoverable start (m.withPc pc) :=
  ⟨hm.gprs, hm.dscratch0, hm.dscratch1, hm.fprs, hm.csrs, hm.data⟩

/-- A write of a borrowed register. -/
theorem setGpr (hm : Recoverable start m) {rd : BitVec 5}
    (hrd : rd = 0 ∨ rd = 8 ∨ cfg.hasSndScratch = true ∧ rd = 10) (value : BitVec xlen) :
    Recoverable start (m.setGpr rd value) where
  gprs := by
    intro number hs0 ha0
    rw [Machine.setGpr_gprs]
    rcases hrd with rfl | rfl | ⟨hscratch, rfl⟩
    · have hzero : m.gprs.write 0 value = m.gprs := IntegerRegisters.write_zero _ _
      rw [hzero]
      exact hm.gprs number hs0 ha0
    · rw [IntegerRegisters.read_write_of_ne _ _ hs0]
      exact hm.gprs number hs0 ha0
    · rw [IntegerRegisters.read_write_of_ne _ _ fun heq ↦ ha0 ⟨hscratch, heq⟩]
      exact hm.gprs number hs0 ha0
  dscratch0 := hm.dscratch0
  dscratch1 := hm.dscratch1
  fprs := hm.fprs
  csrs := hm.csrs
  data := hm.data

/-- Saving s0 again changes nothing that is brought back. -/
theorem save_s0 (hm : Recoverable start m) (hs0 : m.gprs.read 8 = start.gprs.read 8) :
    Recoverable start (m.setCsr csrDscratch0 (m.gprs.read 8)) where
  gprs := hm.gprs
  dscratch0 := by rw [Machine.setCsr_csrs, Function.update_self, hs0]
  dscratch1 := by
    intro hscratch
    rw [Machine.setCsr_csrs, Function.update_of_ne (by decide)]
    exact hm.dscratch1 hscratch
  fprs := hm.fprs
  csrs := by
    intro csr hfirst hsecond
    rw [Machine.setCsr_csrs, Function.update_of_ne hfirst]
    exact hm.csrs csr hfirst hsecond
  data := hm.data

/-- Saving a0 again changes nothing that is brought back. -/
theorem save_a0 (hm : Recoverable start m) (ha0 : m.gprs.read 10 = start.gprs.read 10) :
    Recoverable start (m.setCsr csrDscratch1 (m.gprs.read 10)) where
  gprs := hm.gprs
  dscratch0 := by
    rw [Machine.setCsr_csrs, Function.update_of_ne (by decide)]
    exact hm.dscratch0
  dscratch1 := fun _ ↦ by rw [Machine.setCsr_csrs, Function.update_self, ha0]
  fprs := hm.fprs
  csrs := by
    intro csr hfirst hsecond
    rw [Machine.setCsr_csrs, Function.update_of_ne hsecond]
    exact hm.csrs csr hfirst hsecond
  data := hm.data

end Recoverable

/-! ### The code up to the access -/

/-- The instructions that write a borrowed register and nothing else. -/
def Instruction.borrows (cfg : Config) : Instruction → Prop
  | .addi rd _ _ | .slli rd _ _ | .srli rd _ _ | .auipc rd _ | .load _ rd _ _ =>
    rd = 0 ∨ rd = 8 ∨ cfg.hasSndScratch = true ∧ rd = 10
  | _ => False

section Access

variable (e : Environment cfg xlen flen) {start m after : Machine cfg xlen flen}

theorem Recoverable.execute (hm : Recoverable start m) {instruction : Instruction}
    (hborrows : instruction.borrows cfg) (hexecute : e.execute m instruction = some after) :
    Recoverable start after := by
  cases instruction with
  | addi rd | auipc rd =>
    rw [← Option.some_inj.mp hexecute]
    exact (hm.setGpr hborrows _).withPc _
  | slli rd | srli rd =>
    simp only [Environment.execute] at hexecute
    split_ifs at hexecute
    rw [← Option.some_inj.mp hexecute]
    exact (hm.setGpr hborrows _).withPc _
  | load size rd =>
    simp only [Environment.execute, Option.map_eq_some_iff] at hexecute
    obtain ⟨value, -, rfl⟩ := hexecute
    exact (hm.setGpr hborrows _).withPc _
  | _ => exact hborrows.elim

theorem Recoverable.foldlM {instructions : List Instruction} (hm : Recoverable start m)
    (hborrows : ∀ instruction ∈ instructions, instruction.borrows cfg)
    (hexecute : instructions.foldlM e.execute m = some after) : Recoverable start after := by
  refine foldlM_preserves (Recoverable start)
    (fun instruction hmem first last hfirst hlast ↦ ?_) hm hexecute
  exact hfirst.execute e (hborrows instruction hmem) hlast

/-- What a hart holds that has entered debug mode: s0 and a0 are in the scratch registers. -/
structure Saved (start : Machine cfg xlen flen) : Prop where
  dscratch0 : start.csrs csrDscratch0 = start.gprs.read 8
  dscratch1 : cfg.hasSndScratch = true → start.csrs csrDscratch1 = start.gprs.read 10

theorem Saved.recoverable (hsaved : Saved start) : Recoverable start start :=
  ⟨fun _ _ _ ↦ rfl, hsaved.dscratch0, hsaved.dscratch1, rfl, fun _ _ _ ↦ rfl, rfl⟩

/-- The first part of the code up to any of its words. -/
theorem recoverable_take_enter (hsaved : Saved start) (position : ℕ)
    (hexecute : ((enter cfg).take position).foldlM e.execute start = some after) :
    Recoverable start after := by
  unfold enter at hexecute
  split_ifs at hexecute with hscratch
  · cases position with
    | zero =>
      rw [← Option.some_inj.mp hexecute]
      exact hsaved.recoverable
    | succ position =>
      have hfirst : e.execute start (.csrrw 0 10 csrDscratch1) =
          some (start.setCsr csrDscratch1 (start.gprs.read 10)).advance := by
        simp [Environment.execute]
      rw [List.take_succ_cons, List.foldlM_cons, hfirst] at hexecute
      refine ((hsaved.recoverable.save_a0 rfl).withPc _).foldlM e
        (fun instruction hmem ↦ ?_) hexecute
      have hthree := List.mem_of_mem_take hmem
      simp only [List.mem_cons, List.not_mem_nil, or_false] at hthree
      rcases hthree with rfl | rfl | rfl <;> exact Or.inr (Or.inr ⟨hscratch, rfl⟩)
  · refine hsaved.recoverable.foldlM e (fun instruction hmem ↦ ?_) hexecute
    have hnops := List.mem_of_mem_take hmem
    simp only [List.mem_cons, List.not_mem_nil, or_false, or_self] at hnops
    exact hnops ▸ Or.inl rfl

/-- The code of a transfer through s0 up to its access. -/
theorem take_throughS0 (csr : BitVec 12) (size : BitVec 3) (write : Bool) {position : ℕ}
    (hposition : position ≤ if write then 2 else 1) :
    ∃ rest, (throughS0 cfg csr size write).take position =
        (Instruction.csrrw 0 8 csrDscratch0 :: rest).take position ∧
      ∀ instruction ∈ rest, instruction.borrows cfg := by
  cases write with
  | true =>
    refine ⟨[.load size 8 cfg.loadBaseAddr dataAddr], ?_, ?_⟩
    · have hle : position ≤ 2 := hposition
      interval_cases position <;> rfl
    · intro instruction hmem
      rw [List.mem_singleton.mp hmem]
      exact Or.inr (Or.inl rfl)
  | false =>
    refine ⟨[], ?_, fun _ hmem ↦ absurd hmem List.not_mem_nil⟩
    have hle : position ≤ 1 := hposition
    interval_cases position <;> rfl

end Access

section Trapped

variable (hxlen : xlen = 32 ∨ xlen = 64) (haligned : cfg.dmBaseAddress.toNat % 4096 = 0)
  (e : Environment cfg xlen flen) {start last : Machine cfg xlen flen} (hsaved : Saved start)
  (hpc : start.pc = codeAddress cfg xlen 0)
include hxlen haligned hsaved hpc

/-- Behind the first part the code through s0 saves s0 before it writes it. -/
theorem recoverable_throughS0 {csr : BitVec 12} {size : BitVec 3} {write : Bool} {position : ℕ}
    (hposition : position ≤ if write then 2 else 1)
    (hexecute : (enter cfg ++ (throughS0 cfg csr size write).take position).foldlM e.execute start =
      some last) : Recoverable start last := by
  obtain ⟨pc, henter⟩ := foldlM_enter hxlen haligned e start hpc
  have hentered : Recoverable start ((entered start).withPc pc) := by
    refine recoverable_take_enter e hsaved 4 ?_
    rw [← length_enter cfg, List.take_length]
    exact henter
  obtain ⟨rest, htake, hborrows⟩ : ∃ rest, (throughS0 cfg csr size write).take position = _ ∧ _ :=
    take_throughS0 csr size write hposition
  rw [List.foldlM_append, henter, Option.bind_eq_bind, Option.bind_some, htake] at hexecute
  cases position with
  | zero =>
    rw [← Option.some_inj.mp hexecute]
    exact hentered
  | succ position =>
    have hfirst : e.execute ((entered start).withPc pc) (.csrrw 0 8 csrDscratch0) =
        some (((entered start).withPc pc).setCsr csrDscratch0
          (((entered start).withPc pc).gprs.read 8)).advance := by
      simp [Environment.execute]
    rw [List.take_succ_cons, List.foldlM_cons, hfirst] at hexecute
    have hs0 : ((entered start).withPc pc).gprs.read 8 = start.gprs.read 8 :=
      entered_gprs_of_ne start fun hboth ↦ absurd hboth.2 (by decide)
    exact ((hentered.save_s0 hs0).withPc _).foldlM e
      (fun instruction hmem ↦ hborrows _ (List.mem_of_mem_take hmem)) hexecute

/-- A transfer up to the access to its register leaves what the handler brings back. -/
theorem recoverable_take {name : RegisterName} {size : BitVec 3} {write : Bool} {position : ℕ}
    (hposition : position ≤ accessPosition cfg name write)
    (hexecute : ((code cfg name size write).take position).foldlM e.execute start = some last) :
    Recoverable start last := by
  have henter := length_enter cfg
  have hlength : (enter cfg ++ transfer cfg name size write).length = 8 := by
    rw [List.length_append, henter, length_transfer]
  rcases le_or_gt position 4 with hearly | hlate
  · rw [code, List.append_assoc, List.take_append_of_le_length (by omega)] at hexecute
    exact recoverable_take_enter e hsaved position hexecute
  · -- Only code through s0 has an access this late.
    obtain ⟨csr, hthrough, hle⟩ : ∃ csr,
        transfer cfg name size write = throughS0 cfg csr size write ∧
        position ≤ if write then 6 else 5 := by
      cases name with
      | gpr number =>
        by_cases hborrowed : cfg.hasSndScratch ∧ number = 10
        · rw [accessPosition, if_pos hborrowed] at hposition
          exact ⟨csrDscratch1, if_pos hborrowed, hposition⟩
        · rw [accessPosition, if_neg hborrowed] at hposition
          omega
      | fpr number => exact absurd hposition (not_le.mpr hlate)
      | csr number => exact ⟨number, rfl, hposition⟩
    have hshort : position - 4 ≤ if write then 2 else 1 := by
      cases write with
      | true => exact Nat.sub_le_sub_right hle 4
      | false => exact Nat.sub_le_sub_right hle 4
    have hend : position ≤ 8 := hle.trans (by cases write <;> decide)
    rw [code, List.take_append_of_le_length (hend.trans hlength.ge), List.take_append,
      List.take_of_length_le (henter.le.trans hlate.le), henter, hthrough] at hexecute
    exact recoverable_throughS0 hxlen haligned e hsaved hpc hshort hexecute

/-- A transfer that traps at the access to its register, or before it. -/
theorem recoverable_of_trapped {name : RegisterName} {size : BitVec 3} {write : Bool}
    (haccess : AccessesRegister cfg e.inputs.cmd name size write) {fuel position : ℕ}
    (hrun : boundedRun e.codeStep fuel start = some (.trapped last))
    (hlast : last.pc = codeAddress cfg xlen position)
    (hposition : position ≤ accessPosition cfg name write) : Recoverable start last := by
  have hbound : accessPosition cfg name write < 9 := by
    unfold accessPosition
    cases name <;> simp only <;> (try split_ifs) <;> decide
  exact recoverable_take hxlen haligned e hsaved hpc hposition
    (foldlM_of_trapped hxlen haligned e haccess.generates hpc (by omega) hrun hlast)

end Trapped

/-! ### Back in the park loop -/

/-- A hart that has trapped comes back to the halt address with the registers and the data words of
the start, having signalled Exception, and from there to the head of the park loop, where it
signals Halted. -/
structure HandlesTrap (e : Environment cfg xlen flen) (flags : ℕ → BitVec 8)
    (start trapped : Machine cfg xlen flen) (hart : ℕ) (parked : Machine cfg xlen flen) :
    Prop where
  returns : ∃ count, Advances (e.parkStep flags) count
    ⟨trapped.withPc (exceptionPc cfg xlen), [], 0⟩ ⟨parked, [.store exceptionAddr 0], 0⟩
  pc : parked.pc = haltPc cfg xlen
  gprs : ∀ number, parked.gprs.read number = start.gprs.read number
  fprs : parked.fprs = start.fprs
  csrs : ∀ csr, csr ≠ csrDscratch0 → csr ≠ csrDscratch1 → parked.csrs csr = start.csrs csr
  data : parked.data = start.data
  parks : ∃ count, Advances (e.parkStep flags) count ⟨parked, [.store exceptionAddr 0], 0⟩
    (inLoop parked (Label.entryLoop.index cfg.hasSndScratch + 2) (BitVec.ofNat xlen hart)
      [.store exceptionAddr 0, .store haltedAddr (BitVec.ofNat 32 hart)] 1)

theorem Recoverable.handlesTrap (hxlen : xlen = 32 ∨ xlen = 64)
    (haligned : cfg.dmBaseAddress.toNat % 4096 = 0) (e : Environment cfg xlen flen)
    (flags : ℕ → BitVec 8) {start last : Machine cfg xlen flen} {hart : ℕ}
    (hmhartid : start.csrs csrMhartid = BitVec.ofNat xlen hart) (hlast : Recoverable start last) :
    HandlesTrap e flags start last hart ((restored last).withPc (haltPc cfg xlen)) where
  returns := ⟨_, advances_exception hxlen haligned e flags last [] 0⟩
  pc := rfl
  gprs := hlast.restored_gprs
  fprs := by
    rw [Machine.withPc_fprs, restored, Machine.setGpr_fprs, left_fprs, hlast.fprs]
  csrs := by
    intro csr hfirst hsecond
    rw [Machine.withPc_csrs, restored_csrs, hlast.csrs csr hfirst hsecond]
  data := by
    rw [Machine.withPc_data, restored, Machine.setGpr_data, left_data, hlast.data]
  parks := advances_parked hxlen haligned e flags (by
    rw [Machine.withPc_csrs, restored_csrs, hlast.csrs csrMhartid (by decide) (by decide),
      hmhartid]) rfl [.store exceptionAddr 0] 0

end RiscvDebug.Hart
