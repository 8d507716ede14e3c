import RiscvDebug.Hart.GeneratedCode

/-!
# Access Register commands

What the generated code of an Access Register command does: `accessRegister_transfers` says that a
run of the code moves the value between the named register and the data registers, and changes
nothing else but the scratch registers.
-/

set_option autoImplicit false
set_option relaxedAutoImplicit false

namespace RiscvDebug.Hart

open Foundations DmMem

variable {cfg : Config} {xlen flen : ℕ}

/-! ### The three parts -/

/-- The value a load leaves in an integer register. -/
def loadedInteger {count : ℕ} (xlen : ℕ) (size : BitVec 3) (data : Vector (BitVec 32) count) :
    BitVec xlen :=
  if size = 2 then (data[0]?.getD 0).signExtend xlen
  else (data[1]?.getD 0 ++ data[0]?.getD 0).setWidth xlen

/-- The value a load leaves in a floating-point register. -/
def loadedFloat {count : ℕ} (flen : ℕ) (size : BitVec 3) (data : Vector (BitVec 32) count) :
    BitVec flen :=
  if size = 2 then boxed flen (data[0]?.getD 0)
  else (data[1]?.getD 0 ++ data[0]?.getD 0).setWidth flen

/-- The data registers after a store of a register. -/
def stored {count width : ℕ} (size : BitVec 3) (data : Vector (BitVec 32) count)
    (value : BitVec width) : Vector (BitVec 32) count :=
  if size = 2 then data.setIfInBounds 0 (value.setWidth 32)
  else (data.setIfInBounds 0 (value.setWidth 32)).setIfInBounds 1 (value.extractLsb' 32 32)

section Parts

variable (hxlen : xlen = 32 ∨ xlen = 64) (haligned : cfg.dmBaseAddress.toNat % 4096 = 0)
  (e : Environment cfg xlen flen)
include hxlen haligned

/-- The data registers are where the generated loads and stores reach them. -/
theorem debugOffset_data :
    debugOffset cfg (dmBase cfg xlen + dataAddr.signExtend xlen) = some dataAddr := by
  have hextend : dataAddr.signExtend xlen = dataAddr.setWidth xlen := by
    rcases hxlen with rfl | rfl <;> decide
  rw [hextend, debugOffset_add hxlen haligned]

theorem load_data (m : Machine cfg xlen flen) {size : BitVec 3}
    (hsize : size = 2 ∨ size = 3 ∧ xlen = 64) :
    e.load m size (dmBase cfg xlen + dataAddr.signExtend xlen) =
      some (loadedInteger xlen size m.data) := by
  rw [Environment.load, debugOffset_data hxlen haligned, Option.bind_some, loadedInteger,
    readWord_data, readDouble_data]
  rcases hsize with rfl | ⟨rfl, hwide⟩
  · rfl
  · rw [if_neg (by decide), if_neg (by decide), if_neg (by decide), if_pos ⟨rfl, hwide⟩,
      if_neg (by decide)]

theorem floatLoad_data (m : Machine cfg xlen flen) {size : BitVec 3}
    (hsize : size = 2 ∨ size = 3 ∧ flen = 64) :
    e.floatLoad m size (dmBase cfg xlen + dataAddr.signExtend xlen) =
      some (loadedFloat flen size m.data) := by
  rw [Environment.floatLoad, debugOffset_data hxlen haligned, Option.bind_some, loadedFloat,
    readWord_data, readDouble_data]
  rcases hsize with rfl | ⟨rfl, hwide⟩
  · rfl
  · rw [if_neg (by decide), if_pos ⟨rfl, hwide⟩, if_neg (by decide)]

theorem store_data (m : Machine cfg xlen flen) {width : ℕ} (value : BitVec width)
    {size : BitVec 3} (hsize : size = 2 ∨ size = 3 ∧ width = 64) :
    e.store m size (dmBase cfg xlen + dataAddr.signExtend xlen) value =
      some (stored size m.data value) := by
  rw [Environment.store, debugOffset_data hxlen haligned, Option.bind_some, stored,
    writeWord_data, writeDouble_data]
  rcases hsize with rfl | ⟨rfl, rfl⟩
  · rfl
  · have hlow : value.extractLsb' 0 32 = value.setWidth 32 := by
      ext index hindex
      simp
    rw [if_neg (by decide), if_neg (by decide), if_neg (by decide), if_pos ⟨rfl, rfl⟩,
      if_neg (by decide), BitVec.setWidth_eq, hlow]

section Enter

/-- The registers after `enter`. -/
def entered (m : Machine cfg xlen flen) : Machine cfg xlen flen :=
  if cfg.hasSndScratch then
    (m.setCsr csrDscratch1 (m.gprs.read 10)).setGpr 10 (dmBase cfg xlen)
  else m

omit hxlen haligned in
/-- The base register holds the base address: a0, or x0 at the zero page. -/
theorem read_entered (m : Machine cfg xlen flen) (pc : BitVec xlen) :
    ((entered m).withPc pc).gprs.read cfg.loadBaseAddr = dmBase cfg xlen := by
  rw [loadBaseAddr_eq, entered]
  cases hscratch : cfg.hasSndScratch with
  | false =>
    have hzero : cfg.dmBaseAddress = 0 := by simpa [Config.hasSndScratch] using hscratch
    simp only [Bool.false_eq_true, if_false, dmBase, hzero, Machine.withPc]
    rw [show (0#5 : BitVec 5) = 0 from rfl, m.gprs.read_zero]
    simp
  | true => simp [Machine.withPc, Machine.setGpr]

theorem foldlM_enter (m : Machine cfg xlen flen) (hpc : m.pc = codeAddress cfg xlen 0) :
    ∃ pc, (enter cfg).foldlM e.execute m = some ((entered m).withPc pc) := by
  have hshift : 12 < xlen := by omega
  refine ⟨m.pc + 4 + 4 + 4 + 4, ?_⟩
  unfold enter entered
  cases hscratch : cfg.hasSndScratch with
  | false =>
    simp [nopInstruction, Environment.execute, Machine.setGpr, Machine.advance, Machine.withPc]
  | true =>
    have hbase := shift_codeAddress hxlen haligned (commandOffset 1)
    have hauipc : m.pc + BitVec.ofNat xlen 4 + BitVec.signExtend xlen 0#32 =
        codeAddress cfg xlen 1 := by
      have hzero : BitVec.signExtend xlen 0#32 = BitVec.ofNat xlen 0 := by
        rcases hxlen with rfl | rfl <;> rfl
      rw [hzero, BitVec.add_zero, hpc]
      exact codeAddress_succ hxlen (by decide)
    simp [Environment.execute, Machine.setGpr, Machine.setCsr, Machine.advance, Machine.withPc,
      hshift]
    rw [hauipc, codeAddress, hbase]

end Enter

/-! ### The transfer -/

/-- Where the generated code reaches the data registers. -/
def dataAddress (cfg : Config) (xlen : ℕ) : BitVec xlen :=
  dmBase cfg xlen + dataAddr.signExtend xlen

omit hxlen haligned in
/-- A load reads the data registers only. -/
theorem load_congr {m m' : Machine cfg xlen flen}
    (hdata : m.data = m'.data) (size : BitVec 3) (address : BitVec xlen) :
    e.load m size address = e.load m' size address := by
  unfold Environment.load
  rw [hdata]

omit hxlen haligned in
/-- The transfer through s0 into any control and status register takes s0 back from what the first
scratch register then holds. -/
theorem foldlM_throughS0_write_eq {m : Machine cfg xlen flen}
    (hbase : m.gprs.read cfg.loadBaseAddr = dmBase cfg xlen) (size : BitVec 3) (csr : BitVec 12) :
    ∃ pc, (throughS0 cfg csr size true).foldlM e.execute m =
      (e.load m size (dataAddress cfg xlen)).map fun value ↦
        (((m.setCsr csrDscratch0 (m.gprs.read 8)).setCsr csr value).setGpr 8
          (Function.update (Function.update m.csrs csrDscratch0 (m.gprs.read 8)) csr value
            csrDscratch0)).withPc pc := by
  refine ⟨m.pc + 4 + 4 + 4 + 4, ?_⟩
  have hload (pc : BitVec xlen) (csrs : BitVec 12 → BitVec xlen) :
      e.load { m with pc := pc, csrs := csrs } size (dmBase cfg xlen + dataAddr.signExtend xlen) =
        e.load m size (dmBase cfg xlen + dataAddr.signExtend xlen) := load_congr e rfl _ _
  unfold dataAddress
  cases hvalue : e.load m size (dmBase cfg xlen + dataAddr.signExtend xlen) with
  | none =>
    simp [throughS0, Environment.execute, Machine.setGpr, Machine.setCsr, Machine.advance,
      hbase, hload, hvalue]
  | some value =>
    simp [throughS0, Environment.execute, Machine.setGpr, Machine.setCsr, Machine.advance,
      Machine.withPc, hbase, hload, hvalue]

section Transfer

variable {m : Machine cfg xlen flen} (hbase : m.gprs.read cfg.loadBaseAddr = dmBase cfg xlen)
  {size : BitVec 3}
include hbase

/-- The transfer through s0 into a control and status register. -/
theorem foldlM_throughS0_write {csr : BitVec 12} (hcsr : csr ≠ csrDscratch0)
    (hsize : size = 2 ∨ size = 3 ∧ xlen = 64) :
    ∃ pc, (throughS0 cfg csr size true).foldlM e.execute m = some
      (((m.setCsr csrDscratch0 (m.gprs.read 8)).setCsr csr
        (loadedInteger xlen size m.data)).withPc pc) := by
  obtain ⟨pc, hthrough⟩ := foldlM_throughS0_write_eq e hbase size csr
  refine ⟨pc, ?_⟩
  rw [hthrough, dataAddress, load_data hxlen haligned e m hsize, Option.map_some]
  -- The first scratch register still holds the value of s0.
  simp [Machine.setGpr, Machine.setCsr, Machine.withPc, Function.update_of_ne hcsr.symm]

/-- The transfer through s0 out of a control and status register. -/
theorem foldlM_throughS0_read {csr : BitVec 12} (hcsr : csr ≠ csrDscratch0)
    (hsize : size = 2 ∨ size = 3 ∧ xlen = 64) :
    ∃ pc, (throughS0 cfg csr size false).foldlM e.execute m = some
      (((m.setCsr csrDscratch0 (m.gprs.read 8)).setData
        (stored size m.data (m.csrs csr))).withPc pc) := by
  have hother : cfg.loadBaseAddr ≠ 8#5 := by
    rw [loadBaseAddr_eq]
    split_ifs <;> decide
  refine ⟨m.pc + 4 + 4 + 4 + 4, ?_⟩
  simp [throughS0, Environment.execute, Machine.setGpr, Machine.setCsr, Machine.setData,
    Machine.advance, Machine.withPc, hother, hbase, store_data hxlen haligned e _ _ hsize,
    Function.update_of_ne hcsr]

/-- The transfer into an integer register. -/
theorem foldlM_load (number : BitVec 5) (hsize : size = 2 ∨ size = 3 ∧ xlen = 64) :
    ∃ pc, [Instruction.load size number cfg.loadBaseAddr dataAddr, nopInstruction, nopInstruction,
        nopInstruction].foldlM e.execute m = some
      ((m.setGpr number (loadedInteger xlen size m.data)).withPc pc) := by
  refine ⟨m.pc + 4 + 4 + 4 + 4, ?_⟩
  simp [nopInstruction, Environment.execute, Machine.setGpr, Machine.advance, Machine.withPc, hbase,
    load_data hxlen haligned e _ hsize]

/-- The transfer out of an integer register. -/
theorem foldlM_store (number : BitVec 5) (hsize : size = 2 ∨ size = 3 ∧ xlen = 64) :
    ∃ pc, [Instruction.store size number cfg.loadBaseAddr dataAddr, nopInstruction, nopInstruction,
        nopInstruction].foldlM e.execute m = some
      ((m.setData (stored size m.data (m.gprs.read number))).withPc pc) := by
  refine ⟨m.pc + 4 + 4 + 4 + 4, ?_⟩
  simp [nopInstruction, Environment.execute, Machine.setGpr, Machine.setData, Machine.advance,
    Machine.withPc, hbase, store_data hxlen haligned e _ _ hsize]

/-- The transfer into a floating-point register. -/
theorem foldlM_floatLoad (number : BitVec 5) (hsize : size = 2 ∨ size = 3 ∧ flen = 64) :
    ∃ pc, [Instruction.floatLoad size number cfg.loadBaseAddr dataAddr, nopInstruction,
        nopInstruction, nopInstruction].foldlM e.execute m = some
      ((m.setFpr number (loadedFloat flen size m.data)).withPc pc) := by
  refine ⟨m.pc + 4 + 4 + 4 + 4, ?_⟩
  simp [nopInstruction, Environment.execute, Machine.setGpr, Machine.setFpr, Machine.advance,
    Machine.withPc, hbase, floatLoad_data hxlen haligned e _ hsize]

/-- The transfer out of a floating-point register. -/
theorem foldlM_floatStore (number : BitVec 5) (hsize : size = 2 ∨ size = 3 ∧ flen = 64) :
    ∃ pc, [Instruction.floatStore size number cfg.loadBaseAddr dataAddr, nopInstruction,
        nopInstruction, nopInstruction].foldlM e.execute m = some
      ((m.setData (stored size m.data (m.fprs number))).withPc pc) := by
  refine ⟨m.pc + 4 + 4 + 4 + 4, ?_⟩
  have hsizes : size = 2#3 ∨ size = 3#3 := hsize.imp id And.left
  simp [nopInstruction, Environment.execute, Machine.setGpr, Machine.setData, Machine.advance,
    Machine.withPc, hbase, hsizes, store_data hxlen haligned e _ _ hsize]

end Transfer

end Parts

/-- The registers after `leave`. -/
def left (m : Machine cfg xlen flen) : Machine cfg xlen flen :=
  if cfg.hasSndScratch then m.setGpr 10 (m.csrs csrDscratch1) else m

theorem foldlM_leave (e : Environment cfg xlen flen) (m : Machine cfg xlen flen) :
    ∃ pc, (leave cfg).foldlM e.execute m = some ((left m).withPc pc) := by
  refine ⟨m.pc + 4, ?_⟩
  unfold leave left
  cases hscratch : cfg.hasSndScratch <;>
    simp [nopInstruction, Environment.execute, Machine.setGpr, Machine.advance, Machine.withPc]

section Borrowed

variable (start : Machine cfg xlen flen)

@[simp] theorem entered_fprs : (entered start).fprs = start.fprs := by
  unfold entered
  split_ifs <;> rfl

@[simp] theorem entered_data : (entered start).data = start.data := by
  unfold entered
  split_ifs <;> rfl

theorem entered_csrs_of_ne {csr : BitVec 12} (hcsr : csr ≠ csrDscratch1) :
    (entered start).csrs csr = start.csrs csr := by
  unfold entered
  split_ifs
  · exact Function.update_of_ne hcsr _ _
  · rfl

/-- Other registers than a borrowed a0 are as they were. -/
theorem entered_gprs_of_ne {number : BitVec 5} (hnumber : ¬ (cfg.hasSndScratch ∧ number = 10)) :
    (entered start).gprs.read number = start.gprs.read number := by
  unfold entered
  split_ifs with hscratch
  · exact IntegerRegisters.read_write_of_ne _ _ fun heq ↦ hnumber ⟨hscratch, heq⟩
  · rfl

/-- A borrowed a0 is in the second scratch register. -/
theorem entered_saved (hscratch : cfg.hasSndScratch = true) :
    (entered start).csrs csrDscratch1 = start.gprs.read 10 := by
  simp [entered, hscratch]

@[simp] theorem left_fprs (m : Machine cfg xlen flen) : (left m).fprs = m.fprs := by
  unfold left
  split_ifs <;> rfl

@[simp] theorem left_csrs (m : Machine cfg xlen flen) : (left m).csrs = m.csrs := by
  unfold left
  split_ifs <;> rfl

@[simp] theorem left_data (m : Machine cfg xlen flen) : (left m).data = m.data := by
  unfold left
  split_ifs <;> rfl

/-- A borrowed a0 takes the value that the second scratch register holds at the end. -/
theorem left_gprs_of_scratch {m : Machine cfg xlen flen}
    (hscratch : cfg.hasSndScratch = true) (hgprs : m.gprs = (entered start).gprs) :
    (left m).gprs = start.gprs.write 10 (m.csrs csrDscratch1) := by
  rw [left, if_pos hscratch, Machine.setGpr_gprs, hgprs, entered, if_pos hscratch]
  exact IntegerRegisters.write_write _ _ _ _

/-- When nothing has written the second scratch register, a write between `enter` and `leave` is
the only change of the integer registers. -/
theorem left_gprs_of_saved {m : Machine cfg xlen flen} {number : BitVec 5}
    (value : BitVec xlen) (hnumber : ¬ (cfg.hasSndScratch ∧ number = 10))
    (hgprs : m.gprs = (entered start).gprs.write number value)
    (hsaved : m.csrs csrDscratch1 = (entered start).csrs csrDscratch1) :
    (left m).gprs = start.gprs.write number value := by
  cases hscratch : cfg.hasSndScratch with
  | false => simpa [left, entered, hscratch] using hgprs
  | true =>
    have hother : 10#5 ≠ number := fun heq ↦ hnumber ⟨hscratch, heq.symm⟩
    rw [left, if_pos hscratch, Machine.setGpr_gprs, hgprs, hsaved, entered_saved _ hscratch]
    ext index : 2
    rw [entered, if_pos hscratch]
    simp only [Machine.setGpr_gprs, Machine.setCsr_gprs, IntegerRegisters.read_write]
    by_cases hborrowed : index = 10#5
    · subst hborrowed
      simp [hother]
    · simp [hborrowed]

/-- When nothing has written the registers, they are as they were. -/
theorem left_gprs_of_kept {m : Machine cfg xlen flen} (hgprs : m.gprs = (entered start).gprs)
    (hsaved : m.csrs csrDscratch1 = (entered start).csrs csrDscratch1) :
    (left m).gprs = start.gprs := by
  have hzero : ¬ (cfg.hasSndScratch = true ∧ (0#5 : BitVec 5) = 10) := fun hboth ↦
    absurd hboth.2 (by decide)
  have hkept := left_gprs_of_saved start 0 hzero
    (hgprs.trans (IntegerRegisters.write_zero (entered start).gprs 0).symm) hsaved
  rwa [IntegerRegisters.write_zero] at hkept

end Borrowed

/-! ### Transfers -/

/-- The named register holds the loaded value, and everything else is unchanged but for the scratch
registers. -/
structure Written (name : RegisterName) (size : BitVec 3) (start final : Machine cfg xlen flen) :
    Prop where
  gprs : ∀ number, final.gprs.read number =
    if name = .gpr number ∧ number ≠ 0 then loadedInteger xlen size start.data
    else start.gprs.read number
  fprs : ∀ number, final.fprs number =
    if name = .fpr number then loadedFloat flen size start.data else start.fprs number
  csrs : ∀ csr, csr ≠ csrDscratch0 → csr ≠ csrDscratch1 → final.csrs csr =
    if name = .csr csr then loadedInteger xlen size start.data else start.csrs csr
  data : final.data = start.data

/-- The data registers after a store of the named register. -/
def storedRegister (name : RegisterName) (size : BitVec 3) (start : Machine cfg xlen flen) :
    Vector (BitVec 32) cfg.dataCount :=
  match name with
  | .gpr number => stored size start.data (start.gprs.read number)
  | .fpr number => stored size start.data (start.fprs number)
  | .csr number => stored size start.data (start.csrs number)

/-- The data registers hold the named register, and everything else is unchanged but for the
scratch registers. -/
structure ReadOut (name : RegisterName) (size : BitVec 3) (start final : Machine cfg xlen flen) :
    Prop where
  gprs : ∀ number, final.gprs.read number = start.gprs.read number
  fprs : ∀ number, final.fprs number = start.fprs number
  csrs : ∀ csr, csr ≠ csrDscratch0 → csr ≠ csrDscratch1 → final.csrs csr = start.csrs csr
  data : final.data = storedRegister name size start

/-- The effect of a command. -/
def Transfers (name : RegisterName) (size : BitVec 3) (write : Bool)
    (start final : Machine cfg xlen flen) : Prop :=
  if write then Written name size start final else ReadOut name size start final

/-- The size is 32 or 64 bits and not above the width of the named register. -/
def RegisterName.fits (name : RegisterName) (xlen flen : ℕ) (size : BitVec 3) : Prop :=
  size = 2 ∨ size = 3 ∧
    match name with
    | .fpr _ => flen = 64
    | _ => xlen = 64

section Run

variable (hxlen : xlen = 32 ∨ xlen = 64) (haligned : cfg.dmBaseAddress.toNat % 4096 = 0)
  (e : Environment cfg xlen flen)
include hxlen haligned

/-- A run of the code of a command is that of its three parts: it has the command's effect when the
registers after these have it, wherever the program counter stands. -/
theorem run_code {name : RegisterName} {size : BitVec 3} {write : Bool}
    (haccess : AccessesRegister cfg e.inputs.cmd name size write)
    {start : Machine cfg xlen flen} (hpc : start.pc = codeAddress cfg xlen 0)
    {middle : BitVec xlen → Machine cfg xlen flen}
    (htransfer : ∀ pc, ∃ pc', (transfer cfg name size write).foldlM e.execute
      ((entered start).withPc pc) = some ((middle pc).withPc pc'))
    (heffect : ∀ pc pc' pc'', Transfers name size write start
      ((left ((middle pc).withPc pc')).withPc pc'')) :
    e.run 10 start = .trapped ∨
      ∃ final, e.run 10 start = .halted final ∧ Transfers name size write start final := by
  obtain ⟨pc, henter⟩ := foldlM_enter hxlen haligned e start hpc
  obtain ⟨pc', hmiddle⟩ := htransfer pc
  obtain ⟨pc'', hleave⟩ := foldlM_leave e ((middle pc).withPc pc')
  have hcode : (code cfg name size write).foldlM e.execute start =
      some ((left ((middle pc).withPc pc')).withPc pc'') := by
    rw [code, List.foldlM_append, List.foldlM_append, henter]
    show ((transfer cfg name size write).foldlM e.execute ((entered start).withPc pc) >>= _) = _
    rw [hmiddle]
    exact hleave
  have hrun := run_straight hxlen haligned e hpc (by rw [length_code]; decide)
    (fun position hposition ↦ by
      rw [length_code] at hposition
      rw [Nat.zero_add]
      exact decode_words haccess.generates hposition) (isStraight_code name size write) hcode
  rw [length_code] at hrun
  exact hrun.imp id fun hhalted ↦ ⟨_, hhalted, heffect pc pc' pc''⟩

/-- A command for a control and status register. -/
theorem run_csr {number : BitVec 12} {size : BitVec 3} {write : Bool}
    (haccess : AccessesRegister cfg e.inputs.cmd (.csr number) size write)
    (hfits : (RegisterName.csr number).fits xlen flen size) (hfirst : number ≠ csrDscratch0)
    (hsecond : number ≠ csrDscratch1) {start : Machine cfg xlen flen}
    (hpc : start.pc = codeAddress cfg xlen 0) :
    e.run 10 start = .trapped ∨ ∃ final, e.run 10 start = .halted final ∧
      Transfers (.csr number) size write start final := by
  have hdistinct : csrDscratch1 ≠ csrDscratch0 := by decide
  cases write with
  | true =>
    refine run_code hxlen haligned e haccess hpc (fun pc ↦ foldlM_throughS0_write hxlen haligned e
        (read_entered start pc) hfirst hfits)
      fun pc pc' pc'' ↦ ⟨fun index ↦ ?_, fun index ↦ ?_, fun csr hscratch0 hscratch1 ↦ ?_, ?_⟩
    · refine (congrArg (fun gprs ↦ gprs.read index) (left_gprs_of_kept start ?_ ?_)).trans ?_
      · rfl
      · simp [Function.update_of_ne hsecond.symm, Function.update_of_ne hdistinct]
      · simp
    · simp
    · by_cases hcsr : csr = number
      · simp [hcsr]
      · simp [hcsr, Ne.symm hcsr, hscratch0, entered_csrs_of_ne start hscratch1]
    · simp
  | false =>
    refine run_code hxlen haligned e haccess hpc (fun pc ↦ foldlM_throughS0_read hxlen haligned e
        (read_entered start pc) hfirst hfits)
      fun pc pc' pc'' ↦ ⟨fun index ↦ ?_, fun index ↦ ?_, fun csr hscratch0 hscratch1 ↦ ?_, ?_⟩
    · refine congrArg (fun gprs ↦ gprs.read index) (left_gprs_of_kept start ?_ ?_)
      · rfl
      · simp [Function.update_of_ne hdistinct]
    · simp
    · simp [hscratch0, entered_csrs_of_ne start hscratch1]
    · simp [storedRegister, entered_csrs_of_ne start hsecond]

/-- A command for a floating-point register. -/
theorem run_fpr {number : BitVec 5} {size : BitVec 3} {write : Bool}
    (haccess : AccessesRegister cfg e.inputs.cmd (.fpr number) size write)
    (hfits : (RegisterName.fpr number).fits xlen flen size) {start : Machine cfg xlen flen}
    (hpc : start.pc = codeAddress cfg xlen 0) :
    e.run 10 start = .trapped ∨ ∃ final, e.run 10 start = .halted final ∧
      Transfers (.fpr number) size write start final := by
  cases write with
  | true =>
    refine run_code hxlen haligned e haccess hpc (fun pc ↦ foldlM_floatLoad hxlen haligned e
        (read_entered start pc) number hfits)
      fun pc pc' pc'' ↦ ⟨fun index ↦ ?_, fun index ↦ ?_, fun csr hscratch0 hscratch1 ↦ ?_, ?_⟩
    · refine (congrArg (fun gprs ↦ gprs.read index) (left_gprs_of_kept start ?_ ?_)).trans ?_
      · rfl
      · rfl
      · simp
    · by_cases hindex : index = number
      · simp [hindex]
      · simp [hindex, Ne.symm hindex]
    · simp [entered_csrs_of_ne start hscratch1]
    · simp
  | false =>
    refine run_code hxlen haligned e haccess hpc (fun pc ↦ foldlM_floatStore hxlen haligned e
        (read_entered start pc) number hfits)
      fun pc pc' pc'' ↦ ⟨fun index ↦ ?_, fun index ↦ ?_, fun csr hscratch0 hscratch1 ↦ ?_, ?_⟩
    · refine congrArg (fun gprs ↦ gprs.read index) (left_gprs_of_kept start ?_ ?_)
      · rfl
      · rfl
    · simp
    · simp [entered_csrs_of_ne start hscratch1]
    · simp [storedRegister]

/-- A command for a0 when the code borrows it. -/
theorem run_borrowed {size : BitVec 3} {write : Bool} (hscratch : cfg.hasSndScratch = true)
    (haccess : AccessesRegister cfg e.inputs.cmd (.gpr 10) size write)
    (hfits : (RegisterName.gpr 10).fits xlen flen size) {start : Machine cfg xlen flen}
    (hpc : start.pc = codeAddress cfg xlen 0) :
    e.run 10 start = .trapped ∨ ∃ final, e.run 10 start = .halted final ∧
      Transfers (.gpr 10) size write start final := by
  have hdistinct : csrDscratch1 ≠ csrDscratch0 := by decide
  have htransfer : transfer cfg (.gpr 10) size write = throughS0 cfg csrDscratch1 size write :=
    if_pos ⟨hscratch, rfl⟩
  cases write with
  | true =>
    refine run_code hxlen haligned e haccess hpc (fun pc ↦ htransfer ▸ foldlM_throughS0_write hxlen
        haligned e (read_entered start pc) hdistinct hfits)
      fun pc pc' pc'' ↦ ⟨fun index ↦ ?_, fun index ↦ ?_, fun csr hscratch0 hscratch1 ↦ ?_, ?_⟩
    · refine (congrArg (fun gprs ↦ gprs.read index)
        (left_gprs_of_scratch start hscratch ?_)).trans ?_
      · rfl
      · rw [IntegerRegisters.read_write]
        by_cases hindex : index = 10#5
        · simp [hindex]
        · simp [hindex, Ne.symm hindex]
    · simp
    · simp [hscratch0, hscratch1, entered_csrs_of_ne start hscratch1]
    · simp
  | false =>
    refine run_code hxlen haligned e haccess hpc (fun pc ↦ htransfer ▸ foldlM_throughS0_read hxlen
        haligned e (read_entered start pc) hdistinct hfits)
      fun pc pc' pc'' ↦ ⟨fun index ↦ ?_, fun index ↦ ?_, fun csr hscratch0 hscratch1 ↦ ?_, ?_⟩
    · refine congrArg (fun gprs ↦ gprs.read index) (left_gprs_of_kept start ?_ ?_)
      · rfl
      · simp [Function.update_of_ne hdistinct]
    · simp
    · simp [hscratch0, entered_csrs_of_ne start hscratch1]
    · simp [storedRegister, entered_saved start hscratch]

/-- A command for an integer register that the code does not borrow. -/
theorem run_gpr {number : BitVec 5} {size : BitVec 3} {write : Bool}
    (hnumber : ¬ (cfg.hasSndScratch ∧ number = 10))
    (haccess : AccessesRegister cfg e.inputs.cmd (.gpr number) size write)
    (hfits : (RegisterName.gpr number).fits xlen flen size) {start : Machine cfg xlen flen}
    (hpc : start.pc = codeAddress cfg xlen 0) :
    e.run 10 start = .trapped ∨ ∃ final, e.run 10 start = .halted final ∧
      Transfers (.gpr number) size write start final := by
  have htransfer : transfer cfg (.gpr number) size write =
      [if write then .load size number cfg.loadBaseAddr dataAddr
        else .store size number cfg.loadBaseAddr dataAddr,
        nopInstruction, nopInstruction, nopInstruction] := if_neg hnumber
  cases write with
  | true =>
    refine run_code hxlen haligned e haccess hpc (fun pc ↦ htransfer ▸ foldlM_load hxlen haligned e
        (read_entered start pc) number hfits)
      fun pc pc' pc'' ↦ ⟨fun index ↦ ?_, fun index ↦ ?_, fun csr hscratch0 hscratch1 ↦ ?_, ?_⟩
    · refine (congrArg (fun gprs ↦ gprs.read index)
        (left_gprs_of_saved start (loadedInteger xlen size start.data) hnumber ?_ ?_)).trans ?_
      · simp
      · rfl
      · rw [IntegerRegisters.read_write]
        by_cases hindex : index = number
        · simp [hindex]
        · simp [hindex, Ne.symm hindex]
    · simp
    · simp [entered_csrs_of_ne start hscratch1]
    · simp
  | false =>
    refine run_code hxlen haligned e haccess hpc (fun pc ↦ htransfer ▸ foldlM_store hxlen haligned e
        (read_entered start pc) number hfits)
      fun pc pc' pc'' ↦ ⟨fun index ↦ ?_, fun index ↦ ?_, fun csr hscratch0 hscratch1 ↦ ?_, ?_⟩
    · refine congrArg (fun gprs ↦ gprs.read index) (left_gprs_of_kept start ?_ ?_)
      · rfl
      · rfl
    · simp
    · simp [entered_csrs_of_ne start hscratch1]
    · simp [storedRegister, entered_gprs_of_ne start hnumber]

/-- A run of the code of an Access Register command, from its first word to its `ebreak`, moves the
value between the named register and the data registers, and changes nothing else but the scratch
registers, unless one of its instructions traps. -/
theorem accessRegister_transfers {name : RegisterName} {size : BitVec 3} {write : Bool}
    (haccess : AccessesRegister cfg e.inputs.cmd name size write)
    (hfits : name.fits xlen flen size)
    (hname : name ≠ .csr csrDscratch0 ∧ name ≠ .csr csrDscratch1)
    {start : Machine cfg xlen flen} (hpc : start.pc = codeAddress cfg xlen 0) :
    e.run 10 start = .trapped ∨ ∃ final, e.run 10 start = .halted final ∧
      Transfers name size write start final := by
  cases name with
  | gpr number =>
    by_cases hborrowed : cfg.hasSndScratch = true ∧ number = 10
    · obtain ⟨hscratch, rfl⟩ := hborrowed
      exact run_borrowed hxlen haligned e hscratch haccess hfits hpc
    · exact run_gpr hxlen haligned e hborrowed haccess hfits hpc
  | fpr number => exact run_fpr hxlen haligned e haccess hfits hpc
  | csr number =>
    exact run_csr hxlen haligned e haccess hfits (fun heq ↦ hname.1 (heq ▸ rfl))
      (fun heq ↦ hname.2 (heq ▸ rfl)) hpc

end Run

/-- A hart with 64-bit registers and a debug module that is not at the zero page. -/
def farModule : Config :=
  { DmTop.oneHartWide with
    dmBaseAddress := 0x1000
    maxRegisterAccessWidth := 64
    maxRegisterAccessWidth_eq := Config.width_64 }

/-- The hart executes a write of a0 with 64 bits. -/
def writesA0 : Environment farModule 64 64 where
  memory := DmMem.Regs.reset farModule
  inputs :=
    { ndmreset := false, hartsel := 0, haltreq := 0, resumereq := 0, clearResumeack := false
      progbuf := Vector.replicate progBufSize 0, data := Vector.replicate 2 0, cmdValid := false
      cmd := Command.ofBits 0x0033100a, slave := readAccess farModule 0 }
  traps := fun _ _ ↦ false

/-- The hart at the first word of the code, with distinct values in a0 and s0. -/
def beforeA0 : Machine farModule 64 64 where
  pc := codeAddress farModule 64 0
  gprs := (IntegerRegisters.write ⟨fun _ ↦ 0, rfl⟩ 10 0x1234).write 8 0x5678
  fprs := fun _ ↦ 0
  csrs := fun _ ↦ 0
  data := #v[0x89abcdef, 0x01234567]

/-- The run ends at the `ebreak` with the value of the data registers in a0. -/
theorem writesA0_transfers : ∃ final, writesA0.run 10 beforeA0 = .halted final ∧
    Transfers (.gpr 10) 3 true beforeA0 final := by
  have hplain : (match writesA0.run 10 beforeA0 with | .trapped => false | _ => true) = true := by
    decide +kernel
  refine (accessRegister_transfers (Or.inr rfl) (by decide) writesA0
    ⟨by decide, by decide, by decide, by decide, by decide, by decide, by decide⟩
    (Or.inr ⟨rfl, rfl⟩) (by decide) rfl).resolve_left fun htrapped ↦ ?_
  rw [htrapped] at hplain
  exact Bool.false_ne_true hplain

end RiscvDebug.Hart
