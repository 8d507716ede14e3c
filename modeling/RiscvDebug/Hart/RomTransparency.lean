import RiscvDebug.Hart.RomCode

/-!
# The debug ROM is transparent

A hart that enters the ROM polls its flag byte twice in each round of `entry_loop`, first for Go and
then for Resume. `advances_straight` reduces the code between jumps to its list of instructions,
and the blocks of the listing give the states at the head of each round. `debugRom_transparent`
says what a hart that leaves has done: its registers are those it entered with, but for the scratch
registers, it has written its index to Halted once in each round, and at the end either Going, when
a test for Go has found the bit set, or Resuming.
-/

set_option autoImplicit false
set_option relaxedAutoImplicit false

namespace RiscvDebug.Hart

open Foundations DmMem

variable {cfg : Config} {xlen flen : ℕ}

/-! ### Updates -/

section Updates

variable (m m' : Machine cfg xlen flen) (s : Session cfg xlen flen) (pc pc' : BitVec xlen)
  (number : BitVec 5) (csr : BitVec 12) (value value' : BitVec xlen) (access : Access)

theorem advance_eq : m.advance = m.withPc (m.pc + 4) := rfl
@[simp] theorem withPc_pc : (m.withPc pc).pc = pc := rfl
@[simp] theorem setGpr_pc : (m.setGpr number value).pc = m.pc := rfl
@[simp] theorem setCsr_pc : (m.setCsr csr value).pc = m.pc := rfl
@[simp] theorem withPc_withPc : (m.withPc pc).withPc pc' = m.withPc pc' := rfl
@[simp] theorem setGpr_withPc :
    (m.withPc pc).setGpr number value = (m.setGpr number value).withPc pc := rfl
@[simp] theorem setCsr_withPc :
    (m.withPc pc).setCsr csr value = (m.setCsr csr value).withPc pc := rfl
@[simp] theorem setData_data_self : m.setData m.data = m := rfl

@[simp] theorem setGpr_setGpr :
    (m.setGpr number value).setGpr number value' = m.setGpr number value' :=
  congrArg (fun gprs ↦ ({ m with gprs := gprs } : Machine cfg xlen flen))
    (IntegerRegisters.write_write _ _ _ _)

@[simp] theorem setGpr_zero : m.setGpr 0#5 value = m :=
  congrArg (fun gprs ↦ ({ m with gprs := gprs } : Machine cfg xlen flen))
    (IntegerRegisters.write_zero _ _)

theorem setGpr_read : m.setGpr number (m.gprs.read number) = m :=
  congrArg (fun gprs ↦ ({ m with gprs := gprs } : Machine cfg xlen flen))
    (IntegerRegisters.write_read _ _)

namespace Session

@[simp] theorem withMachine_machine : (s.withMachine m).machine = m := rfl
@[simp] theorem withMachine_withMachine : (s.withMachine m).withMachine m' = s.withMachine m' := rfl
@[simp] theorem withAccess_machine : (s.withAccess access).machine = s.machine := rfl
@[simp] theorem withMachine_withAccess :
    (s.withAccess access).withMachine m = (s.withMachine m).withAccess access := rfl
@[simp] theorem polls_withMachine : (s.withMachine m).polls = s.polls := rfl

@[simp] theorem polls_withAccess :
    (s.withAccess access).polls = s.polls + if access.isPoll then 1 else 0 := by
  rw [polls, withAccess, List.countP_append, List.countP_singleton]
  rfl

end Session

end Updates

/-! ### Steps -/

/-- The instructions of the ROM after which execution goes on at the next word. -/
def RomInstruction.isStraight : RomInstruction → Bool
  | .generated instruction => instruction.isStraight
  | .bne _ _ _ | .dret => false
  | _ => true

section Steps

variable (hxlen : xlen = 32 ∨ xlen = 64) (haligned : cfg.dmBaseAddress.toNat % 4096 = 0)
  (e : Environment cfg xlen flen) (flags : ℕ → BitVec 8) {s : Session cfg xlen flen} {index : ℕ}
include hxlen haligned

omit hxlen haligned in
theorem length_romListing_le (cfg : Config) : (romListing cfg.hasSndScratch).length ≤ 40 := by
  cases cfg.hasSndScratch <;> decide

omit hxlen haligned in
theorem entryLoop_lt (cfg : Config) : Label.entryLoop.index cfg.hasSndScratch < 512 := by
  cases cfg.hasSndScratch <;> decide

/-- A step at a word of the ROM. -/
theorem romStep_eq {instruction : RomInstruction} (hpc : s.machine.pc = romAddress cfg xlen index)
    (hcode : (romListing cfg.hasSndScratch)[index]? = some instruction) :
    e.romStep flags s = e.romDispatch flags s.counted (some instruction) := by
  have hlength := length_romListing_le cfg
  obtain ⟨hindex, -⟩ := List.getElem?_eq_some_iff.mp hcode
  rw [Environment.romStep,
    if_neg (hpc ▸ romAddress_ne_whereToAddress hxlen haligned (show index < 512 by omega)),
    romFetch_eq hxlen haligned e hindex hpc, hcode]

theorem romStep_next {after : Session cfg xlen flen} {instruction : RomInstruction}
    (hpc : s.machine.pc = romAddress cfg xlen index)
    (hcode : (romListing cfg.hasSndScratch)[index]? = some instruction)
    (hexecute : e.romExecute flags s.counted instruction = some after) :
    Advances (e.romStep flags) 1 s after := by
  refine Advances.single ?_
  rw [romStep_eq hxlen haligned e flags hpc hcode]
  cases instruction with
  | dret => exact absurd hexecute.symm (Option.some_ne_none after)
  | _ => simp only [Environment.romDispatch, hexecute]

/-- Away from `entry_loop` no iteration begins. -/
theorem counted_of_ne (hpc : s.machine.pc = romAddress cfg xlen index) (hindex : index < 512)
    (hother : index ≠ Label.entryLoop.index cfg.hasSndScratch) : s.counted = s := by
  refine if_neg fun heq ↦ hother ?_
  rw [hpc, entryLoopAddress] at heq
  exact (romAddress_injective hxlen haligned hindex (entryLoop_lt cfg)).mp heq

omit hxlen haligned in
/-- A straight instruction advances the program counter by one word. -/
theorem pc_of_romExecute {after : Session cfg xlen flen} {instruction : RomInstruction}
    (hstraight : instruction.isStraight = true)
    (hexecute : e.romExecute flags s instruction = some after) :
    after.machine.pc = s.machine.pc + 4 := by
  cases instruction with
  | bne | dret => exact absurd hstraight Bool.false_ne_true
  | generated instruction =>
    obtain ⟨machine, hmachine, rfl⟩ := Option.map_eq_some_iff.mp hexecute
    exact pc_of_isStraight hstraight hmachine
  | fence | andi | add =>
    rw [← Option.some_inj.mp hexecute]
    rfl
  | lbu =>
    obtain ⟨offset, -, hload⟩ := Option.bind_eq_some_iff.mp hexecute
    split_ifs at hload
    rw [← Option.some_inj.mp hload]
    rfl
  | sw =>
    obtain ⟨offset, -, hstore⟩ := Option.bind_eq_some_iff.mp hexecute
    rw [← Option.some_inj.mp hstore]
    rfl

/-- Straight code of the ROM executes its instructions one after the other. -/
theorem advances_straight {code : List RomInstruction} {final : Session cfg xlen flen}
    (hpc : s.machine.pc = romAddress cfg xlen index)
    (hcode : code <+: (romListing cfg.hasSndScratch).drop index)
    (hstraight : code.all RomInstruction.isStraight = true)
    (hloop : Label.entryLoop.index cfg.hasSndScratch < index ∨
      index + code.length ≤ Label.entryLoop.index cfg.hasSndScratch)
    (hexecute : code.foldlM (e.romExecute flags) s = some final) :
    Advances (e.romStep flags) code.length s final ∧
      final.machine.pc = romAddress cfg xlen (index + code.length) := by
  -- The induction is on the code; its first word is the one at the program counter.
  induction code generalizing index s with
  | nil =>
    obtain rfl : s = final := Option.some_inj.mp hexecute
    exact ⟨rfl, hpc⟩
  | cons instruction rest ih =>
    rw [List.foldlM_cons, Option.bind_eq_bind, Option.bind_eq_some_iff] at hexecute
    obtain ⟨after, hafter, hrest⟩ := hexecute
    rw [List.all_cons, Bool.and_eq_true_iff] at hstraight
    rw [List.length_cons] at hloop ⊢
    obtain ⟨tail, htail⟩ := hcode
    have hhere : (romListing cfg.hasSndScratch)[index]? = some instruction := by
      rw [← Nat.add_zero index, ← List.getElem?_drop, ← htail]
      rfl
    have hnext : rest <+: (romListing cfg.hasSndScratch).drop (index + 1) := by
      refine ⟨tail, ?_⟩
      rw [← List.drop_drop, ← htail]
      rfl
    have hlength := length_romListing_le cfg
    obtain ⟨hindex, -⟩ := List.getElem?_eq_some_iff.mp hhere
    have hcounted := counted_of_ne hxlen haligned hpc (by omega) (by omega)
    have hpc' : after.machine.pc = romAddress cfg xlen (index + 1) := by
      rw [pc_of_romExecute e flags hstraight.1 hafter, hpc]
      exact romAddress_succ hxlen haligned (by omega)
    obtain ⟨hadvances, hend⟩ := ih hpc' hnext hstraight.2 (by omega) hrest
    have hfirst := romStep_next hxlen haligned e flags hpc hhere (hcounted.symm ▸ hafter)
    rw [Nat.add_comm rest.length 1, ← Nat.add_assoc]
    exact ⟨hfirst.trans hadvances, hend⟩

/-- Straight code leads to its result at the word after it. -/
theorem advances_code {code : List RomInstruction} {result : BitVec xlen → Session cfg xlen flen}
    (hpc : s.machine.pc = romAddress cfg xlen index)
    (hcode : code <+: (romListing cfg.hasSndScratch).drop index)
    (hstraight : code.all RomInstruction.isStraight = true)
    (hloop : Label.entryLoop.index cfg.hasSndScratch < index ∨
      index + code.length ≤ Label.entryLoop.index cfg.hasSndScratch)
    (hexecute : ∃ pc, code.foldlM (e.romExecute flags) s = some (result pc))
    (hresult : ∀ pc, (result pc).machine.pc = pc) :
    Advances (e.romStep flags) code.length s
      (result (romAddress cfg xlen (index + code.length))) := by
  obtain ⟨pc, hrun⟩ := hexecute
  obtain ⟨hadvances, hend⟩ :=
    advances_straight hxlen haligned e flags hpc hcode hstraight hloop hrun
  rw [hresult] at hend
  exact hend ▸ hadvances

end Steps

/-! ### Blocks -/

/-- The registers after `_entry`. -/
def saved (m : Machine cfg xlen flen) : Machine cfg xlen flen :=
  entered (m.setCsr csrDscratch0 (m.gprs.read 8))

theorem saved_withPc (m : Machine cfg xlen flen) (pc : BitVec xlen) :
    saved (m.withPc pc) = (saved m).withPc pc := by
  unfold saved entered
  split_ifs <;> rfl

/-- The registers with which the ROM is left. -/
def restored (m : Machine cfg xlen flen) : Machine cfg xlen flen :=
  (left m).setGpr 8 (m.csrs csrDscratch0)

@[simp] theorem restored_withPc (m : Machine cfg xlen flen) (pc : BitVec xlen) :
    restored (m.withPc pc) = (restored m).withPc pc := by
  unfold restored left
  split_ifs <;> rfl

/-- What the polls leave in s0 is not kept. -/
@[simp] theorem restored_setGpr (m : Machine cfg xlen flen) (value : BitVec xlen) :
    restored (m.setGpr 8#5 value) = restored m := by
  have hwrites (number : BitVec 5) (other kept : BitVec xlen) :
      ((m.gprs.write 8 value).write number other).write 8 kept =
        (m.gprs.write number other).write 8 kept := by
    ext index : 2
    rw [IntegerRegisters.read_write, IntegerRegisters.read_write, IntegerRegisters.read_write,
      IntegerRegisters.read_write, IntegerRegisters.read_write]
    split_ifs <;> rfl
  unfold restored left
  split_ifs
  · exact congrArg (fun gprs ↦ ({ m with gprs := gprs } : Machine cfg xlen flen)) (hwrites _ _ _)
  · exact setGpr_setGpr _ _ _ _

/-- The offset of the flag byte of a hart. -/
def flagOffset (hart : ℕ) : BitVec 12 := flagsBaseAddr + BitVec.ofNat 12 hart

theorem flagOffset_toNat {hart : ℕ} (hhart : hart < 1024) :
    (flagOffset hart).toNat = flagAddress hart := by
  have hbase : flagsBaseAddr.toNat = 0x400 := rfl
  rw [flagOffset, flagAddress, BitVec.toNat_add, BitVec.toNat_ofNat, hbase]
  omega

theorem romBase_eq (cfg : Config) : romBase cfg.hasSndScratch = cfg.loadBaseAddr :=
  (loadBaseAddr_eq cfg).symm

theorem loadBaseAddr_ne_s0 (cfg : Config) : cfg.loadBaseAddr ≠ 8#5 := by
  rw [loadBaseAddr_eq]
  split_ifs <;> decide

section Blocks

variable (hxlen : xlen = 32 ∨ xlen = 64) (haligned : cfg.dmBaseAddress.toNat % 4096 = 0)
  (e : Environment cfg xlen flen) (flags : ℕ → BitVec 8)
include hxlen haligned

/-- The address of a small offset from the base register. -/
theorem debugOffset_immediate {offset : BitVec 12} (hlow : offset.toNat < 0x800) :
    debugOffset cfg (dmBase cfg xlen + offset.signExtend xlen) = some offset := by
  have hextend : offset.signExtend xlen = offset.setWidth xlen := by
    refine BitVec.signExtend_eq_setWidth_of_msb_false ?_
    rw [BitVec.msb_eq_decide]
    exact decide_eq_false (by omega)
  rw [hextend, debugOffset_add hxlen haligned]

/-- The address of a flag byte. -/
theorem debugOffset_flag {hart : ℕ} (hhart : hart < 1024) :
    debugOffset cfg (BitVec.ofNat xlen hart + dmBase cfg xlen + flagsBaseAddr.signExtend xlen) =
      some (flagOffset hart) := by
  have hsum : BitVec.ofNat xlen hart + flagsBaseAddr.signExtend xlen =
      (flagOffset hart).setWidth xlen := by
    have hoffset := flagOffset_toNat hhart
    have haddress : flagAddress hart = 0x400 + hart := rfl
    have hwide : 2 ^ 32 ≤ 2 ^ xlen := by rcases hxlen with rfl | rfl <;> decide
    have hbase : (flagsBaseAddr.signExtend xlen).toNat = 0x400 := by
      rcases hxlen with rfl | rfl <;> rfl
    rw [← BitVec.toNat_inj, BitVec.toNat_add, BitVec.toNat_ofNat, BitVec.toNat_setWidth, hbase,
      hoffset, Nat.mod_eq_of_lt (show hart < 2 ^ xlen by omega), haddress, Nat.add_comm]
  rw [BitVec.add_comm (BitVec.ofNat xlen hart), BitVec.add_assoc, hsum,
    debugOffset_add hxlen haligned]

variable {s : Session cfg xlen flen}

omit hxlen haligned in
theorem romExecute_generated (instruction : Instruction) :
    e.romExecute flags s (.generated instruction) =
      (e.execute s.machine instruction).map s.withMachine := rfl

omit hxlen haligned in
theorem romExecute_add (rd rs1 rs2 : BitVec 5) :
    e.romExecute flags s (.add rd rs1 rs2) =
      some (s.withMachine
        (s.machine.setGpr rd (s.machine.gprs.read rs1 + s.machine.gprs.read rs2)).advance) := rfl

omit hxlen haligned in
theorem romExecute_andi (rd rs1 : BitVec 5) (imm : BitVec 12) :
    e.romExecute flags s (.andi rd rs1 imm) =
      some (s.withMachine
        (s.machine.setGpr rd (s.machine.gprs.read rs1 &&& imm.signExtend xlen)).advance) := rfl

/-- A store to a control address. -/
theorem romExecute_sw (rs2 : BitVec 5) {rs1 : BitVec 5} {offset : BitVec 12}
    (hlow : offset.toNat < 0x380) (hbase : s.machine.gprs.read rs1 = dmBase cfg xlen) :
    e.romExecute flags s (.sw rs2 rs1 offset) =
      some ((s.withMachine s.machine.advance).withAccess
        (.store offset ((s.machine.gprs.read rs2).setWidth 32))) := by
  rw [Environment.romExecute, hbase, debugOffset_immediate hxlen haligned (by omega),
    Option.bind_some]
  simp only [writeWord_of_lt e.inputs s.machine.data _ hlow, setData_data_self]

/-- A load of the flag byte of a hart. -/
theorem romExecute_lbu {rd rs1 : BitVec 5} {hart : ℕ} (hhart : hart < 1024)
    (hsource : s.machine.gprs.read rs1 = BitVec.ofNat xlen hart + dmBase cfg xlen) :
    e.romExecute flags s (.lbu rd rs1 flagsBaseAddr) =
      some ((s.withMachine
        (s.machine.setGpr rd ((flags s.polls).setWidth xlen)).advance).withAccess
          (.poll (flagOffset hart))) := by
  have hoffset := flagOffset_toNat hhart
  have haddress : flagAddress hart = 0x400 + hart := rfl
  have hrange : flagsBaseAddr ≤ flagOffset hart ∧ flagOffset hart ≤ flagsEndAddr := by
    constructor
    · show 0x400 ≤ (flagOffset hart).toNat
      omega
    · show (flagOffset hart).toNat ≤ 0x7ff
      omega
  rw [Environment.romExecute, hsource, debugOffset_flag hxlen haligned hhart, Option.bind_some,
    if_pos hrange]

/-- `_entry` saves s0, and loads the base address away from the zero page. -/
theorem foldlM_entryCode
    (hpc : s.machine.pc = romAddress cfg xlen (Label.entryCode.index cfg.hasSndScratch)) :
    ∃ pc, (entryCode cfg.hasSndScratch).foldlM (e.romExecute flags) s =
      some (s.withMachine ((saved s.machine).withPc pc)) := by
  have hshift : 12 < xlen := by omega
  unfold entryCode saved entered
  cases hscratch : cfg.hasSndScratch with
  | false =>
    refine ⟨s.machine.pc + 4 + 4, ?_⟩
    simp [sndScratch, romCsrw, Environment.romExecute, Environment.execute, advance_eq]
  | true =>
    refine ⟨s.machine.pc + 4 + 4 + 4 + 4 + 4 + 4, ?_⟩
    have hauipc : s.machine.pc + BitVec.ofNat xlen 4 + BitVec.ofNat xlen 4 + BitVec.ofNat xlen 4 +
        BitVec.signExtend xlen 0#32 = romAddress cfg xlen 9 := by
      have hzero : BitVec.signExtend xlen 0#32 = BitVec.ofNat xlen 0 := by
        rcases hxlen with rfl | rfl <;> rfl
      have hentry : Label.entryCode.index cfg.hasSndScratch = 6 := rfl
      rw [hzero, BitVec.add_zero, hpc, hentry]
      exact (congrArg (fun pc ↦ pc + 4 + 4) (romAddress_succ hxlen haligned (by decide))).trans
        ((congrArg (fun pc ↦ pc + 4) (romAddress_succ hxlen haligned (by decide))).trans
          (romAddress_succ hxlen haligned (by decide)))
    simp [sndScratch, romCsrw, romLoadBase, Environment.romExecute, Environment.execute,
      advance_eq, hshift]
    rw [hauipc, romAddress, shift_codeAddress hxlen haligned]

omit hxlen haligned in
/-- The index of the hart goes to s0. -/
theorem romExecute_mhartid {index : BitVec xlen} (hindex : s.machine.csrs csrMhartid = index) :
    e.romExecute flags s (romCsrr 8 csrMhartid) =
      some (s.withMachine (s.machine.setGpr 8#5 index).advance) := by
  simp [romCsrr, romExecute_generated, Environment.execute, hindex]

/-- A poll: the base address, zero at the zero page, is added to the index of the hart. -/
theorem foldlM_pollCode {hart : ℕ} (hhart : hart < 1024) (mask : BitVec 12)
    (hbase : s.machine.gprs.read cfg.loadBaseAddr = dmBase cfg xlen)
    (hindex : s.machine.gprs.read 8#5 = BitVec.ofNat xlen hart) :
    ∃ pc, (pollCode cfg.hasSndScratch mask).foldlM (e.romExecute flags) s =
      some ((s.withMachine ((s.machine.setGpr 8#5
        ((flags s.polls).setWidth xlen &&& mask.signExtend xlen)).withPc pc)).withAccess
          (.poll (flagOffset hart))) := by
  rw [loadBaseAddr_eq] at hbase
  unfold pollCode
  cases hscratch : cfg.hasSndScratch with
  | false =>
    refine ⟨s.machine.pc + 4 + 4, ?_⟩
    have hzero : s.machine.gprs.read 0#5 = 0 := s.machine.gprs.read_zero
    rw [hscratch, if_neg Bool.false_ne_true, hzero] at hbase
    have hsource : s.machine.gprs.read 8#5 = BitVec.ofNat xlen hart + dmBase cfg xlen := by
      rw [hindex, ← hbase]
      exact (BitVec.add_zero _).symm
    simp [sndScratch, romExecute_andi, romExecute_lbu hxlen haligned e flags hhart, hsource,
      advance_eq]
  | true =>
    refine ⟨s.machine.pc + 4 + 4 + 4, ?_⟩
    rw [hscratch, if_pos rfl] at hbase
    have hsource : s.machine.gprs.read 8#5 + s.machine.gprs.read 10#5 =
        BitVec.ofNat xlen hart + dmBase cfg xlen := by
      rw [hindex, hbase]
    simp [sndScratch, romExecute_add, romExecute_andi,
      romExecute_lbu hxlen haligned e flags hhart, hsource, advance_eq]

/-- The first poll of an iteration, after the store to Halted. -/
theorem foldlM_pollGoCode {hart : ℕ} (hhart : hart < 1024)
    (hbase : s.machine.gprs.read cfg.loadBaseAddr = dmBase cfg xlen)
    (hindex : s.machine.gprs.read 8#5 = BitVec.ofNat xlen hart) :
    ∃ pc, (pollGoCode cfg.hasSndScratch).foldlM (e.romExecute flags) s =
      some (((s.withMachine ((s.machine.setGpr 8#5
        ((flags s.polls).setWidth xlen &&& (1#12).signExtend xlen)).withPc pc)).withAccess
          (.store haltedAddr ((BitVec.ofNat xlen hart).setWidth 32))).withAccess
            (.poll (flagOffset hart))) := by
  unfold pollGoCode
  rw [romBase_eq, List.foldlM_cons, Option.bind_eq_bind,
    romExecute_sw hxlen haligned e flags _ (by decide) hbase, Option.bind_some,
    show s.machine.gprs.read 8 = _ from hindex]
  obtain ⟨pc, hpoll⟩ := foldlM_pollCode hxlen haligned e flags
    (s := (s.withMachine s.machine.advance).withAccess
      (.store haltedAddr ((BitVec.ofNat xlen hart).setWidth 32))) hhart 1 hbase hindex
  refine ⟨pc, hpoll.trans ?_⟩
  simp [advance_eq, Access.isPoll]

/-- The second poll of an iteration. -/
theorem foldlM_pollResumeCode {hart : ℕ} (hhart : hart < 1024)
    (hbase : s.machine.gprs.read cfg.loadBaseAddr = dmBase cfg xlen)
    (hindex : s.machine.csrs csrMhartid = BitVec.ofNat xlen hart) :
    ∃ pc, (pollResumeCode cfg.hasSndScratch).foldlM (e.romExecute flags) s =
      some ((s.withMachine ((s.machine.setGpr 8#5
        ((flags s.polls).setWidth xlen &&& (2#12).signExtend xlen)).withPc pc)).withAccess
          (.poll (flagOffset hart))) := by
  have hother := loadBaseAddr_ne_s0 cfg
  have hexecute := romExecute_mhartid e flags hindex
  unfold pollResumeCode
  rw [List.foldlM_cons, Option.bind_eq_bind, hexecute, Option.bind_some]
  obtain ⟨pc, hpoll⟩ := foldlM_pollCode hxlen haligned e flags
    (s := s.withMachine (s.machine.setGpr 8#5 (BitVec.ofNat xlen hart)).advance) hhart 2
    ((IntegerRegisters.read_write_of_ne _ _ hother).trans hbase)
    (IntegerRegisters.read_write_self _ _ (by decide))
  refine ⟨pc, hpoll.trans ?_⟩
  simp [advance_eq]

omit hxlen haligned in
/-- The part that restores the registers. -/
theorem foldlM_restoreCode (s : Session cfg xlen flen) :
    ∃ pc, (restoreCode cfg.hasSndScratch).foldlM (e.romExecute flags) s =
      some (s.withMachine ((restored s.machine).withPc pc)) := by
  unfold restoreCode restored left
  cases hscratch : cfg.hasSndScratch with
  | false =>
    refine ⟨s.machine.pc + 4, ?_⟩
    simp [sndScratch, romCsrr, romExecute_generated, Environment.execute, advance_eq]
  | true =>
    refine ⟨s.machine.pc + 4 + 4, ?_⟩
    simp [sndScratch, romCsrr, romExecute_generated, Environment.execute, advance_eq]

/-- `going` signals Going and restores the registers. -/
theorem foldlM_goingCode (hbase : s.machine.gprs.read cfg.loadBaseAddr = dmBase cfg xlen) :
    ∃ pc, (goingCode cfg.hasSndScratch).foldlM (e.romExecute flags) s =
      some ((s.withMachine ((restored s.machine).withPc pc)).withAccess
        (.store goingAddr 0)) := by
  have hzero : (s.machine.gprs.read 0).setWidth 32 = 0 := by
    rw [s.machine.gprs.read_zero]
    exact BitVec.setWidth_zero _ _
  unfold goingCode
  rw [romBase_eq, List.foldlM_cons, Option.bind_eq_bind,
    romExecute_sw hxlen haligned e flags _ (by decide) hbase, Option.bind_some, hzero]
  obtain ⟨pc, hrestore⟩ := foldlM_restoreCode e flags
    ((s.withMachine s.machine.advance).withAccess (.store goingAddr 0))
  refine ⟨pc, hrestore.trans ?_⟩
  simp [advance_eq]

/-- `_resume` signals Resuming and restores the registers. -/
theorem foldlM_resumeCode {hart : ℕ}
    (hbase : s.machine.gprs.read cfg.loadBaseAddr = dmBase cfg xlen)
    (hindex : s.machine.csrs csrMhartid = BitVec.ofNat xlen hart) :
    ∃ pc, (resumeCode cfg.hasSndScratch).foldlM (e.romExecute flags) s =
      some ((s.withMachine ((restored s.machine).withPc pc)).withAccess
        (.store resumingAddr ((BitVec.ofNat xlen hart).setWidth 32))) := by
  have hexecute := romExecute_mhartid e flags hindex
  have hread : (s.machine.setGpr 8#5 (BitVec.ofNat xlen hart)).advance.gprs.read 8 =
      BitVec.ofNat xlen hart := IntegerRegisters.read_write_self _ _ (by decide)
  have hsignal := romExecute_sw hxlen haligned e flags 8
    (s := s.withMachine (s.machine.setGpr 8#5 (BitVec.ofNat xlen hart)).advance)
    (show resumingAddr.toNat < 0x380 by decide)
    ((IntegerRegisters.read_write_of_ne _ _ (loadBaseAddr_ne_s0 cfg)).trans hbase)
  rw [Session.withMachine_machine, hread] at hsignal
  obtain ⟨pc, hrestore⟩ := foldlM_restoreCode e flags
    ((s.withMachine (s.machine.setGpr 8#5 (BitVec.ofNat xlen hart)).advance.advance).withAccess
      (.store resumingAddr ((BitVec.ofNat xlen hart).setWidth 32)))
  unfold resumeCode
  rw [romBase_eq, List.foldlM_cons, Option.bind_eq_bind, hexecute, Option.bind_some,
    List.foldlM_cons, Option.bind_eq_bind, hsignal, Option.bind_some]
  refine ⟨pc, hrestore.trans ?_⟩
  simp [advance_eq]

end Blocks

/-! ### The way through the ROM -/

/-- A hart at a word of the ROM that has saved its registers. -/
def inLoop (m : Machine cfg xlen flen) (index : ℕ) (value : BitVec xlen) (accesses : List Access)
    (iterations : ℕ) : Session cfg xlen flen where
  machine := ((saved m).setGpr 8#5 value).withPc (romAddress cfg xlen index)
  accesses := accesses
  iterations := iterations

/-- A hart that has restored its registers. -/
def afterLoop (m : Machine cfg xlen flen) (pc : BitVec xlen) (accesses : List Access)
    (iterations : ℕ) : Session cfg xlen flen where
  machine := (restored (saved m)).withPc pc
  accesses := accesses
  iterations := iterations

/-- A masked flag byte. -/
def masked (xlen : ℕ) (byte : BitVec 8) (mask : BitVec 12) : BitVec xlen :=
  byte.setWidth xlen &&& mask.signExtend xlen

section Way

variable (hxlen : xlen = 32 ∨ xlen = 64) (haligned : cfg.dmBaseAddress.toNat % 4096 = 0)
  (e : Environment cfg xlen flen) (flags : ℕ → BitVec 8) {m : Machine cfg xlen flen} {hart : ℕ}
  {index : ℕ} {value : BitVec xlen} {accesses : List Access} {iterations : ℕ}

theorem read_saved_base (m : Machine cfg xlen flen) (value : BitVec xlen) (pc : BitVec xlen) :
    (((saved m).setGpr 8#5 value).withPc pc).gprs.read cfg.loadBaseAddr = dmBase cfg xlen :=
  (IntegerRegisters.read_write_of_ne _ _ (loadBaseAddr_ne_s0 cfg)).trans (read_entered _ pc)

theorem saved_mhartid (m : Machine cfg xlen flen) :
    (saved m).csrs csrMhartid = m.csrs csrMhartid :=
  (entered_csrs_of_ne _ (by decide)).trans
    (Function.update_of_ne (show csrMhartid ≠ csrDscratch0 by decide) (m.gprs.read 8) m.csrs)

/-- Going on in the loop with another value in s0. -/
theorem inLoop_setGpr (value' : BitVec xlen) (index' : ℕ) :
    (inLoop m index value accesses iterations).withMachine
        (((inLoop m index value accesses iterations).machine.setGpr 8#5 value').withPc
          (romAddress cfg xlen index')) = inLoop m index' value' accesses iterations := by
  refine congrArg (fun machine ↦ Session.mk machine accesses iterations) ?_
  show (((saved m).setGpr 8#5 value).setGpr 8#5 value').withPc _ = _
  rw [setGpr_setGpr]

/-- The loop begins with s0 as it was. -/
theorem inLoop_start (m : Machine cfg xlen flen) (index : ℕ) :
    inLoop m index (m.gprs.read 8) accesses iterations =
      ⟨(saved m).withPc (romAddress cfg xlen index), accesses, iterations⟩ := by
  have hsaved : (saved m).gprs.read 8#5 = m.gprs.read 8#5 :=
    entered_gprs_of_ne _ fun hborrowed ↦ absurd hborrowed.2 (by decide)
  refine congrArg (fun machine ↦ Session.mk machine accesses iterations) ?_
  show ((saved m).setGpr 8#5 (m.gprs.read 8#5)).withPc _ = _
  rw [← hsaved, setGpr_read]

/-- Leaving the loop with the registers restored. -/
theorem inLoop_restored (pc : BitVec xlen) :
    (inLoop m index value accesses iterations).withMachine
        ((restored (inLoop m index value accesses iterations).machine).withPc pc) =
      afterLoop m pc accesses iterations := by
  refine congrArg (fun machine ↦ Session.mk machine accesses iterations) ?_
  show (restored (((saved m).setGpr 8#5 value).withPc _)).withPc pc = _
  rw [restored_withPc, restored_setGpr, withPc_withPc]

include hxlen haligned

omit hxlen haligned in
/-- The number of a hart survives the narrowing to a word. -/
theorem hartWord (hxlen : xlen = 32 ∨ xlen = 64) (hhart : hart < 1024) :
    (BitVec.ofNat xlen hart).setWidth 32 = BitVec.ofNat 32 hart := by
  have hwide : 2 ^ 32 ≤ 2 ^ xlen := by rcases hxlen with rfl | rfl <;> decide
  rw [← BitVec.toNat_inj, BitVec.toNat_setWidth, BitVec.toNat_ofNat, BitVec.toNat_ofNat,
    Nat.mod_eq_of_lt (show hart < 2 ^ xlen by omega)]

/-- A jump in the debug memory. -/
theorem advances_jump {s : Session cfg xlen flen} {target : BitVec 12}
    (hpc : s.machine.pc = romAddress cfg xlen index)
    (hcode : (romListing cfg.hasSndScratch)[index]? =
      some (.generated (.jal 0 (romDistance 21 (romOffset index) target))))
    (hother : index ≠ Label.entryLoop.index cfg.hasSndScratch) :
    Advances (e.romStep flags) 1 s
      (s.withMachine (s.machine.withPc (dmBase cfg xlen + target.setWidth xlen))) := by
  have hlength := length_romListing_le cfg
  obtain ⟨hindex, -⟩ := List.getElem?_eq_some_iff.mp hcode
  refine romStep_next hxlen haligned e flags hpc hcode ?_
  rw [counted_of_ne hxlen haligned hpc (by omega) hother, romExecute_generated]
  refine congrArg (fun m ↦ some (s.withMachine m)) ?_
  show ((s.machine.setGpr 0#5 (s.machine.pc + 4)).withPc _) = _
  rw [setGpr_zero, hpc]
  exact congrArg _ (dmBase_add_romDistance hxlen haligned (by decide) (by decide) _ _)

/-- `_entry`. -/
theorem advances_entry (hpc : m.pc = romAddress cfg xlen 0) :
    Advances (e.romStep flags) (1 + (entryCode cfg.hasSndScratch).length)
      ⟨m, accesses, iterations⟩
      (inLoop m (Label.entryLoop.index cfg.hasSndScratch) (m.gprs.read 8) accesses iterations) := by
  have hjump := advances_jump hxlen haligned e flags (s := ⟨m, accesses, iterations⟩) hpc
    (show (romListing cfg.hasSndScratch)[0]? = some (romJump cfg.hasSndScratch 0 .entryCode) by
      cases cfg.hasSndScratch <;> decide +kernel)
    (by cases cfg.hasSndScratch <;> decide)
  have hblock := advances_code hxlen haligned e flags rfl
    (show entryCode cfg.hasSndScratch <+: _ by cases cfg.hasSndScratch <;> decide +kernel)
    (by cases cfg.hasSndScratch <;> rfl)
    (Or.inr (by cases cfg.hasSndScratch <;> decide))
    (foldlM_entryCode hxlen haligned e flags
      (s := ⟨m.withPc (romAddress cfg xlen (Label.entryCode.index cfg.hasSndScratch)), accesses,
        iterations⟩) rfl)
    (fun pc ↦ rfl)
  have hindex : Label.entryCode.index cfg.hasSndScratch + (entryCode cfg.hasSndScratch).length =
      Label.entryLoop.index cfg.hasSndScratch := by
    cases cfg.hasSndScratch <;> rfl
  rw [hindex, saved_withPc, withPc_withPc] at hblock
  rw [inLoop_start]
  exact hjump.trans hblock

/-- The first instruction of `entry_loop`. -/
theorem advances_entryLoop (hmhartid : m.csrs csrMhartid = BitVec.ofNat xlen hart) :
    Advances (e.romStep flags) 1
      (inLoop m (Label.entryLoop.index cfg.hasSndScratch) value accesses iterations)
      (inLoop m (Label.entryLoop.index cfg.hasSndScratch + 1) (BitVec.ofNat xlen hart) accesses
        (iterations + 1)) := by
  have hcode : (romListing cfg.hasSndScratch)[Label.entryLoop.index cfg.hasSndScratch]? =
      some (romCsrr 8 csrMhartid) := by
    cases cfg.hasSndScratch <;> decide +kernel
  refine romStep_next hxlen haligned e flags rfl hcode ?_
  have hcounted : (inLoop m (Label.entryLoop.index cfg.hasSndScratch) value accesses
      iterations).counted = inLoop m (Label.entryLoop.index cfg.hasSndScratch) value accesses
        (iterations + 1) := if_pos rfl
  have hnext := romAddress_succ hxlen haligned
    (show Label.entryLoop.index cfg.hasSndScratch + 1 < 512 by cases cfg.hasSndScratch <;> decide)
  rw [hcounted, romExecute_mhartid e flags ((saved_mhartid m).trans hmhartid), advance_eq,
    setGpr_pc, show (inLoop m _ value accesses (iterations + 1)).machine.pc + 4 = _ from hnext]
  exact congrArg some (inLoop_setGpr _ _)

/-- The signal of the hart and its poll for Go. -/
theorem advances_pollGo (hhart : hart < 1024) :
    Advances (e.romStep flags) (pollGoCode cfg.hasSndScratch).length
      (inLoop m (Label.entryLoop.index cfg.hasSndScratch + 1) (BitVec.ofNat xlen hart) accesses
        iterations)
      (inLoop m (goTest cfg.hasSndScratch)
        (masked xlen (flags (accesses.countP Access.isPoll)) 1)
        (accesses ++ [.store haltedAddr (BitVec.ofNat 32 hart), .poll (flagOffset hart)])
        iterations) := by
  have hindex : Label.entryLoop.index cfg.hasSndScratch + 1 +
      (pollGoCode cfg.hasSndScratch).length = goTest cfg.hasSndScratch := by
    rw [goTest]
    omega
  have hblock := advances_code hxlen haligned e flags rfl
    (show pollGoCode cfg.hasSndScratch <+: _ by cases cfg.hasSndScratch <;> decide +kernel)
    (by cases cfg.hasSndScratch <;> rfl) (Or.inl (Nat.lt_succ_self _))
    (foldlM_pollGoCode hxlen haligned e flags
      (s := inLoop m (Label.entryLoop.index cfg.hasSndScratch + 1) (BitVec.ofNat xlen hart) accesses
        iterations) hhart (read_saved_base m _ _)
      (IntegerRegisters.read_write_self _ _ (by decide)))
    (fun pc ↦ rfl)
  rw [inLoop_setGpr, hartWord hxlen hhart, hindex] at hblock
  rwa [List.append_cons]

/-- The poll for Resume. -/
theorem advances_pollResume (hhart : hart < 1024)
    (hmhartid : m.csrs csrMhartid = BitVec.ofNat xlen hart) :
    Advances (e.romStep flags) (pollResumeCode cfg.hasSndScratch).length
      (inLoop m (goTest cfg.hasSndScratch + 1) value accesses iterations)
      (inLoop m (resumeTest cfg.hasSndScratch)
        (masked xlen (flags (accesses.countP Access.isPoll)) 2)
        (accesses ++ [.poll (flagOffset hart)]) iterations) := by
  have hindex : goTest cfg.hasSndScratch + 1 + (pollResumeCode cfg.hasSndScratch).length =
      resumeTest cfg.hasSndScratch := by
    rw [resumeTest]
    omega
  have hblock := advances_code hxlen haligned e flags rfl
    (show pollResumeCode cfg.hasSndScratch <+: _ by cases cfg.hasSndScratch <;> decide +kernel)
    (by cases cfg.hasSndScratch <;> rfl) (Or.inl (by cases cfg.hasSndScratch <;> decide))
    (foldlM_pollResumeCode hxlen haligned e flags
      (s := inLoop m (goTest cfg.hasSndScratch + 1) value accesses iterations) hhart
      (read_saved_base m _ _) ((saved_mhartid m).trans hmhartid))
    (fun pc ↦ rfl)
  rwa [inLoop_setGpr, hindex] at hblock

/-- A test of s0. -/
theorem advances_branch {target : Label}
    (hcode : (romListing cfg.hasSndScratch)[index]? =
      some (romBranch cfg.hasSndScratch index target))
    (hother : index ≠ Label.entryLoop.index cfg.hasSndScratch) :
    Advances (e.romStep flags) 1 (inLoop m index value accesses iterations)
      (inLoop m (if value = 0 then index + 1 else target.index cfg.hasSndScratch) value accesses
        iterations) := by
  have hlength := length_romListing_le cfg
  obtain ⟨hindex, -⟩ := List.getElem?_eq_some_iff.mp hcode
  refine romStep_next hxlen haligned e flags rfl hcode ?_
  rw [counted_of_ne hxlen haligned rfl (by omega) hother]
  have hread : (inLoop m index value accesses iterations).machine.gprs.read 8 = value :=
    IntegerRegisters.read_write_self _ _ (by decide)
  have hzero : (inLoop m index value accesses iterations).machine.gprs.read 0 = 0 :=
    IntegerRegisters.read_zero _
  rw [romBranch, Environment.romExecute, hread, hzero]
  by_cases hvalue : value = 0
  · rw [if_pos hvalue, if_pos hvalue, advance_eq,
      show (inLoop m index value accesses iterations).machine.pc + 4 = _ from
        romAddress_succ hxlen haligned (show index + 1 < 512 by omega)]
    rfl
  · rw [if_neg hvalue, if_neg hvalue,
      show (inLoop m index value accesses iterations).machine.pc + _ = _ from
        dmBase_add_romDistance hxlen haligned (by decide) (by decide) _ _]
    rfl

/-- `going`, up to WhereTo. -/
theorem advances_going :
    Advances (e.romStep flags) ((goingCode cfg.hasSndScratch).length + 1)
      (inLoop m (Label.going.index cfg.hasSndScratch) value accesses iterations)
      (afterLoop m (whereToAddress cfg xlen) (accesses ++ [.store goingAddr 0]) iterations) := by
  have hblock := advances_code hxlen haligned e flags rfl
    (show goingCode cfg.hasSndScratch <+: _ by cases cfg.hasSndScratch <;> decide +kernel)
    (by cases cfg.hasSndScratch <;> rfl) (Or.inl (by cases cfg.hasSndScratch <;> decide))
    (foldlM_goingCode hxlen haligned e flags
      (s := inLoop m (Label.going.index cfg.hasSndScratch) value accesses iterations)
      (read_saved_base m _ _))
    (fun pc ↦ rfl)
  rw [inLoop_restored] at hblock
  have hjump := advances_jump hxlen haligned e flags
    (s := afterLoop m (romAddress cfg xlen (whereToJump cfg.hasSndScratch))
      (accesses ++ [.store goingAddr 0]) iterations) rfl
    (show (romListing cfg.hasSndScratch)[whereToJump cfg.hasSndScratch]? =
      some (romJumpWhereTo cfg.hasSndScratch) by cases cfg.hasSndScratch <;> decide +kernel)
    (by cases cfg.hasSndScratch <;> decide)
  exact hblock.trans hjump

/-- `_resume`, up to its `dret`. -/
theorem advances_resumeCode (hhart : hart < 1024)
    (hmhartid : m.csrs csrMhartid = BitVec.ofNat xlen hart) :
    Advances (e.romStep flags) (resumeCode cfg.hasSndScratch).length
      (inLoop m (Label.resumeCode.index cfg.hasSndScratch) value accesses iterations)
      (afterLoop m (romAddress cfg xlen (resumeEnd cfg.hasSndScratch))
        (accesses ++ [.store resumingAddr (BitVec.ofNat 32 hart)]) iterations) := by
  have hblock := advances_code hxlen haligned e flags rfl
    (show resumeCode cfg.hasSndScratch <+: _ by cases cfg.hasSndScratch <;> decide +kernel)
    (by cases cfg.hasSndScratch <;> rfl) (Or.inl (by cases cfg.hasSndScratch <;> decide))
    (foldlM_resumeCode hxlen haligned e flags
      (s := inLoop m (Label.resumeCode.index cfg.hasSndScratch) value accesses iterations)
      (read_saved_base m _ _) ((saved_mhartid m).trans hmhartid))
    (fun pc ↦ rfl)
  rwa [inLoop_restored, hartWord hxlen hhart] at hblock

end Way

/-! ### Rounds -/

/-- The first poll of a round finds the Go flag set. -/
def goSeen (flags : ℕ → BitVec 8) (round : ℕ) : Bool := (flags (2 * round)).getLsbD 0

/-- The second poll of a round finds the Resume flag set. -/
def resumeSeen (flags : ℕ → BitVec 8) (round : ℕ) : Bool := (flags (2 * round + 1)).getLsbD 1

/-- The accesses of a round up to the test for Go. -/
def firstAccesses (hart : ℕ) : List Access :=
  [.store haltedAddr (BitVec.ofNat 32 hart), .poll (flagOffset hart)]

/-- The accesses of a number of rounds. -/
def roundAccesses (hart rounds : ℕ) : List Access :=
  (List.replicate rounds (firstAccesses hart ++ [.poll (flagOffset hart)])).flatten

theorem roundAccesses_succ (hart rounds : ℕ) :
    roundAccesses hart (rounds + 1) =
      roundAccesses hart rounds ++ firstAccesses hart ++ [.poll (flagOffset hart)] := by
  rw [roundAccesses, List.replicate_succ', List.flatten_concat, List.append_assoc, roundAccesses]

theorem countP_roundAccesses (hart rounds : ℕ) :
    (roundAccesses hart rounds).countP Access.isPoll = 2 * rounds := by
  induction rounds with
  | zero => rfl
  | succ rounds ih =>
    rw [roundAccesses_succ, List.countP_append, List.countP_append, ih]
    rfl

theorem countP_firstAccesses (hart rounds : ℕ) :
    (roundAccesses hart rounds ++ firstAccesses hart).countP Access.isPoll = 2 * rounds + 1 := by
  rw [List.countP_append, countP_roundAccesses]
  rfl

/-- A hart at the head of the loop, after a number of rounds. -/
def loopHead (m : Machine cfg xlen flen) (hart rounds : ℕ) : Session cfg xlen flen :=
  inLoop m (Label.entryLoop.index cfg.hasSndScratch) (if rounds = 0 then m.gprs.read 8 else 0)
    (roundAccesses hart rounds) rounds

/-- How a hart leaves the loop in a round in which one of the tests succeeds. -/
def leaving (m : Machine cfg xlen flen) (flags : ℕ → BitVec 8) (hart round : ℕ) :
    RomExit cfg xlen flen :=
  if goSeen flags round then
    .whereTo (afterLoop m (whereToAddress cfg xlen)
      (roundAccesses hart round ++ firstAccesses hart ++ [.store goingAddr 0]) (round + 1))
  else
    .dret (afterLoop m (romAddress cfg xlen (resumeEnd cfg.hasSndScratch))
      (roundAccesses hart (round + 1) ++ [.store resumingAddr (BitVec.ofNat 32 hart)])
      (round + 1))

section Rounds

variable (hxlen : xlen = 32 ∨ xlen = 64) (haligned : cfg.dmBaseAddress.toNat % 4096 = 0)
  (e : Environment cfg xlen flen) (flags : ℕ → BitVec 8) {m : Machine cfg xlen flen} {hart : ℕ}
  (hhart : hart < 1024) (hmhartid : m.csrs csrMhartid = BitVec.ofNat xlen hart) (round : ℕ)
include hxlen

theorem masked_go : masked xlen (flags (2 * round)) 1 = 0 ↔ goSeen flags round = false := by
  unfold goSeen masked
  generalize flags (2 * round) = byte
  revert byte
  rcases hxlen with rfl | rfl <;> decide +kernel

theorem masked_resume :
    masked xlen (flags (2 * round + 1)) 2 = 0 ↔ resumeSeen flags round = false := by
  unfold resumeSeen masked
  generalize flags (2 * round + 1) = byte
  revert byte
  rcases hxlen with rfl | rfl <;> decide +kernel

include haligned hhart hmhartid

/-- A round up to the test for Go. -/
theorem advances_goTest :
    Advances (e.romStep flags) (1 + (pollGoCode cfg.hasSndScratch).length + 1)
      (loopHead m hart round)
      (inLoop m (if goSeen flags round then Label.going.index cfg.hasSndScratch
          else goTest cfg.hasSndScratch + 1)
        (masked xlen (flags (2 * round)) 1) (roundAccesses hart round ++ firstAccesses hart)
        (round + 1)) := by
  have hpoll : Advances (e.romStep flags) (1 + (pollGoCode cfg.hasSndScratch).length)
      (loopHead m hart round) (inLoop m (goTest cfg.hasSndScratch)
        (masked xlen (flags (2 * round)) 1) (roundAccesses hart round ++ firstAccesses hart)
        (round + 1)) := by
    rw [← countP_roundAccesses hart round]
    exact (advances_entryLoop hxlen haligned e flags hmhartid).trans
      (advances_pollGo hxlen haligned e flags hhart)
  have hbranch := hpoll.trans (advances_branch hxlen haligned e flags
    (show (romListing cfg.hasSndScratch)[goTest cfg.hasSndScratch]? =
      some (romBranch cfg.hasSndScratch _ .going) by cases cfg.hasSndScratch <;> decide +kernel)
    (by cases cfg.hasSndScratch <;> decide))
  have hmasked := masked_go hxlen flags round
  cases hseen : goSeen flags round with
  | false => rwa [if_pos (hmasked.mpr hseen)] at hbranch
  | true =>
    have hset : masked xlen (flags (2 * round)) 1 ≠ 0 := by
      intro hzero
      rw [hmasked.mp hzero] at hseen
      exact Bool.false_ne_true hseen
    rwa [if_neg hset] at hbranch

/-- A round up to the test for Resume. -/
theorem advances_resumeTest (hgo : goSeen flags round = false) :
    Advances (e.romStep flags) (1 + (pollGoCode cfg.hasSndScratch).length + 1 +
        ((pollResumeCode cfg.hasSndScratch).length + 1))
      (loopHead m hart round)
      (inLoop m (if resumeSeen flags round then Label.resume.index cfg.hasSndScratch
          else resumeTest cfg.hasSndScratch + 1)
        (masked xlen (flags (2 * round + 1)) 2) (roundAccesses hart (round + 1)) (round + 1)) := by
  have hfirst := advances_goTest hxlen haligned e flags hhart hmhartid round
  rw [hgo, if_neg Bool.false_ne_true] at hfirst
  have hpoll : Advances (e.romStep flags) _ (inLoop m (goTest cfg.hasSndScratch + 1)
      (masked xlen (flags (2 * round)) 1) (roundAccesses hart round ++ firstAccesses hart)
      (round + 1)) _ := advances_pollResume hxlen haligned e flags hhart hmhartid
  rw [countP_firstAccesses, ← roundAccesses_succ] at hpoll
  have hbranch := hpoll.trans (advances_branch hxlen haligned e flags
    (show (romListing cfg.hasSndScratch)[resumeTest cfg.hasSndScratch]? =
      some (romBranch cfg.hasSndScratch _ .resume) by cases cfg.hasSndScratch <;> decide +kernel)
    (by cases cfg.hasSndScratch <;> decide))
  refine hfirst.trans ?_
  have hmasked := masked_resume hxlen flags round
  cases hseen : resumeSeen flags round with
  | false => rwa [if_pos (hmasked.mpr hseen)] at hbranch
  | true =>
    have hset : masked xlen (flags (2 * round + 1)) 2 ≠ 0 := by
      intro hzero
      rw [hmasked.mp hzero] at hseen
      exact Bool.false_ne_true hseen
    rwa [if_neg hset] at hbranch

/-- A round without a successful test leads back to the head of the loop. -/
theorem advances_round (hgo : goSeen flags round = false)
    (hresume : resumeSeen flags round = false) :
    Advances (e.romStep flags) (1 + (pollGoCode cfg.hasSndScratch).length + 1 +
        ((pollResumeCode cfg.hasSndScratch).length + 1) + 1)
      (loopHead m hart round) (loopHead m hart (round + 1)) := by
  have htests := advances_resumeTest hxlen haligned e flags hhart hmhartid round hgo
  rw [hresume, if_neg Bool.false_ne_true, (masked_resume hxlen flags round).mpr hresume] at htests
  have hjump := advances_jump hxlen haligned e flags
    (s := inLoop m (resumeTest cfg.hasSndScratch + 1) 0 (roundAccesses hart (round + 1))
      (round + 1)) rfl
    (show (romListing cfg.hasSndScratch)[resumeTest cfg.hasSndScratch + 1]? =
      some (romJump cfg.hasSndScratch _ .entryLoop) by cases cfg.hasSndScratch <;> decide +kernel)
    (by cases cfg.hasSndScratch <;> decide)
  exact htests.trans hjump

/-- A round with a successful test leads out of the ROM. -/
theorem leaves_round (htested : goSeen flags round = true ∨ resumeSeen flags round = true) :
    ∃ count last, Advances (e.romStep flags) count (loopHead m hart round) last ∧
      e.romStep flags last = .done (leaving m flags hart round) := by
  cases hgo : goSeen flags round with
  | true =>
    have htest := advances_goTest hxlen haligned e flags hhart hmhartid round
    rw [hgo, if_pos rfl] at htest
    refine ⟨_, _, htest.trans (advances_going hxlen haligned e flags), ?_⟩
    rw [leaving, hgo, if_pos rfl]
    exact if_pos rfl
  | false =>
    have hresume := htested.resolve_left (by rw [hgo]; exact Bool.false_ne_true)
    have htests := advances_resumeTest hxlen haligned e flags hhart hmhartid round hgo
    rw [hresume, if_pos rfl] at htests
    have hjump := advances_jump hxlen haligned e flags
      (s := inLoop m (Label.resume.index cfg.hasSndScratch)
        (masked xlen (flags (2 * round + 1)) 2) (roundAccesses hart (round + 1)) (round + 1)) rfl
      (show (romListing cfg.hasSndScratch)[Label.resume.index cfg.hasSndScratch]? =
        some (romJump cfg.hasSndScratch 2 .resumeCode) by
          cases cfg.hasSndScratch <;> decide +kernel)
      (by cases cfg.hasSndScratch <;> decide)
    refine ⟨_, _, (htests.trans hjump).trans
      (advances_resumeCode hxlen haligned e flags hhart hmhartid), ?_⟩
    rw [leaving, hgo, if_neg Bool.false_ne_true,
      romStep_eq hxlen haligned e flags rfl
        (show (romListing cfg.hasSndScratch)[resumeEnd cfg.hasSndScratch]? = some .dret by
          cases cfg.hasSndScratch <;> decide +kernel)]
    refine congrArg (fun last ↦ StepResult.done (RomExit.dret last)) ?_
    exact counted_of_ne hxlen haligned rfl (by cases cfg.hasSndScratch <;> decide)
      (by cases cfg.hasSndScratch <;> decide)

end Rounds

/-! ### Whole runs -/

/-- A hart that enters the ROM. -/
def Session.enter (m : Machine cfg xlen flen) : Session cfg xlen flen := ⟨m, [], 0⟩

/-- The word an access stores at an offset. -/
def Access.storedAt (offset : BitVec 12) : Access → Option (BitVec 32)
  | .store target value => if target = offset then some value else none
  | .poll _ => none

/-- The words a session has stored at an offset, in their order. -/
def Session.storesTo (s : Session cfg xlen flen) (offset : BitVec 12) : List (BitVec 32) :=
  s.accesses.filterMap (Access.storedAt offset)

/-- What a hart leaves the ROM with: its registers, its entry values of s0 and a0 in the scratch
registers, and a signal to Halted for each iteration of `entry_loop`. -/
structure Transparent (m : Machine cfg xlen flen) (hart : ℕ) (last : Session cfg xlen flen) :
    Prop where
  gprs : last.machine.gprs = m.gprs
  dscratch0 : last.machine.csrs csrDscratch0 = m.gprs.read 8
  dscratch1 : cfg.hasSndScratch = true → last.machine.csrs csrDscratch1 = m.gprs.read 10
  halted : last.storesTo haltedAddr = List.replicate last.iterations (BitVec.ofNat 32 hart)

theorem saved_dscratch0 (m : Machine cfg xlen flen) :
    (saved m).csrs csrDscratch0 = m.gprs.read 8 := by
  rw [saved, entered_csrs_of_ne _ (by decide), Machine.setCsr_csrs, Function.update_self]

/-- The registers a hart leaves the ROM with. -/
theorem restored_saved_gprs (m : Machine cfg xlen flen) : (restored (saved m)).gprs = m.gprs := by
  have hleft : (left (saved m)).gprs = m.gprs :=
    left_gprs_of_kept (m.setCsr csrDscratch0 (m.gprs.read 8)) rfl rfl
  rw [restored, Machine.setGpr_gprs, hleft, saved_dscratch0, IntegerRegisters.write_read]

theorem transparent_afterLoop {m : Machine cfg xlen flen} {hart rounds : ℕ}
    {accesses : List Access} (pc : BitVec xlen)
    (hhalted : (afterLoop m pc accesses rounds).storesTo haltedAddr =
      List.replicate rounds (BitVec.ofNat 32 hart)) :
    Transparent m hart (afterLoop m pc accesses rounds) where
  gprs := restored_saved_gprs m
  dscratch0 := by
    show (restored (saved m)).csrs csrDscratch0 = _
    rw [restored, Machine.setGpr_csrs, left_csrs, saved_dscratch0]
  dscratch1 := by
    intro hscratch
    show (restored (saved m)).csrs csrDscratch1 = _
    rw [restored, Machine.setGpr_csrs, left_csrs, saved, entered_saved _ hscratch]
    rfl
  halted := hhalted

/-- A round signals Halted. -/
theorem halted_roundAccesses (hart rounds : ℕ) :
    (roundAccesses hart rounds).filterMap (Access.storedAt haltedAddr) =
      List.replicate rounds (BitVec.ofNat 32 hart) := by
  induction rounds with
  | zero => rfl
  | succ rounds ih =>
    rw [roundAccesses_succ, List.append_assoc, List.filterMap_append, ih, List.replicate_succ']
    rfl

/-- A round makes no other store. -/
theorem other_roundAccesses {offset : BitVec 12} (hoffset : haltedAddr ≠ offset)
    (hart rounds : ℕ) : (roundAccesses hart rounds).filterMap (Access.storedAt offset) = [] := by
  induction rounds with
  | zero => rfl
  | succ rounds ih =>
    rw [roundAccesses_succ, List.append_assoc, List.filterMap_append, ih]
    simp [firstAccesses, Access.storedAt, hoffset]

/-- What has been stored when a hart leaves after a test for Go. -/
theorem storesTo_going (m : Machine cfg xlen flen) (pc : BitVec xlen) (hart round : ℕ) :
    let last := afterLoop m pc
      (roundAccesses hart round ++ firstAccesses hart ++ [.store goingAddr 0]) (round + 1)
    last.storesTo haltedAddr = List.replicate (round + 1) (BitVec.ofNat 32 hart) ∧
      last.storesTo goingAddr = [0] ∧ last.storesTo resumingAddr = [] := by
  refine ⟨?_, ?_, ?_⟩
  · show List.filterMap _ (_ ++ _ ++ _) = _
    rw [List.append_assoc, List.filterMap_append, halted_roundAccesses, List.replicate_succ']
    rfl
  · show List.filterMap _ (_ ++ _ ++ _) = _
    rw [List.append_assoc, List.filterMap_append, other_roundAccesses (by decide)]
    rfl
  · show List.filterMap _ (_ ++ _ ++ _) = _
    rw [List.append_assoc, List.filterMap_append, other_roundAccesses (by decide)]
    rfl

/-- What has been stored when a hart leaves after a test for Resume. -/
theorem storesTo_resuming (m : Machine cfg xlen flen) (pc : BitVec xlen) (hart rounds : ℕ) :
    let last := afterLoop m pc
      (roundAccesses hart rounds ++ [.store resumingAddr (BitVec.ofNat 32 hart)]) rounds
    last.storesTo haltedAddr = List.replicate rounds (BitVec.ofNat 32 hart) ∧
      last.storesTo goingAddr = [] ∧ last.storesTo resumingAddr = [BitVec.ofNat 32 hart] := by
  refine ⟨?_, ?_, ?_⟩
  · show List.filterMap _ (_ ++ _) = _
    rw [List.filterMap_append, halted_roundAccesses]
    exact List.append_nil _
  · show List.filterMap _ (_ ++ _) = _
    rw [List.filterMap_append, other_roundAccesses (by decide)]
    rfl
  · show List.filterMap _ (_ ++ _) = _
    rw [List.filterMap_append, other_roundAccesses (by decide)]
    rfl

section Runs

variable (hxlen : xlen = 32 ∨ xlen = 64) (haligned : cfg.dmBaseAddress.toNat % 4096 = 0)
  (e : Environment cfg xlen flen) (flags : ℕ → BitVec 8) {m : Machine cfg xlen flen} {hart : ℕ}
  (hhart : hart < 1024) (hmhartid : m.csrs csrMhartid = BitVec.ofNat xlen hart)
  (hpc : m.pc = romAddress cfg xlen 0)
include hxlen haligned hhart hmhartid hpc

/-- A hart leaves the ROM in the first round in which a test succeeds. -/
theorem run_leaves
    (htested : ∃ round, goSeen flags round = true ∨ resumeSeen flags round = true) :
    ∃ round, (∀ earlier < round, goSeen flags earlier = false) ∧
      (goSeen flags round = true ∨ resumeSeen flags round = true) ∧
      ∃ fuel, boundedRun (e.romStep flags) fuel (Session.enter m) =
        some (leaving m flags hart round) := by
  classical
  have hfirst (earlier : ℕ) (hlt : earlier < Nat.find htested) :
      goSeen flags earlier = false ∧ resumeSeen flags earlier = false := by
    simpa using Nat.find_min htested hlt
  have hentry : Advances (e.romStep flags) _ (Session.enter m) _ :=
    advances_entry hxlen haligned e flags hpc
  have hrounds := advances_rounds fun earlier hlt ↦
    advances_round hxlen haligned e flags hhart hmhartid earlier (hfirst earlier hlt).1
      (hfirst earlier hlt).2
  obtain ⟨count, last, hleave, hdone⟩ :=
    leaves_round hxlen haligned e flags hhart hmhartid _ (Nat.find_spec htested)
  exact ⟨Nat.find htested, fun earlier hlt ↦ (hfirst earlier hlt).1, Nat.find_spec htested, _,
    ((hentry.trans hrounds).trans hleave).run_done hdone⟩

/-- Without a successful test a hart stays in the ROM. -/
theorem run_stays
    (hnever : ∀ round, goSeen flags round = false ∧ resumeSeen flags round = false) (fuel : ℕ) :
    boundedRun (e.romStep flags) fuel (Session.enter m) = none := by
  refine (advances_entry hxlen haligned e flags hpc).run_eq_none ?_ fuel
  have hloop := boundedRun_eq_none_of_rounds (Nat.succ_pos _) fun round ↦
    advances_round hxlen haligned e flags hhart hmhartid round (hnever round).1 (hnever round).2
  exact hloop

/-- A run that ends does so in the first round in which a test succeeds. -/
theorem exists_leaving {fuel : ℕ} {outcome : RomExit cfg xlen flen}
    (hrun : boundedRun (e.romStep flags) fuel (Session.enter m) = some outcome) :
    ∃ round, (∀ earlier < round, goSeen flags earlier = false) ∧
      (goSeen flags round = true ∨ resumeSeen flags round = true) ∧
      outcome = leaving m flags hart round := by
  by_cases htested : ∃ round, goSeen flags round = true ∨ resumeSeen flags round = true
  · obtain ⟨round, hfirst, hround, fuel', hleave⟩ :=
      run_leaves hxlen haligned e flags hhart hmhartid hpc htested
    exact ⟨round, hfirst, hround, boundedRun_unique hrun hleave⟩
  · have hnever (round : ℕ) : goSeen flags round = false ∧ resumeSeen flags round = false := by
      simpa using not_exists.mp htested round
    rw [run_stays hxlen haligned e flags hhart hmhartid hpc hnever] at hrun
    exact absurd hrun.symm (Option.some_ne_none outcome)

end Runs

/-- A hart that enters the ROM at the halt address never gets stuck there, and leaves it when one of
the tests succeeds. It leaves with its registers as they were, having signalled Halted once in each
iteration. When it leaves by WhereTo it has signalled Going, once, and its last test for Go has
found the bit set; when it leaves by `dret` it has signalled Resuming, once, and no test for Go has
found the bit set. -/
theorem debugRom_transparent (hxlen : xlen = 32 ∨ xlen = 64)
    (haligned : cfg.dmBaseAddress.toNat % 4096 = 0) (e : Environment cfg xlen flen)
    (flags : ℕ → BitVec 8) (m : Machine cfg xlen flen) {hart : ℕ} (hhart : hart < 1024)
    (hmhartid : m.csrs csrMhartid = BitVec.ofNat xlen hart)
    (hpc : m.pc = dmBase cfg xlen + haltAddress.setWidth xlen) :
    (∀ fuel, boundedRun (e.romStep flags) fuel (Session.enter m) ≠ some .stuck) ∧
      (∀ round, goSeen flags round = true ∨ resumeSeen flags round = true →
        ∃ fuel, boundedRun (e.romStep flags) fuel (Session.enter m) ≠ none) ∧
      (∀ fuel last, boundedRun (e.romStep flags) fuel (Session.enter m) = some (.whereTo last) →
        Transparent m hart last ∧ last.machine.pc = whereToAddress cfg xlen ∧
          last.storesTo goingAddr = [0] ∧ last.storesTo resumingAddr = [] ∧
          goSeen flags (last.iterations - 1) = true) ∧
      (∀ fuel last, boundedRun (e.romStep flags) fuel (Session.enter m) = some (.dret last) →
        Transparent m hart last ∧
          last.storesTo goingAddr = [] ∧ last.storesTo resumingAddr = [BitVec.ofNat 32 hart] ∧
          ∀ round < last.iterations, goSeen flags round = false) := by
  have hentry : m.pc = romAddress cfg xlen 0 := by
    have hhalt : haltAddress.setWidth xlen = (romOffset 0).setWidth xlen := by
      rcases hxlen with rfl | rfl <;> decide
    rw [hpc, hhalt, romAddress]
  have hends {fuel : ℕ} {outcome : RomExit cfg xlen flen}
      (hrun : boundedRun (e.romStep flags) fuel (Session.enter m) = some outcome) :=
    exists_leaving hxlen haligned e flags hhart hmhartid hentry hrun
  refine ⟨?_, ?_, ?_, ?_⟩
  · intro fuel hrun
    obtain ⟨round, -, -, hstuck⟩ := hends hrun
    unfold leaving at hstuck
    split_ifs at hstuck
  · intro round htested
    obtain ⟨first, -, -, fuel, hrun⟩ :=
      run_leaves hxlen haligned e flags hhart hmhartid hentry ⟨round, htested⟩
    exact ⟨fuel, hrun ▸ Option.some_ne_none _⟩
  · intro fuel last hrun
    obtain ⟨round, -, -, hlast⟩ := hends hrun
    unfold leaving at hlast
    split_ifs at hlast with hgo
    obtain rfl := RomExit.whereTo.inj hlast
    obtain ⟨hhalted, hgoing, hresuming⟩ :=
      storesTo_going m (whereToAddress cfg xlen) hart round
    exact ⟨transparent_afterLoop _ hhalted, rfl, hgoing, hresuming, hgo⟩
  · intro fuel last hrun
    obtain ⟨round, hearlier, -, hlast⟩ := hends hrun
    unfold leaving at hlast
    split_ifs at hlast with hgo
    obtain rfl := RomExit.dret.inj hlast
    obtain ⟨hhalted, hgoing, hresuming⟩ :=
      storesTo_resuming m (romAddress cfg xlen (resumeEnd cfg.hasSndScratch)) hart (round + 1)
    refine ⟨transparent_afterLoop _ hhalted, hgoing, hresuming, fun other hother ↦ ?_⟩
    rcases Nat.lt_succ_iff_lt_or_eq.mp hother with hlt | rfl
    · exact hearlier other hlt
    · exact Bool.eq_false_iff.mpr hgo

/-- A hart at the halt address, with distinct values in a0 and s0. -/
def haltedHart : Machine farModule 64 64 :=
  { beforeA0 with
    pc := dmBase farModule 64 + haltAddress.setWidth 64
    csrs := fun csr ↦ if csr = csrMhartid then 5 else 0
    data := Vector.replicate 2 0 }

/-- A flag byte that shows Go at the third poll. -/
def thirdPollGo (poll : ℕ) : BitVec 8 := if poll = 2 then 1 else 0

/-- The iterations of a run that went to WhereTo, zero for any other. -/
def iterationsToWhereTo : Option (RomExit farModule 64 64) → ℕ
  | some (.whereTo last) => last.iterations
  | _ => 0

/-- A hart that finds Go in the first poll of its second round goes to WhereTo. -/
theorem haltedHart_transparent :
    ∃ last, boundedRun (writesA0.romStep thirdPollGo) 30 (Session.enter haltedHart) =
        some (.whereTo last) ∧
      Transparent haltedHart 5 last ∧ last.iterations = 2 ∧ last.storesTo goingAddr = [0] ∧
        last.storesTo resumingAddr = [] := by
  obtain ⟨-, -, hgoing, -⟩ := debugRom_transparent (Or.inr rfl) (by decide) writesA0 thirdPollGo
    haltedHart (show 5 < 1024 by decide) rfl rfl
  have hiterations : iterationsToWhereTo (boundedRun (writesA0.romStep thirdPollGo) 30
      (Session.enter haltedHart)) = 2 := by decide +kernel
  cases hrun : boundedRun (writesA0.romStep thirdPollGo) 30 (Session.enter haltedHart) with
  | none =>
    rw [hrun] at hiterations
    exact absurd hiterations (show (0 : ℕ) ≠ 2 by decide)
  | some outcome =>
    rw [hrun] at hiterations
    cases outcome with
    | whereTo last =>
      obtain ⟨htransparent, -, hsignal, hother, -⟩ := hgoing 30 last hrun
      exact ⟨last, rfl, htransparent, hiterations, hsignal, hother⟩
    | dret last => exact absurd hiterations (show (0 : ℕ) ≠ 2 by decide)
    | stuck => exact absurd hiterations (show (0 : ℕ) ≠ 2 by decide)

end RiscvDebug.Hart
