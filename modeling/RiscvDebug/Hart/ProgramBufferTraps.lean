import RiscvDebug.Hart.TrappedTransfers
import RiscvDebug.RunControl.CommandsWithoutTransfer

/-!
# Traps in the program buffer

When the program buffer traps, the handler takes s0, and a0 away from the zero page, from the
scratch registers. These hold the values at the start of the command, or those that its transfer
has put there (`scratchHolds_of_advances`), and not the values at the trap. `trapKeeps_iff` finds
the traps after which all registers are as they were: those at which s0 and a0 are the saved ones.
-/

set_option autoImplicit false
set_option relaxedAutoImplicit false

namespace RiscvDebug.Hart

open Foundations DmMem

variable {cfg : Config} {xlen flen : ℕ}

/-! ### Control and status registers -/

/-- The instructions that write no control and status register. -/
def Instruction.keepsCsrs : Instruction → Prop
  | .csrrw _ _ _ => False
  | .csrrs _ rs1 _ => rs1 = 0
  | _ => True

section Csrs

variable (e : Environment cfg xlen flen) {m after : Machine cfg xlen flen}

theorem csrs_of_execute {instruction : Instruction} (hkeeps : instruction.keepsCsrs)
    (hexecute : e.execute m instruction = some after) : after.csrs = m.csrs := by
  cases instruction with
  | csrrw => exact hkeeps.elim
  | csrrs rd rs1 csr =>
    have hzero : rs1 = 0 := hkeeps
    rw [← Option.some_inj.mp hexecute, if_pos hzero]
    rfl
  | addi | auipc | jal =>
    rw [← Option.some_inj.mp hexecute]
    rfl
  | slli | srli =>
    simp only [Environment.execute] at hexecute
    split_ifs at hexecute
    rw [← Option.some_inj.mp hexecute]
    rfl
  | load | floatLoad | store =>
    simp only [Environment.execute, Option.map_eq_some_iff] at hexecute
    obtain ⟨value, -, rfl⟩ := hexecute
    rfl
  | floatStore =>
    simp only [Environment.execute] at hexecute
    split_ifs at hexecute
    obtain ⟨value, -, rfl⟩ := Option.map_eq_some_iff.mp hexecute
    rfl
  | ebreak => exact absurd hexecute.symm (Option.some_ne_none after)

theorem csrs_of_foldlM {instructions : List Instruction}
    (hkeeps : ∀ instruction ∈ instructions, instruction.keepsCsrs)
    (hexecute : instructions.foldlM e.execute m = some after) : after.csrs = m.csrs := by
  refine foldlM_preserves (fun last ↦ last.csrs = m.csrs)
    (fun instruction hmem first last hfirst hlast ↦ ?_) rfl hexecute
  exact (csrs_of_execute e (hkeeps instruction hmem) hlast).trans hfirst

/-- A transfer by one load or store. -/
theorem keepsCsrs_of_direct {access instruction : Instruction} (haccess : access.keepsCsrs)
    (hmem : instruction ∈ [access, nopInstruction, nopInstruction, nopInstruction]) :
    instruction.keepsCsrs := by
  simp only [List.mem_cons, List.not_mem_nil, or_false, or_self] at hmem
  rcases hmem with rfl | rfl
  · exact haccess
  · trivial

end Csrs

/-! ### What the handler changes -/

/-- The handler leaves the integer registers as they are when the scratch registers hold s0 and
a0. -/
theorem restored_gprs_iff (m : Machine cfg xlen flen) :
    (∀ number, (restored m).gprs.read number = m.gprs.read number) ↔
      m.csrs csrDscratch0 = m.gprs.read 8 ∧
        (cfg.hasSndScratch = true → m.csrs csrDscratch1 = m.gprs.read 10) := by
  constructor
  · intro hkept
    refine ⟨?_, fun hscratch ↦ ?_⟩
    · rw [← hkept 8, restored, Machine.setGpr_gprs]
      exact (IntegerRegisters.read_write_self _ _ (by decide)).symm
    · rw [← hkept 10, restored, Machine.setGpr_gprs,
        IntegerRegisters.read_write_of_ne _ _ (by decide), left, if_pos hscratch,
        Machine.setGpr_gprs]
      exact (IntegerRegisters.read_write_self _ _ (by decide)).symm
  · rintro ⟨hfirst, hsecond⟩
    have hsaved : Saved m := ⟨hfirst, hsecond⟩
    exact hsaved.recoverable.restored_gprs

/-! ### What the scratch registers hold -/

/-- A transfer between the data registers and a register. -/
structure RegisterTransfer where
  name : RegisterName
  size : BitVec 3
  write : Bool

/-- The value of s0 that the handler will find: the one at the start of the command, or the one that
the transfer writes to the first scratch register. -/
def savedS0 (e : Environment cfg xlen flen) (operation : Option RegisterTransfer)
    (start : Machine cfg xlen flen) : Option (BitVec xlen) :=
  match operation with
  | some t =>
    if t.write ∧ t.name = .csr csrDscratch0 then e.load start t.size (dataAddress cfg xlen)
    else some (start.gprs.read 8)
  | none => some (start.gprs.read 8)

/-- The value of a0 that the handler will find: the one at the start of the command, or the one that
the transfer writes to a0 or to the second scratch register. -/
def savedA0 (e : Environment cfg xlen flen) (operation : Option RegisterTransfer)
    (start : Machine cfg xlen flen) : Option (BitVec xlen) :=
  match operation with
  | some t =>
    if t.write ∧ (t.name = .gpr 10 ∨ t.name = .csr csrDscratch1) then
      e.load start t.size (dataAddress cfg xlen)
    else some (start.gprs.read 10)
  | none => some (start.gprs.read 10)

section Scratch

variable (hxlen : xlen = 32 ∨ xlen = 64) (haligned : cfg.dmBaseAddress.toNat % 4096 = 0)
  (e : Environment cfg xlen flen) {start last : Machine cfg xlen flen} (hsaved : Saved start)

/-- The scratch registers hold what the handler is said to find. -/
structure ScratchHolds (e : Environment cfg xlen flen) (operation : Option RegisterTransfer)
    (start last : Machine cfg xlen flen) : Prop where
  dscratch0 : savedS0 e operation start = some (last.csrs csrDscratch0)
  dscratch1 : cfg.hasSndScratch = true →
    savedA0 e operation start = some (last.csrs csrDscratch1)

include hsaved

/-- A transfer that writes no scratch register, but for saving s0. -/
theorem scratchHolds_of_direct {t : RegisterTransfer}
    (hs0 : ¬ (t.write = true ∧ t.name = .csr csrDscratch0))
    (ha0 : cfg.hasSndScratch = true →
      ¬ (t.write = true ∧ (t.name = .gpr 10 ∨ t.name = .csr csrDscratch1)))
    (hcsrs : last.csrs = (entered start).csrs ∨
      last.csrs = Function.update (entered start).csrs csrDscratch0 (start.gprs.read 8)) :
    ScratchHolds e (some t) start last where
  dscratch0 := by
    rw [savedS0, if_neg hs0]
    rcases hcsrs with hcsrs | hcsrs
    · rw [hcsrs, entered_csrs_of_ne start (by decide), hsaved.dscratch0]
    · rw [hcsrs, Function.update_self]
  dscratch1 := by
    intro hscratch
    rw [savedA0, if_neg (ha0 hscratch)]
    rcases hcsrs with hcsrs | hcsrs
    · rw [hcsrs, entered_saved start hscratch]
    · rw [hcsrs, Function.update_of_ne (by decide), entered_saved start hscratch]

omit hsaved in
/-- A write of a control and status register through s0. -/
theorem scratchHolds_of_write {t : RegisterTransfer} {csr : BitVec 12} (hwrite : t.write = true)
    (hs0 : csr = csrDscratch0 ↔ t.name = .csr csrDscratch0)
    (ha0 : cfg.hasSndScratch = true →
      (csr = csrDscratch1 ↔ t.name = .gpr 10 ∨ t.name = .csr csrDscratch1))
    {value : BitVec xlen} (hvalue : e.load start t.size (dataAddress cfg xlen) = some value)
    (hcsrs : last.csrs = Function.update
      (Function.update (entered start).csrs csrDscratch0 (start.gprs.read 8)) csr value) :
    ScratchHolds e (some t) start last where
  dscratch0 := by
    rw [savedS0, hcsrs, Function.update_apply, hvalue]
    by_cases hfirst : csr = csrDscratch0
    · rw [if_pos ⟨hwrite, hs0.mp hfirst⟩, if_pos hfirst.symm]
    · rw [if_neg fun hboth ↦ hfirst (hs0.mpr hboth.2), if_neg (Ne.symm hfirst),
        Function.update_self]
  dscratch1 := by
    intro hscratch
    rw [savedA0, hcsrs, Function.update_apply, hvalue]
    by_cases hsecond : csr = csrDscratch1
    · rw [if_pos ⟨hwrite, (ha0 hscratch).mp hsecond⟩, if_pos hsecond.symm]
    · rw [if_neg fun hboth ↦ hsecond ((ha0 hscratch).mpr hboth.2), if_neg (Ne.symm hsecond),
        Function.update_of_ne (by decide), entered_saved start hscratch]

omit hsaved in
/-- The control and status registers after a transfer through s0. -/
theorem csrs_of_throughS0 {csr : BitVec 12} {size : BitVec 3} {write : Bool} {pc : BitVec xlen}
    (hexecute : (throughS0 cfg csr size write).foldlM e.execute ((entered start).withPc pc) =
      some last) :
    if write then
      ∃ value, e.load start size (dataAddress cfg xlen) = some value ∧ last.csrs = Function.update
        (Function.update (entered start).csrs csrDscratch0 (start.gprs.read 8)) csr value
    else last.csrs = Function.update (entered start).csrs csrDscratch0 (start.gprs.read 8) := by
  have hs0 : ((entered start).withPc pc).gprs.read 8 = start.gprs.read 8 :=
    entered_gprs_of_ne start fun hboth ↦ absurd hboth.2 (by decide)
  cases write with
  | true =>
    obtain ⟨pc', hthrough⟩ := foldlM_throughS0_write_eq e (read_entered start pc) size csr
    have hload : e.load ((entered start).withPc pc) size (dataAddress cfg xlen) =
        e.load start size (dataAddress cfg xlen) := load_congr e (entered_data start) _ _
    rw [hthrough, hload, hs0, Option.map_eq_some_iff] at hexecute
    obtain ⟨value, hvalue, rfl⟩ := hexecute
    exact ⟨value, hvalue, rfl⟩
  | false =>
    have hfirst : e.execute ((entered start).withPc pc) (.csrrw 0 8 csrDscratch0) =
        some (((entered start).withPc pc).setCsr csrDscratch0 (start.gprs.read 8)).advance := by
      rw [← hs0]
      simp [Environment.execute]
    rw [throughS0, if_neg Bool.false_ne_true, List.foldlM_cons, hfirst] at hexecute
    refine csrs_of_foldlM e (fun instruction hmem ↦ ?_) hexecute
    simp only [List.mem_cons, List.not_mem_nil, or_false] at hmem
    rcases hmem with rfl | rfl | rfl
    · rfl
    · trivial
    · rfl

/-- The code of a transfer leaves in the scratch registers what the handler is said to find. -/
theorem scratchHolds_of_code (hxlen : xlen = 32 ∨ xlen = 64)
    (haligned : cfg.dmBaseAddress.toNat % 4096 = 0) (t : RegisterTransfer)
    (hpc : start.pc = codeAddress cfg xlen 0)
    (hexecute : (code cfg t.name t.size t.write).foldlM e.execute start = some last) :
    ScratchHolds e (some t) start last := by
  obtain ⟨pc, henter⟩ := foldlM_enter hxlen haligned e start hpc
  rw [code, List.foldlM_append, List.foldlM_append, henter] at hexecute
  simp only [Option.bind_eq_bind, Option.bind_some, Option.bind_eq_some_iff] at hexecute
  obtain ⟨middle, hmiddle, hleave⟩ := hexecute
  have hlast : last.csrs = middle.csrs := by
    refine csrs_of_foldlM e (fun instruction hmem ↦ ?_) hleave
    unfold leave at hmem
    split_ifs at hmem
    · rw [List.mem_singleton.mp hmem]
      rfl
    · rw [List.mem_singleton.mp hmem]
      trivial
  -- Through s0 the transfer names a control and status register, or a0.
  have hthrough (csr : BitVec 12) (hname : transfer cfg t.name t.size t.write =
      throughS0 cfg csr t.size t.write) (hs0 : csr = csrDscratch0 ↔ t.name = .csr csrDscratch0)
      (ha0 : cfg.hasSndScratch = true →
        (csr = csrDscratch1 ↔ t.name = .gpr 10 ∨ t.name = .csr csrDscratch1)) :
      ScratchHolds e (some t) start last := by
    rw [hname] at hmiddle
    have hcsrs := csrs_of_throughS0 e hmiddle
    rw [← hlast] at hcsrs
    cases hwrite : t.write with
    | true =>
      rw [hwrite, if_pos rfl] at hcsrs
      obtain ⟨value, hvalue, hupdated⟩ := hcsrs
      exact scratchHolds_of_write e hwrite hs0 ha0 hvalue hupdated
    | false =>
      rw [hwrite, if_neg Bool.false_ne_true] at hcsrs
      refine scratchHolds_of_direct e hsaved ?_ (fun _ ↦ ?_) (Or.inr hcsrs)
      · simp [hwrite]
      · simp [hwrite]
  -- One load or store writes no control and status register.
  have hdirect
      (hkeeps : ∀ instruction ∈ transfer cfg t.name t.size t.write, instruction.keepsCsrs) :
      last.csrs = (entered start).csrs :=
    hlast.trans ((csrs_of_foldlM e hkeeps hmiddle).trans (Machine.withPc_csrs _ _))
  cases hname : t.name with
  | csr number =>
    refine hthrough number (by rw [hname]; rfl) ?_ fun _ ↦ ?_
    · rw [hname, RegisterName.csr.injEq]
    · simp [hname]
  | gpr number =>
    by_cases hborrowed : cfg.hasSndScratch ∧ number = 10
    · refine hthrough csrDscratch1 (by rw [hname]; exact if_pos hborrowed) ?_ fun _ ↦ ?_
      · exact iff_of_false (by decide) (by simp [hname])
      · exact iff_of_true rfl (Or.inl (by rw [hname, hborrowed.2]))
    · refine scratchHolds_of_direct e hsaved (by simp [hname]) (fun hscratch hboth ↦ ?_)
        (Or.inl (hdirect fun instruction hmem ↦ ?_))
      · rcases hboth.2 with ha0 | hcsr
        · rw [hname, RegisterName.gpr.injEq] at ha0
          exact hborrowed ⟨hscratch, ha0⟩
        · rw [hname] at hcsr
          cases hcsr
      · rw [hname, transfer, if_neg hborrowed] at hmem
        exact keepsCsrs_of_direct (by split_ifs <;> trivial) hmem
  | fpr number =>
    refine scratchHolds_of_direct e hsaved (by simp [hname]) (fun _ ↦ by simp [hname])
      (Or.inl (hdirect fun instruction hmem ↦ ?_))
    rw [hname, transfer] at hmem
    exact keepsCsrs_of_direct (by split_ifs <;> trivial) hmem

end Scratch

/-! ### Commands that execute the program buffer -/

/-- The operation of a command with postexec: a transfer of a register, or none. -/
def PerformsBefore (cfg : Config) (command : Command) : Option RegisterTransfer → Prop
  | some t => GeneratesTransfer cfg command t.name t.size t.write true
  | none =>
    DmTop.WithoutTransfer command ∧ (AcArCmd.ofBits command.control).postexec = true

/-- The number of instructions from WhereTo to the program buffer. -/
def stepsBefore : Option RegisterTransfer → ℕ
  | some _ => 11
  | none => 1

/-- A program buffer that does not write the scratch registers keeps them up to each of its
instructions. -/
theorem scratch_of_progbuf {e : Environment cfg xlen flen}
    {executes : BitVec 32 → Machine cfg xlen flen → Machine cfg xlen flen → Prop}
    (hkeeps : ∀ m after, ProgbufStep e executes m after →
      after.csrs csrDscratch0 = m.csrs csrDscratch0 ∧
        after.csrs csrDscratch1 = m.csrs csrDscratch1)
    {before last : Machine cfg xlen flen}
    (hprogbuf : Relation.ReflTransGen (ProgbufStep e executes) before last) :
    last.csrs csrDscratch0 = before.csrs csrDscratch0 ∧
      last.csrs csrDscratch1 = before.csrs csrDscratch1 := by
  induction hprogbuf with
  | refl => exact ⟨rfl, rfl⟩
  | tail _ hstep ih =>
    obtain ⟨hfirst, hsecond⟩ := hkeeps _ _ hstep
    exact ⟨hfirst.trans ih.1, hsecond.trans ih.2⟩

section Command

variable (hxlen : xlen = 32 ∨ xlen = 64) (haligned : cfg.dmBaseAddress.toNat % 4096 = 0)
  (e : Environment cfg xlen flen) {operation : Option RegisterTransfer}
  {start before last : Machine cfg xlen flen} (hsaved : Saved start)
  (hperforms : PerformsBefore cfg e.inputs.cmd operation) (hbusy : e.memory.state ≠ .idle)
  (hpc : start.pc = whereToAddress cfg xlen)
include hxlen haligned hsaved hperforms hbusy hpc

/-- At the start of the program buffer the scratch registers hold what the handler is said to
find. -/
theorem scratchHolds_of_advances
    (hadvances : Advances e.codeStep (stepsBefore operation) start before) :
    ScratchHolds e operation start before := by
  have hjump {count : ℕ} (hcmdtype : e.inputs.cmd.cmdtype = accessRegister)
      (hsteps : Advances e.codeStep (count + 1) start before) :
      Advances e.codeStep count
        (start.withPc (dmBase cfg xlen + (DmTop.commandEntry e.inputs.cmd).setWidth xlen))
        before := by
    obtain ⟨middle, hfirst, hrest⟩ := hsteps
    rw [codeStep_whereTo hxlen haligned e hbusy hcmdtype hpc] at hfirst
    split_ifs at hfirst
    rwa [StepResult.next.inj hfirst]
  cases operation with
  | none =>
    have hsame : _ = before := hjump hperforms.1.cmdtype hadvances
    rw [← hsame]
    exact ⟨congrArg some hsaved.dscratch0.symm,
      fun hscratch ↦ congrArg some (hsaved.dscratch1 hscratch).symm⟩
  | some t =>
    have hgenerates : GeneratesTransfer cfg e.inputs.cmd t.name t.size t.write true := hperforms
    have hentry : DmTop.commandEntry e.inputs.cmd = abstractCmdBaseAddr := by
      rw [DmTop.commandEntry, hgenerates.transfer]
      rfl
    have hlength : (code cfg t.name t.size t.write ++ [nopInstruction]).length = 10 := by
      rw [List.length_append, length_code]
      rfl
    have hstart : (start.withPc (dmBase cfg xlen +
        (DmTop.commandEntry e.inputs.cmd).setWidth xlen)).pc = codeAddress cfg xlen 0 := by
      rw [hentry]
      rfl
    have hrest := hjump hgenerates.cmdtype hadvances
    rw [← hlength] at hrest
    have hfold := foldlM_of_advances hxlen haligned e hstart (by rw [hlength])
      (fun position hposition ↦ by
        rw [Nat.zero_add, decode_words hgenerates (by omega)]
        rfl)
      (fun instruction hmem ↦ by
        rcases List.mem_append.mp hmem with hcode | hnop
        · exact isStraight_code _ _ _ instruction hcode
        · rw [List.mem_singleton.mp hnop]
          rfl) hrest
    rw [List.foldlM_append, Option.bind_eq_bind, Option.bind_eq_some_iff] at hfold
    obtain ⟨after, hcode, hnop⟩ := hfold
    have hbefore : before.csrs = after.csrs :=
      csrs_of_foldlM e (fun instruction hmem ↦ by
        rw [List.mem_singleton.mp hmem]
        trivial) hnop
    have hsaved' : Saved (start.withPc (dmBase cfg xlen +
        (DmTop.commandEntry e.inputs.cmd).setWidth xlen)) := ⟨hsaved.dscratch0, hsaved.dscratch1⟩
    have hholds := scratchHolds_of_code e hsaved' hxlen haligned t hstart hcode
    refine ⟨?_, fun hscratch ↦ ?_⟩
    · rw [hbefore]
      exact hholds.dscratch0
    · rw [hbefore]
      exact hholds.dscratch1 hscratch

/-- A trap in a program buffer that does not write the scratch registers leaves all integer
registers as they are at the trap exactly when s0, and a0 away from the zero page, are there what
they were at the start of the command, or what its transfer has written to their scratch register:
the handler takes these two registers from the scratch registers. -/
theorem trapKeeps_iff {executes : BitVec 32 → Machine cfg xlen flen → Machine cfg xlen flen → Prop}
    (hkeeps : ∀ m after, ProgbufStep e executes m after →
      after.csrs csrDscratch0 = m.csrs csrDscratch0 ∧
        after.csrs csrDscratch1 = m.csrs csrDscratch1)
    (hadvances : Advances e.codeStep (stepsBefore operation) start before)
    (hprogbuf : Relation.ReflTransGen (ProgbufStep e executes) before last) {hart : ℕ}
    (hmhartid : last.csrs csrMhartid = BitVec.ofNat xlen hart) (flags : ℕ → BitVec 8) :
    ∃ parked : Machine cfg xlen flen,
      (∃ count, Advances (e.parkStep flags) count ⟨last.withPc (exceptionPc cfg xlen), [], 0⟩
        ⟨parked, [.store exceptionAddr 0], 0⟩) ∧
      parked.pc = haltPc cfg xlen ∧
      (∃ count, Advances (e.parkStep flags) count ⟨parked, [.store exceptionAddr 0], 0⟩
        (inLoop parked (Label.entryLoop.index cfg.hasSndScratch + 2) (BitVec.ofNat xlen hart)
          [.store exceptionAddr 0, .store haltedAddr (BitVec.ofNat 32 hart)] 1)) ∧
      ((∀ number, parked.gprs.read number = last.gprs.read number) ↔
        savedS0 e operation start = some (last.gprs.read 8) ∧
          (cfg.hasSndScratch = true →
            savedA0 e operation start = some (last.gprs.read 10))) := by
  have hholds := scratchHolds_of_advances hxlen haligned e hsaved hperforms hbusy hpc hadvances
  have hscratch := scratch_of_progbuf hkeeps hprogbuf
  refine ⟨(restored last).withPc (haltPc cfg xlen),
    ⟨_, advances_exception hxlen haligned e flags last [] 0⟩, rfl, ?_, ?_⟩
  · exact advances_parked hxlen haligned e flags (by
      rw [Machine.withPc_csrs, restored_csrs, hmhartid]) rfl [.store exceptionAddr 0] 0
  · rw [hholds.dscratch0, Option.some_inj, ← hscratch.1]
    refine (restored_gprs_iff last).trans (and_congr_right fun _ ↦
      forall_congr' fun hsecond ↦ ?_)
    rw [hholds.dscratch1 hsecond, Option.some_inj, ← hscratch.2]

end Command

/-- A write of s0 whose program buffer traps at its first instruction: the program buffer starts
with the new value in s0, and the hart comes back with the old one. -/
theorem writesS0_undone :
    ∃ before parked,
      Advances (DmTop.executesWord 0x00371008).codeStep 11 DmTop.atWhereTo before ∧
        before.pc = codeAddress farModule 64 10 ∧
        before.gprs.read 8 = 0x0123456789abcdef ∧
        (∃ count, Advances ((DmTop.executesWord 0x00371008).parkStep fun _ ↦ 0) count
          ⟨before.withPc (exceptionPc farModule 64), [], 0⟩
          ⟨parked, [.store exceptionAddr 0], 0⟩) ∧
        parked.pc = haltPc farModule 64 ∧ parked.gprs.read 8 = 0x5678 := by
  have hvalues : (stateAfter (DmTop.executesWord 0x00371008).codeStep 11 DmTop.atWhereTo).map
      (fun m ↦ (m.pc, m.gprs.read 8, (restored m).gprs.read 8)) =
        some (codeAddress farModule 64 10, 0x0123456789abcdef, 0x5678) := by decide +kernel
  obtain ⟨before, hbefore, hread⟩ := Option.map_eq_some_iff.mp hvalues
  simp only [Prod.mk.injEq] at hread
  exact ⟨before, (restored before).withPc (haltPc farModule 64), advances_of_stateAfter hbefore,
    hread.1, hread.2.1, ⟨_, advances_exception (Or.inr rfl) (by decide) _ _ before [] 0⟩, rfl,
    hread.2.2⟩

/-- A hart that has no instruction but NOP in its program buffer. -/
def executesNop (word : BitVec 32) (m after : Machine farModule 64 64) : Prop :=
  word = nop ∧ after = m.advance

/-- A write of x5 whose program buffer traps at its first instruction keeps the registers. -/
theorem writesX5_kept :
    ∃ before parked,
      Advances (DmTop.executesWord 0x00371005).codeStep 11 DmTop.atWhereTo before ∧
        (∃ count, Advances ((DmTop.executesWord 0x00371005).parkStep fun _ ↦ 0) count
          ⟨before.withPc (exceptionPc farModule 64), [], 0⟩
          ⟨parked, [.store exceptionAddr 0], 0⟩) ∧
        ∀ number, parked.gprs.read number = before.gprs.read number := by
  have hvalues : (stateAfter (DmTop.executesWord 0x00371005).codeStep 11 DmTop.atWhereTo).map
      (fun m ↦ (m.csrs csrMhartid, m.gprs.read 8, m.gprs.read 10)) =
        some (0, 0x5678, 0x1234) := by decide +kernel
  obtain ⟨before, hbefore, hread⟩ := Option.map_eq_some_iff.mp hvalues
  simp only [Prod.mk.injEq] at hread
  have hadvances := advances_of_stateAfter hbefore
  have hperforms : PerformsBefore farModule (DmTop.executesWord 0x00371005).inputs.cmd
      (some ⟨.gpr 5, 3, true⟩) :=
    ⟨by decide, by decide, by decide, by decide, by decide, by decide, by decide, by decide⟩
  have hsaved : Saved DmTop.atWhereTo := ⟨by decide, fun _ ↦ by decide⟩
  have hkeeps : ∀ m after, ProgbufStep (DmTop.executesWord 0x00371005) executesNop m after →
      after.csrs csrDscratch0 = m.csrs csrDscratch0 ∧
        after.csrs csrDscratch1 = m.csrs csrDscratch1 := by
    rintro m after ⟨-, -, -, -, rfl⟩
    exact ⟨rfl, rfl⟩
  obtain ⟨parked, hreturns, -, -, hkept⟩ := trapKeeps_iff (Or.inr rfl) (by decide)
    (DmTop.executesWord 0x00371005) hsaved hperforms (by decide) rfl hkeeps hadvances
    Relation.ReflTransGen.refl hread.1 (fun _ ↦ 0)
  refine ⟨before, parked, hadvances, hreturns, hkept.mpr ⟨?_, fun _ ↦ ?_⟩⟩
  · rw [hread.2.1]
    decide
  · rw [hread.2.2]
    decide

end RiscvDebug.Hart
