import RiscvDebug.Hart.RomTransparency

/-!
# The way back from a trap

A hart that traps in debug mode goes to the exception address, and one that meets an `ebreak` there
goes to the halt address. `_exception` signals Exception and takes s0, and a0 away from the zero
page, from the scratch registers, whatever these hold (`advances_exception`). From the halt address
the hart enters the park loop again and signals Halted (`advances_parked`).
-/

set_option autoImplicit false
set_option relaxedAutoImplicit false

namespace RiscvDebug.Hart

open Foundations DmMem

variable {cfg : Config} {xlen flen : ℕ}

/-! ### Entries of the ROM -/

/-- Where a hart goes that meets an `ebreak` in debug mode. -/
def haltPc (cfg : Config) (xlen : ℕ) : BitVec xlen := dmBase cfg xlen + haltAddress.setWidth xlen

/-- Where a hart goes that traps in debug mode. -/
def exceptionPc (cfg : Config) (xlen : ℕ) : BitVec xlen :=
  dmBase cfg xlen + exceptionAddress.setWidth xlen

theorem haltPc_eq (hxlen : xlen = 32 ∨ xlen = 64) : haltPc cfg xlen = romAddress cfg xlen 0 := by
  have hoffset : haltAddress.setWidth xlen = (romOffset 0).setWidth xlen := by
    rcases hxlen with rfl | rfl <;> decide
  rw [haltPc, hoffset, romAddress]

theorem exceptionPc_eq (hxlen : xlen = 32 ∨ xlen = 64) :
    exceptionPc cfg xlen = romAddress cfg xlen 4 := by
  have hoffset : exceptionAddress.setWidth xlen = (romOffset 4).setWidth xlen := by
    rcases hxlen with rfl | rfl <;> decide
  rw [exceptionPc, hoffset, romAddress]

namespace Environment

variable (e : Environment cfg xlen flen) (flags : ℕ → BitVec 8) (s : Session cfg xlen flen)

/-- One step of a hart in the ROM, where an `ebreak` leads to the halt address. -/
def parkStep : StepResult (Session cfg xlen flen) (RomExit cfg xlen flen) :=
  match e.romFetch s.machine with
  | some (.generated .ebreak) =>
    .next (s.withMachine (s.machine.withPc (haltPc cfg xlen)))
  | _ => e.romStep flags s

/-- The ROM executes an `ebreak` in no other way. -/
theorem parkStep_of_romStep {s after : Session cfg xlen flen}
    (hstep : e.romStep flags s = .next after) : e.parkStep flags s = .next after := by
  unfold parkStep
  split
  · rename_i hfetch
    rw [romStep, hfetch] at hstep
    split_ifs at hstep
    cases hstep
  · exact hstep

theorem advances_parkStep {count : ℕ} {s after : Session cfg xlen flen}
    (hadvances : Advances (e.romStep flags) count s after) :
    Advances (e.parkStep flags) count s after :=
  hadvances.mono fun _ _ ↦ e.parkStep_of_romStep flags

end Environment

/-! ### The handler -/

/-- The handler, up to its `ebreak`. -/
def signalCode (twoScratch : Bool) : List RomInstruction :=
  sndScratch twoScratch romLoadBase ++
    .sw 0 (romBase twoScratch) exceptionAddr :: restoreCode twoScratch

/-- The word of the `ebreak`. -/
def exceptionEnd (twoScratch : Bool) : ℕ :=
  Label.exceptionCode.index twoScratch + (signalCode twoScratch).length

/-- The registers with the base address in a0, away from the zero page. -/
def based (m : Machine cfg xlen flen) : Machine cfg xlen flen :=
  if cfg.hasSndScratch then m.setGpr 10 (dmBase cfg xlen) else m

theorem read_based (m : Machine cfg xlen flen) :
    (based m).gprs.read cfg.loadBaseAddr = dmBase cfg xlen := by
  have hgprs : (based m).gprs = (entered m).gprs := by
    unfold based entered
    split_ifs <;> rfl
  rw [hgprs]
  exact read_entered m m.pc

/-- The base address in a0 is not kept. -/
theorem restored_based (m : Machine cfg xlen flen) : restored (based m) = restored m := by
  unfold restored left based
  cases hscratch : cfg.hasSndScratch with
  | false => rfl
  | true =>
    simp only [if_true]
    rw [setGpr_setGpr]
    rfl

section Handler

variable (hxlen : xlen = 32 ∨ xlen = 64) (haligned : cfg.dmBaseAddress.toNat % 4096 = 0)
  (e : Environment cfg xlen flen) (flags : ℕ → BitVec 8)
include hxlen haligned

/-- The base address of the debug module goes to a0. -/
theorem foldlM_romLoadBase {s : Session cfg xlen flen} {index : ℕ}
    (hpc : s.machine.pc = romAddress cfg xlen index) :
    ∃ pc, romLoadBase.foldlM (e.romExecute flags) s =
      some (s.withMachine ((s.machine.setGpr 10 (dmBase cfg xlen)).withPc pc)) := by
  have hshift : 12 < xlen := by omega
  have hzero : BitVec.signExtend xlen 0#32 = BitVec.ofNat xlen 0 := by
    rcases hxlen with rfl | rfl <;> rfl
  refine ⟨s.machine.pc + 4 + 4 + 4, ?_⟩
  simp [romLoadBase, Environment.romExecute, Environment.execute, advance_eq, hshift]
  rw [hzero, BitVec.add_zero, hpc, romAddress, shift_codeAddress hxlen haligned]

theorem foldlM_signalCode {s : Session cfg xlen flen}
    (hpc : s.machine.pc = romAddress cfg xlen (Label.exceptionCode.index cfg.hasSndScratch)) :
    ∃ pc, (signalCode cfg.hasSndScratch).foldlM (e.romExecute flags) s =
      some ((s.withMachine ((restored s.machine).withPc pc)).withAccess
        (.store exceptionAddr 0)) := by
  have hbase : ∃ pc, (sndScratch cfg.hasSndScratch romLoadBase).foldlM (e.romExecute flags) s =
      some (s.withMachine ((based s.machine).withPc pc)) := by
    unfold based
    cases hscratch : cfg.hasSndScratch with
    | false => exact ⟨s.machine.pc, rfl⟩
    | true =>
      exact foldlM_romLoadBase hxlen haligned e flags hpc
  obtain ⟨middle, hload⟩ := hbase
  have hzero : ((based s.machine).gprs.read 0).setWidth 32 = 0 := by
    rw [IntegerRegisters.read_zero]
    exact BitVec.setWidth_zero _ _
  obtain ⟨pc, hrestore⟩ := foldlM_restoreCode e flags
    ((s.withMachine ((based s.machine).withPc middle).advance).withAccess (.store exceptionAddr 0))
  refine ⟨pc, ?_⟩
  rw [signalCode, List.foldlM_append, hload]
  simp only [Option.bind_eq_bind, Option.bind_some, List.foldlM_cons]
  rw [romBase_eq, romExecute_sw hxlen haligned e flags _ (by decide)
    (show (s.withMachine ((based s.machine).withPc middle)).machine.gprs.read cfg.loadBaseAddr = _
      from read_based _), Option.bind_some]
  have hvalue : ((s.withMachine ((based s.machine).withPc middle)).machine.gprs.read 0).setWidth
      32 = 0#32 := hzero
  rw [hvalue]
  refine hrestore.trans ?_
  simp [advance_eq, restored_based]

/-- `_exception`: the hart signals Exception, takes its saved registers from the scratch registers
and goes to the halt address. -/
theorem advances_exception (m : Machine cfg xlen flen) (accesses : List Access) (iterations : ℕ) :
    Advances (e.parkStep flags) (1 + (signalCode cfg.hasSndScratch).length + 1)
      ⟨m.withPc (exceptionPc cfg xlen), accesses, iterations⟩
      ⟨(restored m).withPc (haltPc cfg xlen), accesses ++ [.store exceptionAddr 0],
        iterations⟩ := by
  have hjump := advances_jump hxlen haligned e flags
    (s := ⟨m.withPc (exceptionPc cfg xlen), accesses, iterations⟩) (exceptionPc_eq hxlen)
    (show (romListing cfg.hasSndScratch)[4]? = some (romJump cfg.hasSndScratch 4 .exceptionCode) by
      cases cfg.hasSndScratch <;> decide +kernel)
    (by cases cfg.hasSndScratch <;> decide)
  have hblock := advances_code hxlen haligned e flags rfl
    (show signalCode cfg.hasSndScratch <+: _ by cases cfg.hasSndScratch <;> decide +kernel)
    (by cases cfg.hasSndScratch <;> rfl) (Or.inl (by cases cfg.hasSndScratch <;> decide))
    (foldlM_signalCode hxlen haligned e flags
      (s := ⟨m.withPc (romAddress cfg xlen (Label.exceptionCode.index cfg.hasSndScratch)), accesses,
        iterations⟩) rfl)
    (fun pc ↦ rfl)
  refine (e.advances_parkStep flags (hjump.trans hblock)).trans (Advances.single ?_)
  have hend : (romListing cfg.hasSndScratch)[exceptionEnd cfg.hasSndScratch]? =
      some (.generated .ebreak) := by
    cases cfg.hasSndScratch <;> decide +kernel
  obtain ⟨hindex, -⟩ := List.getElem?_eq_some_iff.mp hend
  rw [Environment.parkStep, romFetch_eq hxlen haligned e hindex rfl, hend]
  have hmachine : (restored (m.withPc (romAddress cfg xlen
      (Label.exceptionCode.index cfg.hasSndScratch)))).withPc (haltPc cfg xlen) =
        (restored m).withPc (haltPc cfg xlen) := by
    rw [restored_withPc, withPc_withPc]
  exact congrArg (fun machine ↦ StepResult.next (Session.mk machine
    (accesses ++ [.store exceptionAddr 0]) iterations)) hmachine

/-- The store to Halted at the head of the park loop. -/
theorem advances_halted {m : Machine cfg xlen flen} {hart : ℕ} (accesses : List Access)
    (iterations : ℕ) :
    Advances (e.romStep flags) 1
      (inLoop m (Label.entryLoop.index cfg.hasSndScratch + 1) (BitVec.ofNat xlen hart) accesses
        iterations)
      (inLoop m (Label.entryLoop.index cfg.hasSndScratch + 2) (BitVec.ofNat xlen hart)
        (accesses ++ [.store haltedAddr (BitVec.ofNat 32 hart)]) iterations) := by
  have hvalue : ((inLoop m (Label.entryLoop.index cfg.hasSndScratch + 1) (BitVec.ofNat xlen hart)
      accesses iterations).machine.gprs.read 8).setWidth 32 = BitVec.ofNat 32 hart := by
    have hread : (inLoop m (Label.entryLoop.index cfg.hasSndScratch + 1) (BitVec.ofNat xlen hart)
        accesses iterations).machine.gprs.read 8 = BitVec.ofNat xlen hart :=
      IntegerRegisters.read_write_self _ _ (by decide)
    rw [hread]
    exact BitVec.setWidth_ofNat_of_le (by omega) hart
  have hstore := romExecute_sw hxlen haligned e flags 8 (show haltedAddr.toNat < 0x380 by decide)
    (show (inLoop m (Label.entryLoop.index cfg.hasSndScratch + 1) (BitVec.ofNat xlen hart) accesses
      iterations).machine.gprs.read cfg.loadBaseAddr = _ from read_saved_base m _ _)
  rw [hvalue] at hstore
  have hcode : (romListing cfg.hasSndScratch)[Label.entryLoop.index cfg.hasSndScratch + 1]? =
      some (.sw 8 cfg.loadBaseAddr haltedAddr) := by
    rw [← romBase_eq]
    cases cfg.hasSndScratch <;> decide +kernel
  refine romStep_next hxlen haligned e flags rfl hcode ?_
  rw [counted_of_ne hxlen haligned rfl (by cases cfg.hasSndScratch <;> decide)
    (Nat.succ_ne_self _), hstore]
  have hpc : (inLoop m (Label.entryLoop.index cfg.hasSndScratch + 1) (BitVec.ofNat xlen hart)
      accesses iterations).machine.pc + 4 =
        romAddress cfg xlen (Label.entryLoop.index cfg.hasSndScratch + 2) :=
    romAddress_succ hxlen haligned (by cases cfg.hasSndScratch <;> decide)
  rw [advance_eq, hpc]
  rfl

/-- From the halt address the hart enters the park loop, and its first access signals Halted. -/
theorem advances_parked {m : Machine cfg xlen flen} {hart : ℕ}
    (hmhartid : m.csrs csrMhartid = BitVec.ofNat xlen hart) (hpc : m.pc = haltPc cfg xlen)
    (accesses : List Access) (iterations : ℕ) :
    ∃ count, Advances (e.parkStep flags) count ⟨m, accesses, iterations⟩
      (inLoop m (Label.entryLoop.index cfg.hasSndScratch + 2) (BitVec.ofNat xlen hart)
        (accesses ++ [.store haltedAddr (BitVec.ofNat 32 hart)]) (iterations + 1)) := by
  rw [haltPc_eq hxlen] at hpc
  exact ⟨_, e.advances_parkStep flags (((advances_entry hxlen haligned e flags hpc).trans
    (advances_entryLoop hxlen haligned e flags hmhartid)).trans
      (advances_halted hxlen haligned e flags accesses (iterations + 1)))⟩

end Handler

end RiscvDebug.Hart
