import RiscvDebug.Hart.ParkLoopRefinement
import RiscvDebug.Hart.ProgramBuffer
import RiscvDebug.Hart.TrappedTransfers

/-!
# A hart in debug mode

The ROM, the jump at WhereTo and the generated code as one machine: `debugStep` executes the word at
the program counter, an `ebreak` leads to the halt address and a trap to the exception address. A
hart that starts in the ROM fetches from its listing up to WhereTo (`parkStep_inRom`), so the runs
of the parts are runs of the whole. A command takes the hart once around: from the halt address
through the park loop, WhereTo and the generated code back to the halt address, with the effect of
the command on its registers and the data registers, or with neither changed when the access to the
register traps (`debugMode_performs`).
-/

set_option autoImplicit false
set_option relaxedAutoImplicit false

namespace RiscvDebug.Hart

open Foundations DmMem

variable {cfg : Config} {xlen flen : ℕ}

/-! ### Steps -/

/-- The address is one of the ROM. -/
def inRom (cfg : Config) (pc : BitVec xlen) : Bool :=
  (debugOffset cfg pc).any fun offset ↦ decide (haltAddress.setWidth 12 ≤ offset)

namespace Environment

variable (e : Environment cfg xlen flen) (flags : ℕ → BitVec 8)

/-- One step of a hart in debug mode. -/
def debugStep (s : Session cfg xlen flen) :
    StepResult (Session cfg xlen flen) (RomExit cfg xlen flen) :=
  if inRom cfg s.machine.pc then e.parkStep flags s
  else
    match e.codeStep s.machine with
    | .next after => .next (s.withMachine after)
    | .done (.halted last) => .next (s.withMachine (last.withPc (haltPc cfg xlen)))
    | .done (.trapped last) => .next (s.withMachine (last.withPc (exceptionPc cfg xlen)))
    | .done (.stuck _) => .done .stuck

theorem debugStep_of_code {s : Session cfg xlen flen} (hcode : inRom cfg s.machine.pc = false)
    {after : Machine cfg xlen flen} (hstep : e.codeStep s.machine = .next after) :
    e.debugStep flags s = .next (s.withMachine after) := by
  rw [debugStep, hcode, if_neg Bool.false_ne_true, hstep]

/-- A run of generated code ends with the registers it has there. -/
theorem codeStep_done {m last : Machine cfg xlen flen}
    (hdone : e.codeStep m = .done (.halted last) ∨ e.codeStep m = .done (.trapped last)) :
    last = m := by
  unfold codeStep at hdone
  split at hdone
  · rcases hdone with hdone | hdone <;> cases hdone
  · rcases hdone with hdone | hdone <;> cases hdone
    rfl
  · split_ifs at hdone
    · rcases hdone with hdone | hdone <;> cases hdone
      rfl
    · split at hdone
      · rcases hdone with hdone | hdone <;> cases hdone
      · rcases hdone with hdone | hdone <;> cases hdone

end Environment

section Regions

variable (hxlen : xlen = 32 ∨ xlen = 64) (haligned : cfg.dmBaseAddress.toNat % 4096 = 0)
include hxlen haligned

theorem inRom_romAddress {index : ℕ} (hindex : index < 512) :
    inRom cfg (romAddress cfg xlen index) = true := by
  have hoffset := romOffset_toNat hindex
  rw [inRom, romAddress, debugOffset_add hxlen haligned, Option.any_some, decide_eq_true_eq,
    BitVec.le_def]
  show 0x800 ≤ _
  omega

theorem inRom_of_lt {offset : BitVec 12} (hlow : offset.toNat < 0x800) :
    inRom cfg (dmBase cfg xlen + offset.setWidth xlen) = false := by
  rw [inRom, debugOffset_add hxlen haligned, Option.any_some, decide_eq_false_iff_not,
    BitVec.le_def]
  show ¬ 0x800 ≤ _
  omega

theorem inRom_codeAddress {index : ℕ} (hindex : index ≤ 18) :
    inRom cfg (codeAddress cfg xlen index) = false := by
  have hoffset := commandOffset_toNat hindex
  exact inRom_of_lt hxlen haligned (by omega)

end Regions

/-! ### The ROM is closed -/

/-- The instruction leads from its word to another word of the ROM, or to WhereTo. -/
def RomInstruction.leadsInside (twoScratch : Bool) (index : ℕ) : RomInstruction → Bool
  | .generated (.jal _ imm) =>
    imm == romDistance 21 (romOffset index) whereToAddr ||
      (List.range (romListing twoScratch).length).any fun target ↦
        imm == romDistance 21 (romOffset index) (romOffset target)
  | .bne _ _ imm =>
    decide (index + 1 < (romListing twoScratch).length) &&
      (List.range (romListing twoScratch).length).any fun target ↦
        imm == romDistance 13 (romOffset index) (romOffset target)
  | .dret | .generated .ebreak => true
  | _ => decide (index + 1 < (romListing twoScratch).length)

theorem romListing_leadsInside (twoScratch : Bool) :
    ∀ index < (romListing twoScratch).length,
      ((romListing twoScratch)[index]?.all fun instruction ↦
        instruction.leadsInside twoScratch index) = true := by
  cases twoScratch <;> decide +kernel

/-- A word of the ROM. -/
def AtRomWord (cfg : Config) (pc : BitVec xlen) : Prop :=
  ∃ index < (romListing cfg.hasSndScratch).length, pc = romAddress cfg xlen index

/-- The ebreak of the ROM leads to its first word, and every other instruction is a step of the
ROM. -/
theorem parkStep_cases {e : Environment cfg xlen flen} {flags : ℕ → BitVec 8}
    {s after : Session cfg xlen flen} {instruction : RomInstruction}
    (hpc : s.machine.pc ≠ whereToAddress cfg xlen)
    (hfetch : e.romFetch s.machine = some instruction) (hstep : e.parkStep flags s = .next after) :
    (instruction = .generated .ebreak ∧ after.machine.pc = haltPc cfg xlen) ∨
      e.romExecute flags s.counted instruction = some after := by
  unfold Environment.parkStep at hstep
  rw [hfetch] at hstep
  by_cases hebreak : instruction = .generated .ebreak
  · subst hebreak
    rw [← StepResult.next.inj hstep]
    exact Or.inl ⟨rfl, rfl⟩
  · right
    have hrom : e.romDispatch flags s.counted (some instruction) = .next after := by
      rw [← hfetch]
      unfold Environment.romStep at hstep
      rw [if_neg hpc] at hstep
      cases instruction with
      | generated instruction =>
        cases instruction with
        | ebreak => exact absurd rfl hebreak
        | _ => exact hstep
      | _ => exact hstep
    cases instruction with
    | dret => cases hrom
    | _ =>
      simp only [Environment.romDispatch] at hrom
      split at hrom
      · rename_i hexecute
        rw [hexecute, StepResult.next.inj hrom]
      · cases hrom

section Closed

variable (hxlen : xlen = 32 ∨ xlen = 64) (haligned : cfg.dmBaseAddress.toNat % 4096 = 0)
  (e : Environment cfg xlen flen) (flags : ℕ → BitVec 8) {s after : Session cfg xlen flen}
include hxlen haligned

/-- A relative jump between words of the debug memory. -/
theorem romAddress_add {index : ℕ} {width : ℕ} (hwidth : 13 ≤ width) (hnarrow : width ≤ 32)
    (target : BitVec 12) :
    romAddress cfg xlen index + (romDistance width (romOffset index) target).signExtend xlen =
      dmBase cfg xlen + target.setWidth xlen :=
  dmBase_add_romDistance hxlen haligned hwidth hnarrow _ _

/-- From a word of the ROM a hart goes to another one, or to WhereTo. -/
theorem parkStep_inRom (hpc : AtRomWord cfg s.machine.pc)
    (hstep : e.parkStep flags s = .next after) :
    AtRomWord cfg after.machine.pc ∨ after.machine.pc = whereToAddress cfg xlen := by
  obtain ⟨index, hindex, hpc⟩ := hpc
  have hlength := length_romListing_le cfg
  have hfetch := romFetch_eq hxlen haligned e hindex hpc
  have hleads := romListing_leadsInside cfg.hasSndScratch index hindex
  have hwhere : s.machine.pc ≠ whereToAddress cfg xlen :=
    hpc ▸ romAddress_ne_whereToAddress hxlen haligned (by omega)
  have hmachine : s.counted.machine = s.machine := by
    unfold Session.counted
    split_ifs <;> rfl
  rw [List.getElem?_eq_getElem hindex] at hfetch hleads
  rw [Option.all_some] at hleads
  generalize (romListing cfg.hasSndScratch)[index] = instruction at hfetch hleads
  have hsucc (hplain : index + 1 < (romListing cfg.hasSndScratch).length)
      (hnext : after.machine.pc = s.machine.pc + 4) : AtRomWord cfg after.machine.pc :=
    ⟨index + 1, hplain, by rw [hnext, hpc, romAddress_succ hxlen haligned (by omega)]⟩
  rcases parkStep_cases hwhere hfetch hstep with ⟨-, hhalt⟩ | hexecute
  · exact Or.inl ⟨0, by omega, hhalt.trans (haltPc_eq hxlen)⟩
  · cases hstraight : instruction.isStraight with
    | true =>
      have hplain : index + 1 < (romListing cfg.hasSndScratch).length := by
        cases instruction with
        | generated instruction =>
          cases instruction with
          | jal | ebreak => exact absurd hstraight Bool.false_ne_true
          | _ => exact of_decide_eq_true hleads
        | bne | dret => exact absurd hstraight Bool.false_ne_true
        | _ => exact of_decide_eq_true hleads
      have hnext := pc_of_romExecute e flags hstraight hexecute
      rw [hmachine] at hnext
      exact Or.inl (hsucc hplain hnext)
    | false =>
      cases instruction with
      | generated instruction =>
        cases instruction with
        | jal rd imm =>
          have htarget : after.machine.pc = romAddress cfg xlen index + imm.signExtend xlen := by
            rw [← Option.some_inj.mp hexecute, ← hpc, ← hmachine]
            rfl
          rcases Bool.or_eq_true_iff.mp hleads with himm | himm
          · rw [beq_iff_eq.mp himm,
              romAddress_add hxlen haligned (by decide) (by decide)] at htarget
            exact Or.inr htarget
          · obtain ⟨target, hmem, himm⟩ := List.any_eq_true.mp himm
            rw [beq_iff_eq.mp himm,
              romAddress_add hxlen haligned (by decide) (by decide)] at htarget
            exact Or.inl ⟨target, List.mem_range.mp hmem, htarget⟩
        | ebreak => cases hexecute
        | _ => exact absurd hstraight.symm Bool.false_ne_true
      | bne rs1 rs2 imm =>
        obtain ⟨hplain, himm⟩ := Bool.and_eq_true_iff.mp hleads
        obtain ⟨target, hmem, himm⟩ := List.any_eq_true.mp himm
        have hafter := Option.some_inj.mp hexecute
        rw [hmachine] at hafter
        rw [← hafter, Session.withMachine_machine]
        split_ifs
        · exact Or.inl ⟨index + 1, of_decide_eq_true hplain, by
            rw [advance_eq, withPc_pc, hpc, romAddress_succ hxlen haligned (by omega)]⟩
        · refine Or.inl ⟨target, List.mem_range.mp hmem, ?_⟩
          rw [withPc_pc, hpc, beq_iff_eq.mp himm,
            romAddress_add hxlen haligned (by decide) (by decide)]
          rfl
      | dret => cases hexecute
      | _ => exact absurd hstraight.symm Bool.false_ne_true

end Closed

/-! ### The parts in the whole -/

/-- The jump at WhereTo has the same decoding in the ROM. -/
theorem romDecode_of_jal {w : BitVec 32} {dest : BitVec 5} {imm : BitVec 21}
    (hjal : decode w = some (.jal dest imm)) : romDecode w = some (.generated (.jal dest imm)) := by
  have hopcode : opcode w = 0x6f := by
    unfold decode at hjal
    repeat' split at hjal
    all_goals first | assumption | cases hjal
  have hdret : w ≠ 0x7b200073 := by
    rintro rfl
    exact absurd hopcode (by decide)
  have hother (code : BitVec 7) (rest : Prop) (hcode : (0x6f : BitVec 7) ≠ code) :
      ¬ (opcode w = code ∧ rest) := fun hboth ↦ hcode (hopcode.symm.trans hboth.1)
  rw [romDecode, if_neg (hother _ _ (by decide)), if_neg (hother _ _ (by decide)),
    if_neg (hother _ _ (by decide)), if_neg (hother _ _ (by decide)),
    if_neg (hother _ _ (by decide)), if_neg (hother _ _ (by decide)), if_neg hdret, hjal]
  rfl

section Parts

variable (hxlen : xlen = 32 ∨ xlen = 64) (haligned : cfg.dmBaseAddress.toNat % 4096 = 0)
  (e : Environment cfg xlen flen) (flags : ℕ → BitVec 8) (hbusy : e.memory.state ≠ .idle)
include hxlen haligned hbusy

/-- At WhereTo a run of the ROM ends. -/
theorem parkStep_whereTo (hcmdtype : e.inputs.cmd.cmdtype = accessRegister)
    {s : Session cfg xlen flen} (hpc : s.machine.pc = whereToAddress cfg xlen) :
    e.parkStep flags s = .done (.whereTo s) := by
  have hfetch : e.romFetch s.machine = some
      (.generated (.jal 0 (romDistance 21 whereToAddr (DmTop.commandEntry e.inputs.cmd)))) := by
    rw [Environment.romFetch, hpc, whereToAddress, debugOffset_add hxlen haligned,
      Option.bind_some, romDecode_of_jal (readWord_whereTo_busy e.inputs s.machine.data hbusy
        hcmdtype)]
  rw [Environment.parkStep, hfetch]
  exact if_pos hpc

/-- A run of the ROM is one of the hart in debug mode. -/
theorem advances_debugStep_of_rom (hcmdtype : e.inputs.cmd.cmdtype = accessRegister) {count : ℕ}
    {s last : Session cfg xlen flen}
    (hpc : AtRomWord cfg s.machine.pc ∨ s.machine.pc = whereToAddress cfg xlen)
    (hadvances : Advances (e.parkStep flags) count s last) :
    Advances (e.debugStep flags) count s last := by
  induction count generalizing s with
  | zero => exact hadvances
  | succ count ih =>
    obtain ⟨after, hstep, hrest⟩ := hadvances
    rcases hpc with hrom | hwhere
    · have hin : inRom cfg s.machine.pc = true := by
        obtain ⟨index, hindex, hpc⟩ := hrom
        have hlength := length_romListing_le cfg
        rw [hpc]
        exact inRom_romAddress hxlen haligned (by omega)
      refine ⟨after, ?_, ih (parkStep_inRom hxlen haligned e flags hrom hstep) hrest⟩
      rw [Environment.debugStep, hin, if_pos rfl, hstep]
    · rw [parkStep_whereTo hxlen haligned e flags hbusy hcmdtype hwhere] at hstep
      cases hstep

omit hbusy in
/-- The generated code of a transfer goes from word to word up to its `ebreak`. -/
theorem codeStep_inCode {name : RegisterName} {size : BitVec 3} {write : Bool}
    (hgenerates : GeneratesTransfer cfg e.inputs.cmd name size write false)
    {m after : Machine cfg xlen flen} {index : ℕ} (hindex : index ≤ 9)
    (hpc : m.pc = codeAddress cfg xlen index) (hstep : e.codeStep m = .next after) :
    index < 9 ∧ after.pc = codeAddress cfg xlen (index + 1) := by
  have hlength : (code cfg name size write).length = 9 := length_code name size write
  have hfetch := fetch_codeAddress hxlen haligned e (by omega) hpc
  rw [decode_words hgenerates (by omega)] at hfetch
  rcases Nat.lt_or_eq_of_le hindex with hlt | rfl
  · refine ⟨hlt, ?_⟩
    rw [List.getElem?_append_left (by omega), List.getElem?_eq_getElem (by omega)] at hfetch
    have hstraight : ((code cfg name size write)[index]).isStraight = true :=
      isStraight_code name size write _ (List.getElem_mem (by omega))
    rw [e.codeStep_straight hfetch hstraight] at hstep
    split_ifs at hstep
    split at hstep
    · cases hstep
    · rename_i middle hexecute
      rw [← StepResult.next.inj hstep, pc_of_isStraight hstraight hexecute, hpc,
        codeAddress_succ hxlen (by omega)]
  · rw [List.getElem?_append_right (by omega), hlength] at hfetch
    have hebreak : e.fetch m = some .ebreak := hfetch
    rw [Environment.codeStep, hebreak] at hstep
    cases hstep

omit hbusy in
/-- A run of the generated code is one of the hart in debug mode. -/
theorem advances_debugStep_of_code {name : RegisterName} {size : BitVec 3} {write : Bool}
    (hgenerates : GeneratesTransfer cfg e.inputs.cmd name size write false)
    {m last : Machine cfg xlen flen} {index count : ℕ} (hindex : index ≤ 9)
    (hpc : m.pc = codeAddress cfg xlen index) (hadvances : Advances e.codeStep count m last)
    (accesses : List Access) (iterations : ℕ) :
    Advances (e.debugStep flags) count ⟨m, accesses, iterations⟩ ⟨last, accesses, iterations⟩ ∧
      ∃ index ≤ 9, last.pc = codeAddress cfg xlen index := by
  induction count generalizing m index with
  | zero =>
    obtain rfl : m = last := hadvances
    exact ⟨rfl, index, hindex, hpc⟩
  | succ count ih =>
    obtain ⟨after, hstep, hrest⟩ := hadvances
    obtain ⟨hlt, hnext⟩ := codeStep_inCode hxlen haligned e hgenerates hindex hpc hstep
    obtain ⟨hlast, hend⟩ := ih hlt hnext hrest
    refine ⟨⟨_, e.debugStep_of_code flags ?_ hstep, hlast⟩, hend⟩
    rw [hpc]
    exact inRom_codeAddress hxlen haligned (by omega)

end Parts

/-! ### Registers and data words -/

/-- The registers and the data words are the same, but for the scratch registers. -/
structure SameRegisters (m m' : Machine cfg xlen flen) : Prop where
  gprs : ∀ number, m'.gprs.read number = m.gprs.read number
  fprs : m'.fprs = m.fprs
  csrs : ∀ csr, csr ≠ csrDscratch0 → csr ≠ csrDscratch1 → m'.csrs csr = m.csrs csr
  data : m'.data = m.data

/-- The effect of a command depends on the registers and the data words alone. -/
theorem Transfers.of_same {name : RegisterName} {size : BitVec 3} {write : Bool}
    {m m' final final' : Machine cfg xlen flen} (hname : name ≠ .csr csrDscratch0 ∧
      name ≠ .csr csrDscratch1) (hsame : SameRegisters m m')
    (htransfers : Transfers name size write m' final) (hfinal : SameRegisters final final') :
    Transfers name size write m final' := by
  unfold Transfers at htransfers ⊢
  cases write with
  | true =>
    have hwritten : Written name size m' final := htransfers
    refine ⟨fun number ↦ ?_, fun number ↦ ?_, fun csr hfirst hsecond ↦ ?_, ?_⟩
    · rw [hfinal.gprs, hwritten.gprs, hsame.gprs, hsame.data]
    · rw [hfinal.fprs, hwritten.fprs, hsame.fprs, hsame.data]
    · rw [hfinal.csrs csr hfirst hsecond, hwritten.csrs csr hfirst hsecond, hsame.data,
        hsame.csrs csr hfirst hsecond]
    · rw [hfinal.data, hwritten.data, hsame.data]
  | false =>
    have hread : ReadOut name size m' final := htransfers
    refine ⟨fun number ↦ ?_, fun number ↦ ?_, fun csr hfirst hsecond ↦ ?_, ?_⟩
    · rw [hfinal.gprs, hread.gprs, hsame.gprs]
    · rw [hfinal.fprs, hread.fprs, hsame.fprs]
    · rw [hfinal.csrs csr hfirst hsecond, hread.csrs csr hfirst hsecond,
        hsame.csrs csr hfirst hsecond]
    · rw [hfinal.data, hread.data]
      unfold storedRegister
      cases name with
      | gpr number => simp only [hsame.data, hsame.gprs]
      | fpr number => simp only [hsame.data, hsame.fprs]
      | csr number =>
        have hkept : m'.csrs number = m.csrs number :=
          hsame.csrs number (fun heq ↦ hname.1 (heq ▸ rfl)) fun heq ↦ hname.2 (heq ▸ rfl)
        simp only [hsame.data, hkept]

/-- A register other than the named one is kept. -/
theorem Transfers.csrs_of_ne {name : RegisterName} {size : BitVec 3} {write : Bool}
    {m final : Machine cfg xlen flen} (htransfers : Transfers name size write m final)
    {csr : BitVec 12} (hother : write = true → name ≠ .csr csr) (hfirst : csr ≠ csrDscratch0)
    (hsecond : csr ≠ csrDscratch1) : final.csrs csr = m.csrs csr := by
  unfold Transfers at htransfers
  cases write with
  | true =>
    have hwritten : Written name size m final := htransfers
    rw [hwritten.csrs csr hfirst hsecond, if_neg (hother rfl)]
  | false =>
    have hread : ReadOut name size m final := htransfers
    exact hread.csrs csr hfirst hsecond

theorem SameRegisters.refl (m : Machine cfg xlen flen) : SameRegisters m m :=
  ⟨fun _ ↦ rfl, rfl, fun _ _ _ ↦ rfl, rfl⟩

theorem SameRegisters.withPc (m : Machine cfg xlen flen) (pc : BitVec xlen) :
    SameRegisters m (m.withPc pc) := ⟨fun _ ↦ rfl, rfl, fun _ _ _ ↦ rfl, rfl⟩

/-- What the handler brings back. -/
theorem Recoverable.same {start m : Machine cfg xlen flen} (hm : Recoverable start m)
    (pc : BitVec xlen) : SameRegisters start ((restored m).withPc pc) where
  gprs := hm.restored_gprs
  fprs := by rw [Machine.withPc_fprs, restored, Machine.setGpr_fprs, left_fprs, hm.fprs]
  csrs := by
    intro csr hfirst hsecond
    rw [Machine.withPc_csrs, restored_csrs, hm.csrs csr hfirst hsecond]
  data := by rw [Machine.withPc_data, restored, Machine.setGpr_data, left_data, hm.data]

theorem SameRegisters.trans {m m' m'' : Machine cfg xlen flen} (hfirst : SameRegisters m m')
    (hsecond : SameRegisters m' m'') : SameRegisters m m'' where
  gprs := fun number ↦ (hsecond.gprs number).trans (hfirst.gprs number)
  fprs := hsecond.fprs.trans hfirst.fprs
  csrs := fun csr hother hother' ↦
    (hsecond.csrs csr hother hother').trans (hfirst.csrs csr hother hother')
  data := hsecond.data.trans hfirst.data

/-- The registers with which a hart leaves the ROM. -/
theorem same_restored_saved (m : Machine cfg xlen flen) (pc : BitVec xlen) :
    SameRegisters m ((restored (saved m)).withPc pc) where
  gprs := fun number ↦ congrArg (fun gprs ↦ gprs.read number) (restored_saved_gprs m)
  fprs := by simp [restored, saved]
  csrs := by
    intro csr hfirst hsecond
    rw [Machine.withPc_csrs, restored_csrs, saved, entered_csrs_of_ne _ hsecond,
      Machine.setCsr_csrs, Function.update_of_ne hfirst]
  data := by simp [restored, saved]

/-- The scratch registers with which a hart leaves the ROM. -/
theorem saved_restored_saved (m : Machine cfg xlen flen) (pc : BitVec xlen) :
    Saved ((restored (saved m)).withPc pc) where
  dscratch0 := by
    rw [Machine.withPc_csrs, restored_csrs, Machine.withPc_gprs, restored_saved_gprs,
      saved_dscratch0]
  dscratch1 := by
    intro hscratch
    rw [Machine.withPc_csrs, restored_csrs, Machine.withPc_gprs, restored_saved_gprs, saved,
      entered_saved _ hscratch]
    rfl

/-! ### A command -/

/-- How a run of the generated code of a transfer from its first word ends: at its `ebreak` with the
effect of the command, or at an instruction that traps. -/
theorem code_ends (hxlen : xlen = 32 ∨ xlen = 64) (haligned : cfg.dmBaseAddress.toNat % 4096 = 0)
    (e : Environment cfg xlen flen) {name : RegisterName} {size : BitVec 3} {write : Bool}
    (haccess : AccessesRegister cfg e.inputs.cmd name size write) (hfits : name.fits xlen flen size)
    (hname : name ≠ .csr csrDscratch0 ∧ name ≠ .csr csrDscratch1) {start : Machine cfg xlen flen}
    (hpc : start.pc = codeAddress cfg xlen 0) :
    (∃ last, boundedRun e.codeStep 10 start = some (.trapped last)) ∨
      ∃ last, boundedRun e.codeStep 10 start = some (.halted last) ∧
        Transfers name size write start last := by
  have hrun : e.run 10 start = .trapped ∨
      ∃ last, e.run 10 start = .halted last ∧ Transfers name size write start last := by
    cases name with
    | gpr number =>
      by_cases hborrowed : cfg.hasSndScratch = true ∧ number = 10
      · obtain ⟨hscratch, rfl⟩ := hborrowed
        exact run_borrowed hxlen haligned e hscratch haccess hfits hpc
      · exact run_gpr hxlen haligned e hborrowed haccess hfits hpc
    | fpr number => exact run_fpr hxlen haligned e haccess hfits hpc
    | csr number =>
      exact run_csr hxlen haligned e haccess hfits (fun heq ↦ hname.1 (heq ▸ rfl))
        (fun heq ↦ hname.2 (heq ▸ rfl)) hpc
  rcases hrun with htrapped | ⟨last, hhalted, htransfers⟩
  · left
    rw [e.run_eq] at htrapped
    cases hexit : boundedRun e.codeStep 10 start with
    | none => simp [hexit] at htrapped
    | some exit =>
      cases exit with
      | trapped last => exact ⟨last, rfl⟩
      | halted last | stuck last => simp [hexit, CodeExit.outcome] at htrapped
  · exact Or.inr ⟨last, exit_of_halted hhalted, htransfers⟩

/-- A run of generated code that ends with a trap is at an instruction that traps. -/
theorem exists_traps {e : Environment cfg xlen flen} {m last : Machine cfg xlen flen}
    (hdone : e.codeStep m = .done (.trapped last)) :
    ∃ instruction, e.traps m instruction = true := by
  unfold Environment.codeStep at hdone
  split at hdone
  · cases hdone
  · cases hdone
  · rename_i instruction hfetch hother
    split_ifs at hdone with htraps
    · exact ⟨instruction, htraps⟩
    · split at hdone <;> cases hdone

/-- Only the access to the named register, or an instruction before it, may trap. -/
def TrapsAtAccess (e : Environment cfg xlen flen) (name : RegisterName) (write : Bool) : Prop :=
  ∀ m instruction, e.traps m instruction = true →
    ∃ position ≤ accessPosition cfg name write, m.pc = codeAddress cfg xlen position

section Command

variable (hxlen : xlen = 32 ∨ xlen = 64) (haligned : cfg.dmBaseAddress.toNat % 4096 = 0)
  (e : Environment cfg xlen flen) (flags : ℕ → BitVec 8) {m : Machine cfg xlen flen} {hart : ℕ}
  (hbusy : e.memory.state ≠ .idle) {name : RegisterName} {size : BitVec 3} {write : Bool}
  (haccess : AccessesRegister cfg e.inputs.cmd name size write)
include hxlen haligned hbusy haccess

omit hxlen haligned hbusy in
/-- A transfer goes to the generated code. -/
theorem commandEntry_of_transfer :
    dmBase cfg xlen + (DmTop.commandEntry e.inputs.cmd).setWidth xlen = codeAddress cfg xlen 0 := by
  have hentry : DmTop.commandEntry e.inputs.cmd = abstractCmdBaseAddr := by
    rw [DmTop.commandEntry]
    simp [haccess.transfer]
  rw [hentry, codeAddress]
  rfl

/-- From WhereTo to the first word of the generated code. -/
theorem advances_fromWhereTo (htraps : TrapsAtAccess e name write)
    (hpc : m.pc = whereToAddress cfg xlen) (accesses : List Access) (iterations : ℕ) :
    Advances (e.debugStep flags) 1 ⟨m, accesses, iterations⟩
      ⟨m.withPc (codeAddress cfg xlen 0), accesses, iterations⟩ := by
  have hplain : e.traps m
      (.jal 0 (romDistance 21 whereToAddr (DmTop.commandEntry e.inputs.cmd))) = false := by
    rw [Bool.eq_false_iff]
    intro htrap
    obtain ⟨position, hposition, hat⟩ := htraps _ _ htrap
    have hbound : accessPosition cfg name write < 9 := by
      unfold accessPosition
      cases name <;> simp only <;> (try split_ifs) <;> decide
    have hoffset := commandOffset_toNat (show position ≤ 18 by omega)
    have hwhere : whereToAddr.toNat = 0x300 := rfl
    have haddress := congrArg BitVec.toNat (hpc.symm.trans hat)
    rw [whereToAddress, codeAddress, dmBase_add_toNat hxlen haligned,
      dmBase_add_toNat hxlen haligned] at haddress
    omega
  have hjump := codeStep_whereTo hxlen haligned e hbusy haccess.cmdtype hpc
  rw [hplain, if_neg Bool.false_ne_true, commandEntry_of_transfer e haccess] at hjump
  have hout : inRom cfg m.pc = false :=
    hpc ▸ inRom_of_lt hxlen haligned (show whereToAddr.toNat < 0x800 by decide)
  exact Advances.single (e.debugStep_of_code flags (s := ⟨m, accesses, iterations⟩) hout hjump)

/-- From the halt address to WhereTo, with Go found in a round. -/
theorem advances_toWhereTo (hhart : hart < cfg.nrHarts) (hcount : cfg.nrHarts ≤ 1024)
    (hmhartid : m.csrs csrMhartid = BitVec.ofNat xlen hart) (hpc : m.pc = haltPc cfg xlen)
    {round : ℕ}
    (hnone : ∀ earlier < round, goSeen flags earlier = false ∧ resumeSeen flags earlier = false)
    (hgo : goSeen flags round = true) :
    ∃ count, Advances (e.debugStep flags) count (Session.enter m)
      (afterLoop m (whereToAddress cfg xlen) (leavingAccesses flags round hart) (round + 1)) := by
  obtain ⟨count, last, hadvances, hdone, -⟩ := advances_leaving hxlen haligned e flags hhart hcount
    hmhartid hpc hnone (Or.inl hgo)
  have hleaving : leaving m flags hart round = .whereTo (afterLoop m (whereToAddress cfg xlen)
      (leavingAccesses flags round hart) (round + 1)) := by
    rw [leaving, leavingAccesses, hgo, if_pos rfl, if_pos rfl]
  have hlast : last = afterLoop m (whereToAddress cfg xlen) (leavingAccesses flags round hart)
      (round + 1) := by
    rw [hleaving] at hdone
    unfold Environment.romStep at hdone
    split_ifs at hdone
    · exact RomExit.whereTo.inj (StepResult.done.inj hdone)
    · unfold Environment.romDispatch at hdone
      split at hdone
      · cases hdone
      · split at hdone <;> cases hdone
      · cases hdone
  have hrom : AtRomWord cfg m.pc :=
    ⟨0, by cases cfg.hasSndScratch <;> decide, hpc.trans (haltPc_eq hxlen)⟩
  refine ⟨count, ?_⟩
  rw [← hlast]
  exact advances_debugStep_of_rom hxlen haligned e flags hbusy haccess.cmdtype
    (s := Session.enter m) (Or.inl hrom) (e.advances_parkStep flags hadvances)

/-- From the first word of the generated code to the halt address, by the `ebreak` or by the
handler. -/
theorem advances_fromCode (hfits : name.fits xlen flen size)
    (hname : name ≠ .csr csrDscratch0 ∧ name ≠ .csr csrDscratch1)
    (htraps : TrapsAtAccess e name write) {start : Machine cfg xlen flen}
    (hstart : start.pc = codeAddress cfg xlen 0) (hsaved : Saved start) (accesses : List Access)
    (iterations : ℕ) :
    ∃ count final accesses', Advances (e.debugStep flags) count ⟨start, accesses, iterations⟩
        ⟨final, accesses', iterations⟩ ∧ final.pc = haltPc cfg xlen ∧
      (accesses' = accesses ∧ Transfers name size write start final ∨
        accesses' = accesses ++ [.store exceptionAddr 0] ∧ SameRegisters start final ∧
          ∃ trapped instruction, e.traps trapped instruction = true) := by
  rcases code_ends hxlen haligned e haccess hfits hname hstart with
    ⟨last, hrun⟩ | ⟨last, hrun, htransfers⟩
  · -- The handler brings the registers back.
    obtain ⟨count, reached, hadvances, hdone⟩ := exists_advances_of_run hrun
    obtain rfl := e.codeStep_done (Or.inr hdone)
    obtain ⟨instruction, htrap⟩ := exists_traps hdone
    obtain ⟨position, hposition, hat⟩ := htraps _ _ htrap
    have hrecoverable := recoverable_of_trapped hxlen haligned e hsaved hstart haccess hrun hat
      hposition
    obtain ⟨hcode, index, hindex, hend⟩ := advances_debugStep_of_code hxlen haligned e flags
      haccess.generates (Nat.zero_le 9) hstart hadvances accesses iterations
    have hhandler := advances_exception hxlen haligned e flags last accesses iterations
    have hentry : AtRomWord cfg (exceptionPc cfg xlen) :=
      ⟨4, by cases cfg.hasSndScratch <;> decide, exceptionPc_eq hxlen⟩
    have hout : inRom cfg last.pc = false :=
      hend ▸ inRom_codeAddress hxlen haligned (by omega)
    have hstep : e.debugStep flags ⟨last, accesses, iterations⟩ =
        .next ⟨last.withPc (exceptionPc cfg xlen), accesses, iterations⟩ := by
      rw [Environment.debugStep, hout, if_neg Bool.false_ne_true, hdone]
      rfl
    refine ⟨_, _, _, (hcode.trans (Advances.single hstep)).trans
      (advances_debugStep_of_rom hxlen haligned e flags hbusy haccess.cmdtype (Or.inl hentry)
        hhandler), rfl, Or.inr ⟨rfl, hrecoverable.same _, last, instruction, htrap⟩⟩
  · obtain ⟨count, reached, hadvances, hdone⟩ := exists_advances_of_run hrun
    obtain rfl := e.codeStep_done (Or.inl hdone)
    obtain ⟨hcode, index, hindex, hend⟩ := advances_debugStep_of_code hxlen haligned e flags
      haccess.generates (Nat.zero_le 9) hstart hadvances accesses iterations
    have hout : inRom cfg last.pc = false :=
      hend ▸ inRom_codeAddress hxlen haligned (by omega)
    have hstep : e.debugStep flags ⟨last, accesses, iterations⟩ =
        .next ⟨last.withPc (haltPc cfg xlen), accesses, iterations⟩ := by
      rw [Environment.debugStep, hout, if_neg Bool.false_ne_true, hdone]
      rfl
    exact ⟨_, _, _, hcode.trans (Advances.single hstep), rfl,
      Or.inl ⟨rfl, htransfers.of_same hname (SameRegisters.refl start)
        (SameRegisters.withPc last _)⟩⟩

/-- From the halt address once around, back to the halt address. -/
theorem advances_command (hhart : hart < cfg.nrHarts) (hcount : cfg.nrHarts ≤ 1024)
    (hmhartid : m.csrs csrMhartid = BitVec.ofNat xlen hart) (hpc : m.pc = haltPc cfg xlen)
    (hfits : name.fits xlen flen size)
    (hname : name ≠ .csr csrDscratch0 ∧ name ≠ .csr csrDscratch1)
    (htraps : TrapsAtAccess e name write) {round : ℕ}
    (hnone : ∀ earlier < round, goSeen flags earlier = false ∧ resumeSeen flags earlier = false)
    (hgo : goSeen flags round = true) :
    ∃ count final accesses, Advances (e.debugStep flags) count (Session.enter m)
        ⟨final, accesses, round + 1⟩ ∧ final.pc = haltPc cfg xlen ∧
      (accesses = leavingAccesses flags round hart ∧ Transfers name size write m final ∨
        accesses = leavingAccesses flags round hart ++ [.store exceptionAddr 0] ∧
          SameRegisters m final ∧ ∃ trapped instruction, e.traps trapped instruction = true) := by
  obtain ⟨before, hwhere⟩ := advances_toWhereTo hxlen haligned e flags hbusy haccess hhart hcount
    hmhartid hpc hnone hgo
  have hbefore := hwhere.trans (advances_fromWhereTo hxlen haligned e flags hbusy haccess htraps
    (m := (restored (saved m)).withPc (whereToAddress cfg xlen)) rfl _ _)
  rw [withPc_withPc] at hbefore
  have hsame := same_restored_saved m (codeAddress cfg xlen 0)
  have hsaved := saved_restored_saved m (codeAddress cfg xlen 0)
  have hstart : ((restored (saved m)).withPc (codeAddress cfg xlen 0)).pc =
      codeAddress cfg xlen 0 := rfl
  obtain ⟨count, final, accesses, hadvances, hend, hdone | hundone⟩ := advances_fromCode hxlen
    haligned e flags hbusy haccess hfits hname htraps hstart hsaved
    (leavingAccesses flags round hart) (round + 1)
  · exact ⟨_, final, accesses, hbefore.trans hadvances, hend,
      Or.inl ⟨hdone.1, hdone.2.of_same hname hsame (SameRegisters.refl final)⟩⟩
  · exact ⟨_, final, accesses, hbefore.trans hadvances, hend,
      Or.inr ⟨hundone.1, hsame.trans hundone.2.1, hundone.2.2⟩⟩

end Command

/-- What a hart that has performed a command has signalled, and what has become of its registers:
Going once, Halted once for each time it has entered the loop, and Exception once when an
instruction has trapped, in which case its registers and the data words are as they were. -/
structure Performed (e : Environment cfg xlen flen) (name : RegisterName) (size : BitVec 3)
    (write : Bool) (hart : ℕ) (m final : Machine cfg xlen flen) (last : Session cfg xlen flen) :
    Prop where
  going : last.storesTo goingAddr = [0]
  resuming : last.storesTo resumingAddr = []
  halted : last.storesTo haltedAddr = List.replicate last.iterations (BitVec.ofNat 32 hart)
  effect : (last.storesTo exceptionAddr = [] ∧ Transfers name size write m final) ∨
    (last.storesTo exceptionAddr = [0] ∧ SameRegisters m final ∧
      ∃ trapped instruction, e.traps trapped instruction = true)

/-- The signals of a hart that has taken Go, and signals Halted again after the accesses `more`. -/
theorem storesTo_performed {flags : ℕ → BitVec 8} {round hart : ℕ}
    (hgo : goSeen flags round = true) (s : Session cfg xlen flen) (more : List Access)
    (haccesses : s.accesses = leavingAccesses flags round hart ++ more ++
      [.store haltedAddr (BitVec.ofNat 32 hart)]) (offset : BitVec 12) :
    s.storesTo offset =
      (if haltedAddr = offset then List.replicate (round + 1) (BitVec.ofNat 32 hart) else []) ++
        (if goingAddr = offset then [0] else []) ++ more.filterMap (Access.storedAt offset) ++
          (if haltedAddr = offset then [BitVec.ofNat 32 hart] else []) := by
  have hrounds : (roundAccesses hart round ++ firstAccesses hart).filterMap
      (Access.storedAt offset) =
        if haltedAddr = offset then List.replicate (round + 1) (BitVec.ofNat 32 hart) else [] := by
    rw [List.filterMap_append]
    split_ifs with hoffset
    · rw [← hoffset, halted_roundAccesses, List.replicate_succ']
      rfl
    · rw [other_roundAccesses hoffset]
      simp [firstAccesses, Access.storedAt, hoffset]
  have hsingle (target : BitVec 12) (value : BitVec 32) :
      [Access.store target value].filterMap (Access.storedAt offset) =
        if target = offset then [value] else [] := by
    by_cases htarget : target = offset <;> simp [Access.storedAt, htarget]
  rw [Session.storesTo, haccesses, leavingAccesses, hgo, if_pos rfl, List.filterMap_append,
    List.filterMap_append, List.filterMap_append, hrounds, hsingle, hsingle]

/-- A hart that finds Go in the park loop performs the command and comes back: from the halt address
through WhereTo and the generated code it arrives at the loop again, where it signals Halted. Unless
an instruction has trapped, the command has had its effect and nothing else has changed but the
scratch registers. -/
theorem debugMode_performs (hxlen : xlen = 32 ∨ xlen = 64)
    (haligned : cfg.dmBaseAddress.toNat % 4096 = 0) (e : Environment cfg xlen flen)
    (flags : ℕ → BitVec 8) {m : Machine cfg xlen flen} {hart : ℕ} (hhart : hart < cfg.nrHarts)
    (hcount : cfg.nrHarts ≤ 1024) (hmhartid : m.csrs csrMhartid = BitVec.ofNat xlen hart)
    (hpc : m.pc = haltPc cfg xlen) (hbusy : e.memory.state ≠ .idle) {name : RegisterName}
    {size : BitVec 3} {write : Bool}
    (haccess : AccessesRegister cfg e.inputs.cmd name size write) (hfits : name.fits xlen flen size)
    (hname : name ≠ .csr csrDscratch0 ∧ name ≠ .csr csrDscratch1)
    (hreadonly : write = true → name ≠ .csr csrMhartid) (htraps : TrapsAtAccess e name write)
    {round : ℕ}
    (hnone : ∀ earlier < round, goSeen flags earlier = false ∧ resumeSeen flags earlier = false)
    (hgo : goSeen flags round = true) :
    ∃ count final accesses, Advances (e.debugStep flags) count (Session.enter m)
        (inLoop final (Label.entryLoop.index cfg.hasSndScratch + 2) (BitVec.ofNat xlen hart)
          accesses (round + 2)) ∧
      Performed e name size write hart m final
        (inLoop final (Label.entryLoop.index cfg.hasSndScratch + 2) (BitVec.ofNat xlen hart)
          accesses (round + 2)) := by
  obtain ⟨count, final, accesses, hadvances, hend, heffect⟩ := advances_command hxlen haligned e
    flags hbusy haccess hhart hcount hmhartid hpc hfits hname htraps hnone hgo
  have hindex : final.csrs csrMhartid = BitVec.ofNat xlen hart := by
    rw [← hmhartid]
    rcases heffect with ⟨-, htransfers⟩ | ⟨-, hsame, -⟩
    · exact htransfers.csrs_of_ne hreadonly (by decide) (by decide)
    · exact hsame.csrs csrMhartid (by decide) (by decide)
  obtain ⟨further, hparked⟩ := advances_parked hxlen haligned e flags hindex hend accesses
    (round + 1)
  have hrom : AtRomWord cfg final.pc :=
    ⟨0, by cases cfg.hasSndScratch <;> decide, hend.trans (haltPc_eq hxlen)⟩
  have hwhole := hadvances.trans (advances_debugStep_of_rom hxlen haligned e flags hbusy
    haccess.cmdtype (s := ⟨final, accesses, round + 1⟩) (Or.inl hrom) hparked)
  have hgoing : ¬ goingAddr = haltedAddr := by decide
  have hexception : ¬ exceptionAddr = haltedAddr := by decide
  refine ⟨_, final, _, hwhole, ?_⟩
  rcases heffect with ⟨haccesses, htransfers⟩ | ⟨haccesses, hsame, htrapped⟩
  · have hstores := storesTo_performed hgo (inLoop final
      (Label.entryLoop.index cfg.hasSndScratch + 2) (BitVec.ofNat xlen hart)
      (accesses ++ [.store haltedAddr (BitVec.ofNat 32 hart)]) (round + 2)) []
      (by rw [haccesses, List.append_nil]; rfl)
    refine ⟨(hstores _).trans rfl, (hstores _).trans rfl, (hstores _).trans ?_,
      Or.inl ⟨(hstores _).trans rfl, htransfers⟩⟩
    simp [inLoop, hgoing, List.replicate_succ']
  · have hstores := storesTo_performed hgo (inLoop final
      (Label.entryLoop.index cfg.hasSndScratch + 2) (BitVec.ofNat xlen hart)
      (accesses ++ [.store haltedAddr (BitVec.ofNat 32 hart)]) (round + 2))
      [.store exceptionAddr 0] (by rw [haccesses]; rfl)
    refine ⟨(hstores _).trans rfl, (hstores _).trans rfl, (hstores _).trans ?_,
      Or.inr ⟨(hstores _).trans rfl, hsame, htrapped⟩⟩
    simp [inLoop, hgoing, Access.storedAt, hexception, List.replicate_succ']

/-- The hart executes a write of a0 with 64 bits, and the hart control waits for it. -/
def performsA0 : Environment farModule 64 64 :=
  { writesA0 with memory := { DmMem.Regs.reset farModule with state := .cmdExecuting } }

/-- The hart with index zero at the halt address, with a value in the data registers. -/
def loadedHart : Machine farModule 64 64 :=
  { firstHart with data := beforeA0.data }

/-- After two rounds of the loop the value is in a0. -/
theorem loadedHart_performs : ∃ count final accesses,
    Advances (performsA0.debugStep thirdPollGo) count (Session.enter loadedHart)
      (inLoop final (Label.entryLoop.index true + 2) 0 accesses 3) ∧
      final.gprs.read 10 = 0x0123456789abcdef ∧
        final.gprs.read 8 = loadedHart.gprs.read 8 := by
  obtain ⟨count, final, accesses, hadvances, hperformed⟩ := debugMode_performs (Or.inr rfl)
    (by decide) performsA0 thirdPollGo (m := loadedHart) (show 0 < farModule.nrHarts by decide)
    (by decide) rfl rfl (by decide)
    (show AccessesRegister farModule performsA0.inputs.cmd (.gpr 10) 3 true from
      ⟨by decide, by decide, by decide, by decide, by decide, by decide, by decide⟩)
    (Or.inr ⟨rfl, rfl⟩) (by decide) (by decide)
    (fun _ _ htraps ↦ absurd htraps Bool.false_ne_true)
    (show ∀ earlier < 1, goSeen thirdPollGo earlier = false ∧
      resumeSeen thirdPollGo earlier = false by decide) (by decide)
  refine ⟨count, final, accesses, hadvances, ?_⟩
  rcases hperformed.effect with ⟨-, htransfers⟩ | ⟨-, -, trapped, instruction, htraps⟩
  · have hwritten : Written (.gpr 10) 3 loadedHart final := htransfers
    exact ⟨(hwritten.gprs 10).trans (by decide), (hwritten.gprs 8).trans (by decide)⟩
  · exact absurd htraps Bool.false_ne_true

end RiscvDebug.Hart
