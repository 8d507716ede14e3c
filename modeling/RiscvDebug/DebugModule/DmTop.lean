import RiscvDebug.DebugModule.DmCsrs
import RiscvDebug.DebugModule.DmMem
import RiscvDebug.DebugModule.DmSba
import RiscvDebug.Foundations.ClockedMachine

/-!
# The debug module

The module `dm_top`: `dm_csrs`, `dm_mem` and `dm_sba` wired together. `dm_mem` and `dm_sba` drive
`dm_csrs` from their registers and the buses; `dm_csrs` drives their strobes in the same cycle.
`machine` is the clocked machine of the whole module, `run` its run under a stream of inputs, and
`script` the stream of a finite list of cycles.
-/

set_option autoImplicit false
set_option relaxedAutoImplicit false

namespace RiscvDebug.DmTop

open Foundations

/-- The registers of the debug module. -/
structure Regs (cfg : Config) where
  csrs : DmCsrs.Regs cfg
  mem : DmMem.Regs cfg
  sba : DmSba.State
deriving DecidableEq

/-- The inputs of `dm_top` in one cycle. -/
structure Inputs (cfg : Config) where
  dmiRstN : Bool
  dmiReqValid : Bool
  dmiReq : DmiReq
  dmiRespReady : Bool
  ndmresetAck : Bool
  unavailable : BitVec cfg.nrHarts
  slave : DmMem.SlaveAccess cfg
  master : DmSba.MasterResponse cfg
deriving DecidableEq

/-- The registers after the asynchronous reset. -/
def Regs.reset (cfg : Config) : Regs cfg where
  csrs := DmCsrs.Regs.reset cfg
  mem := DmMem.Regs.reset cfg
  sba := .idle

variable {cfg : Config}

/-! ### Wiring -/

/-- The inputs of `dm_mem`, for a given clear request. -/
def memInputs (s : Regs cfg) (i : Inputs cfg) (clearResumeack : Bool) : DmMem.Inputs cfg where
  ndmreset := s.csrs.dmcontrol.ndmreset
  hartsel := s.csrs.dmcontrol.hartsel
  haltreq := s.csrs.haltreq
  resumereq := s.csrs.resumereq
  clearResumeack := clearResumeack
  progbuf := s.csrs.progbuf
  data := s.csrs.data
  cmdValid := s.csrs.cmdValid
  cmd := s.csrs.command
  slave := i.slave

/-- The inputs of `dm_sba` apart from the strobes. -/
def sbaInputs (s : Regs cfg) (i : Inputs cfg) : DmSba.Inputs cfg where
  sbaddress := s.csrs.sbaddr.setWidth cfg.busWidth
  sbreadonaddr := s.csrs.sbcs.sbreadonaddr
  sbautoincrement := s.csrs.sbcs.sbautoincrement
  sbaccess := s.csrs.sbcs.sbaccess
  sbreadondata := s.csrs.sbcs.sbreadondata
  sbdata := s.csrs.sbdata.setWidth cfg.busWidth
  master := i.master

/-- The signals of the hart control. They do not depend on the clear request. -/
def ctrl (s : Regs cfg) (i : Inputs cfg) : DmMem.CtrlSignals :=
  DmMem.hartCtrlQueue s.mem (memInputs s i false)

/-- The outputs of `dm_sba`. -/
def sbaSignals (s : Regs cfg) (i : Inputs cfg) : DmSba.Signals cfg :=
  DmSba.signals s.sba (sbaInputs s i)

/-- The inputs of `dm_csrs`. -/
def csrInputs (s : Regs cfg) (i : Inputs cfg) : DmCsrs.Inputs cfg where
  dmiRstN := i.dmiRstN
  dmiReqValid := i.dmiReqValid
  dmiReq := i.dmiReq
  dmiRespReady := i.dmiRespReady
  ndmresetAck := i.ndmresetAck
  halted := s.mem.halted
  unavailable := i.unavailable
  resumeack := s.mem.resuming
  cmderrorValid := (ctrl s i).cmderrorValid
  cmderror := (ctrl s i).cmderror
  cmdbusy := (ctrl s i).cmdbusy
  data := DmMem.dataOut (memInputs s i false)
  dataValid := DmMem.dataValid (memInputs s i false)
  sbaddress := (sbaSignals s i).sbaddress
  sbdata := (sbaSignals s i).sbdata
  sbdataValid := (sbaSignals s i).sbdataValid
  sbbusy := (sbaSignals s i).sbbusy
  sberrorValid := (sbaSignals s i).sberrorValid
  sberror := (sbaSignals s i).sberror

/-- The signals of `dm_csrs`. -/
def csrSignals (s : Regs cfg) (i : Inputs cfg) : DmCsrs.Signals cfg :=
  DmCsrs.csrReadWrite s.csrs (csrInputs s i)

/-- The strobes to `dm_sba`. -/
def strobes (s : Regs cfg) (i : Inputs cfg) : DmSba.Strobes where
  sbaddressWriteValid := (csrSignals s i).sbaddressWriteValid
  sbdataReadValid := (csrSignals s i).sbdataReadValid
  sbdataWriteValid := (csrSignals s i).sbdataWriteValid

/-- The registers of the next cycle. -/
def next (s : Regs cfg) (i : Inputs cfg) : Regs cfg where
  csrs := DmCsrs.next s.csrs (csrInputs s i)
  mem := DmMem.next s.mem (memInputs s i (csrSignals s i).clearResumeack)
  sba := DmSba.nextState s.sba (sbaInputs s i) (strobes s i)

/-- The debug module as a clocked machine. -/
def machine (cfg : Config) : ClockedMachine (Regs cfg) (Inputs cfg) where
  reset := Regs.reset cfg
  step := next

/-! ### Runs -/

/-- The registers at the start of every cycle of the run driven by a stream of inputs. -/
def run (inputs : ℕ → Inputs cfg) (time : ℕ) : Regs cfg := (machine cfg).states inputs time

theorem run_succ (inputs : ℕ → Inputs cfg) (time : ℕ) :
    run inputs (time + 1) = next (run inputs time) (inputs time) :=
  ClockedMachine.states_succ _ inputs time

/-- A cycle without a DMI request and without a bus access, in which responses are taken. -/
def Inputs.quiet (cfg : Config) : Inputs cfg where
  dmiRstN := true
  dmiReqValid := false
  dmiReq := ⟨0, dtmNop, 0⟩
  dmiRespReady := true
  ndmresetAck := false
  unavailable := 0
  slave := ⟨false, false, 0, 0, 0⟩
  master := ⟨false, false, false, false, 0⟩

/-- The cycle with a DMI request. -/
def Inputs.withRequest (i : Inputs cfg) (request : DmiReq) : Inputs cfg :=
  { i with dmiReqValid := true, dmiReq := request }

/-- The cycle with a write of a hart's index to a control address. -/
def Inputs.withHartWrite (i : Inputs cfg) (address : BitVec 12) (hart : ℕ) : Inputs cfg :=
  { i with
    slave :=
      { req := true
        we := true
        addr := address.setWidth cfg.busWidth
        be := BitVec.allOnes _
        wdata := BitVec.ofNat cfg.busWidth hart } }

/-- The cycle with a read of a hart. -/
def Inputs.withHartRead (i : Inputs cfg) (address : BitVec 12) : Inputs cfg :=
  { i with
    slave :=
      { req := true
        we := false
        addr := address.setWidth cfg.busWidth
        be := 0
        wdata := 0 } }

/-- The stream of inputs that starts with the listed cycles and stays quiet after them. -/
def script (cycles : List (Inputs cfg)) (time : ℕ) : Inputs cfg :=
  cycles.getD time (Inputs.quiet cfg)

/-- A run whose inputs stay quiet from some cycle on is constant once a quiet cycle changes
nothing. -/
theorem run_script_of_le {cycles : List (Inputs cfg)} {settled : ℕ}
    (hlength : cycles.length ≤ settled)
    (hsettled : run (script cycles) (settled + 1) = run (script cycles) settled) {time : ℕ}
    (htime : settled ≤ time) : run (script cycles) time = run (script cycles) settled := by
  induction time, htime using Nat.le_induction with
  | base => rfl
  | succ time htime ih =>
    have hinputs : script cycles time = script cycles settled := by
      unfold script
      rw [List.getD_eq_default _ _ (by omega), List.getD_eq_default _ _ hlength]
    rw [run_succ, ih, hinputs, ← run_succ, hsettled]

/-- Each cycle of such a run repeats one of the cycles before the run has settled. -/
theorem exists_early {cycles : List (Inputs cfg)} {settled : ℕ}
    (hlength : cycles.length ≤ settled)
    (hsettled : run (script cycles) (settled + 1) = run (script cycles) settled) (time : ℕ) :
    ∃ early ≤ settled, run (script cycles) time = run (script cycles) early ∧
      run (script cycles) (time + 1) = run (script cycles) (early + 1) ∧
      script cycles time = script cycles early := by
  by_cases hearly : time ≤ settled
  · exact ⟨time, hearly, rfl, rfl, rfl⟩
  · have hlate : settled ≤ time := (not_le.mp hearly).le
    refine ⟨settled, le_rfl, run_script_of_le hlength hsettled hlate, ?_, ?_⟩
    · rw [hsettled]
      exact run_script_of_le hlength hsettled (hlate.trans (Nat.le_succ time))
    · unfold script
      rw [List.getD_eq_default _ _ (hlength.trans hlate), List.getD_eq_default _ _ hlength]

/-- What the first cycles of such a run satisfy, every cycle satisfies. -/
theorem forall_of_early {cycles : List (Inputs cfg)} {settled : ℕ}
    (property : Regs cfg → Inputs cfg → Regs cfg → Prop) (hlength : cycles.length ≤ settled)
    (hsettled : run (script cycles) (settled + 1) = run (script cycles) settled)
    (hearly : ∀ early ≤ settled, property (run (script cycles) early) (script cycles early)
      (run (script cycles) (early + 1))) (time : ℕ) :
    property (run (script cycles) time) (script cycles time) (run (script cycles) (time + 1)) := by
  obtain ⟨early, hle, hrun, hnext, hinputs⟩ := exists_early hlength hsettled time
  rw [hrun, hnext, hinputs]
  exact hearly early hle

/-- A few harts on a 32-bit bus, with the debug module at the zero page. -/
def zeroPage (nrHarts : ℕ) (hpos : 0 < nrHarts) (hle : nrHarts ≤ 2 ^ 20) : Config where
  nrHarts := nrHarts
  busWidth := 32
  dmBaseAddress := 0
  selectableHarts := BitVec.allOnes nrHarts
  readByteEnable := true
  maxRegisterAccessWidth := 32
  dataCount := 2
  nextDmAddr := 0
  hartinfo := fun _ ↦ 0
  nrHarts_pos := hpos
  nrHarts_le := hle
  busWidth_eq := Config.width_32
  maxRegisterAccessWidth_eq := Config.width_32
  two_le_dataCount := le_rfl
  dataCount_le := by decide

/-- The configuration with a single hart. -/
def oneHart : Config := zeroPage 1 (by decide) (by decide)

/-- One hart on a 64-bit bus. -/
def oneHartWide : Config := { oneHart with busWidth := 64, busWidth_eq := Config.width_64 }

/-- The configuration with two harts. -/
def twoHarts : Config := zeroPage 2 (by decide) (by decide)

end RiscvDebug.DmTop
