import RiscvDebug.DebugModule.BusWidths
import RiscvDebug.RunControl.StatusHistory

/-!
# The debug module on an OBI bus

The module `dm_obi_top` puts `dm_top` on an OBI bus: it grants every request of the harts at once,
answers it in the next cycle, and mirrors the identifier of the request. It also feeds the reset
request of the debug module back as the end of the reset. Every run of the wrapper is a run of
`dm_top` (`run_top`), and `obi_conforms` says what a manager on the bus gets: one response for each
request, in order, with its identifier and with the row of the debug memory that it reads; the reset
of a hart is reported from the start or the reset request on until an acknowledgement finds the hart
selected.
-/

set_option autoImplicit false
set_option relaxedAutoImplicit false

namespace RiscvDebug

open Foundations

/-- The parameters that `dm_obi_top` passes on: the address of the next debug module is zero, and
the byte enables of reads are left at their default. -/
abbrev Config.wrapped (cfg : Config) : Config :=
  { cfg with nextDmAddr := 0, readByteEnable := true }

namespace DmObiTop

/-! ### The module -/

/-- The registers of `dm_obi_top`. -/
structure Regs (cfg : Config) (idWidth : ℕ) where
  top : DmTop.Regs cfg.wrapped
  slaveRvalid : Bool
  slaveRid : BitVec idWidth
deriving DecidableEq

/-- The inputs of `dm_obi_top` in one cycle. -/
structure Inputs (cfg : Config) (idWidth : ℕ) where
  unavailable : BitVec cfg.nrHarts
  slave : DmMem.SlaveAccess cfg.wrapped
  slaveAid : BitVec idWidth
  master : DmSba.MasterResponse cfg.wrapped
  dmiRstN : Bool
  dmiReqValid : Bool
  dmiReq : DmiReq
  dmiRespReady : Bool

variable {cfg : Config} {idWidth : ℕ}

/-- The registers after the asynchronous reset. -/
def Regs.reset (cfg : Config) (idWidth : ℕ) : Regs cfg idWidth where
  top := DmTop.Regs.reset cfg.wrapped
  slaveRvalid := false
  slaveRid := 0

/-- `ndmreset_o`. -/
def Regs.ndmreset (r : Regs cfg idWidth) : Bool := r.top.csrs.dmcontrol.ndmreset

/-- `slave_gnt_o`. -/
def Regs.slaveGnt (_r : Regs cfg idWidth) : Bool := true

/-- `slave_rdata_o`. -/
def Regs.slaveRdata (r : Regs cfg idWidth) : BitVec cfg.busWidth := r.top.mem.rdataOut

/-- The inputs of `dm_top`. -/
def topInputs (r : Regs cfg idWidth) (i : Inputs cfg idWidth) : DmTop.Inputs cfg.wrapped where
  dmiRstN := i.dmiRstN
  dmiReqValid := i.dmiReqValid
  dmiReq := i.dmiReq
  dmiRespReady := i.dmiRespReady
  ndmresetAck := r.ndmreset
  unavailable := i.unavailable
  slave := i.slave
  master := i.master

/-- The registers of the next cycle. The identifier is kept when nothing is granted. -/
def next (r : Regs cfg idWidth) (i : Inputs cfg idWidth) : Regs cfg idWidth where
  top := DmTop.next r.top (topInputs r i)
  slaveRvalid := i.slave.req && r.slaveGnt
  slaveRid := if i.slave.req && r.slaveGnt then i.slaveAid else r.slaveRid

/-- The wrapper as a clocked machine. -/
def machine (cfg : Config) (idWidth : ℕ) :
    ClockedMachine (Regs cfg idWidth) (Inputs cfg idWidth) where
  reset := Regs.reset cfg idWidth
  step := next

/-! ### Runs -/

section Runs

variable (inputs : ℕ → Inputs cfg idWidth)

/-- The registers at the start of every cycle of a run. -/
def run (time : ℕ) : Regs cfg idWidth := (machine cfg idWidth).states inputs time

theorem run_succ (time : ℕ) : run inputs (time + 1) = next (run inputs time) (inputs time) :=
  ClockedMachine.states_succ _ inputs time

/-- What `dm_top` receives in the cycles of the run. -/
def fedInputs (time : ℕ) : DmTop.Inputs cfg.wrapped := topInputs (run inputs time) (inputs time)

/-- The debug module in the wrapper makes a run of `dm_top`. -/
theorem run_top (time : ℕ) : (run inputs time).top = DmTop.run (fedInputs inputs) time := by
  induction time with
  | zero => rfl
  | succ time ih =>
    rw [run_succ, DmTop.run_succ, ← ih]
    rfl

/-- The identifier of the request that is granted in a cycle. -/
def requests (time : ℕ) : List (BitVec idWidth) :=
  if (inputs time).slave.req && (run inputs time).slaveGnt then [(inputs time).slaveAid] else []

/-- The identifier of the response in a cycle. -/
def responses (time : ℕ) : List (BitVec idWidth) :=
  if (run inputs time).slaveRvalid then [(run inputs time).slaveRid] else []

/-- The response to the requests of a cycle comes in the next one. -/
theorem responses_succ (time : ℕ) : responses inputs (time + 1) = requests inputs time := by
  unfold responses requests
  rw [run_succ]
  show (if (inputs time).slave.req && (run inputs time).slaveGnt then
    [if (inputs time).slave.req && (run inputs time).slaveGnt then (inputs time).slaveAid
      else (run inputs time).slaveRid] else []) = _
  split_ifs <;> rfl

theorem conserves_responses : Conserves (requests inputs) (responses inputs) (responses inputs) :=
  fun time ↦ by rw [responses_succ]

/-- What a manager on the bus gets. -/
structure Conforms : Prop where
  inOrder : ∀ time, history (requests inputs) time = history (responses inputs) (time + 1)
  rdata : ∀ time address, (inputs time).slave.readsByte address = true →
    ∀ range : DmMem.ReadRange, range.Contains cfg.wrapped (inputs time).slave.offset →
      byteAt (run inputs (time + 1)).slaveRdata (address % DmMem.busBytes cfg) =
        byteAt (range.row (run inputs time).top.mem.state
          (DmTop.memInputs (run inputs time).top (fedInputs inputs time) false) (address / 8))
          (address % 8)
  havereset : ∀ time hart, cfg.selectableHarts.getLsbD hart = true →
    (DmTop.haveReset (run inputs time).top hart = true ↔
      SetSince True (fun time ↦ (run inputs time).ndmreset = true)
        (fun time ↦ DmTop.acksResetOf (run inputs time).top (fedInputs inputs time) hart) time)

/-- Whatever the manager and the host do, the wrapper answers each request once and in order, a read
shows the row of the debug memory at its address, and the reset of a hart that can be selected is
reported from the start or the reset request on until an acknowledgement finds the hart selected. -/
theorem obi_conforms : Conforms inputs where
  inOrder time := by
    have hempty : responses inputs 0 = [] := rfl
    rw [history_eq hempty (conserves_responses inputs) time, history_succ]
  rdata time address hreads range hrange := by
    have hmem : (run inputs (time + 1)).top.mem = DmMem.next (run inputs time).top.mem
        (DmTop.memInputs (run inputs time).top (fedInputs inputs time)
          (DmTop.csrSignals (run inputs time).top (fedInputs inputs time)).clearResumeack) := by
      rw [run_succ]
      rfl
    have hrow : (inputs time).slave.offset.toNat / 8 = address / 8 := by
      have hword := eq_of_beq (Bool.and_eq_true_iff.mp hreads).2
      rcases DmMem.busBytes_eq cfg.wrapped with hbytes | hbytes
      · rw [hbytes] at hword
        omega
      · rwa [hbytes] at hword
    have hbyte := DmMem.readByte_next (r := (run inputs time).top.mem)
      (i := DmTop.memInputs (run inputs time).top (fedInputs inputs time)
        (DmTop.csrSignals (run inputs time).top (fedInputs inputs time)).clearResumeack) hreads
    rw [DmMem.wordMux_next_range (Bool.and_eq_true_iff.mp hreads).1 range hrange, ← hmem] at hbyte
    refine hbyte.trans ?_
    show byteAt (range.row _ _ ((inputs time).slave.offset.toNat / 8)) _ = _
    rw [hrow]
    cases range <;> rfl
  havereset time hart hselectable := by
    have hsince := DmTop.haveReset_iff (fedInputs inputs) hselectable time
    unfold DmTop.ResetSince at hsince
    simp only [← run_top] at hsince
    exact hsince

end Runs

end DmObiTop

end RiscvDebug
