import RiscvDebug.Package

/-!
# System bus access

The module `dm_sba`: a five-state bus master. `signals` gathers what the process `p_fsm` and the
continuous assignments drive from the state, the bus and the registers of `dm_csrs`; the next
state also reads the strobes of `dm_csrs`.
-/

set_option autoImplicit false
set_option relaxedAutoImplicit false

namespace RiscvDebug.DmSba

open Foundations

/-- The states `sba_state_e`. -/
inductive State
  | idle
  | read
  | write
  | waitRead
  | waitWrite
deriving DecidableEq, Repr

/-- What the bus answers in one cycle. -/
structure MasterResponse (cfg : Config) where
  gnt : Bool
  rValid : Bool
  rErr : Bool
  rOtherErr : Bool
  rRdata : BitVec cfg.busWidth
deriving DecidableEq

/-- The inputs of `dm_sba` that come from the registers of `dm_csrs`, with the bus. -/
structure Inputs (cfg : Config) where
  sbaddress : BitVec cfg.busWidth
  sbreadonaddr : Bool
  sbautoincrement : Bool
  sbaccess : BitVec 3
  sbreadondata : Bool
  sbdata : BitVec cfg.busWidth
  master : MasterResponse cfg

/-- The strobes `dm_csrs` derives from the DMI access of the same cycle. -/
structure Strobes where
  sbaddressWriteValid : Bool
  sbdataReadValid : Bool
  sbdataWriteValid : Bool

/-- The request the bus master drives. -/
structure MasterRequest (cfg : Config) where
  req : Bool
  add : BitVec cfg.busWidth
  we : Bool
  wdata : BitVec cfg.busWidth
  be : BitVec (cfg.busWidth / 8)
deriving DecidableEq

/-- The outputs of `dm_sba`. -/
structure Signals (cfg : Config) where
  master : MasterRequest cfg
  sbaddress : BitVec cfg.busWidth
  sbdata : BitVec cfg.busWidth
  sbdataValid : Bool
  sbbusy : Bool
  sberrorValid : Bool
  sberror : BitVec 3

variable {cfg : Config}

/-! ### Lanes -/

/-- `be_idx`, the byte lane of the address. -/
def beIdx (i : Inputs cfg) : ℕ := i.sbaddress.toNat % 2 ^ cfg.beIdxWidth

/-- `be_mask`, the lanes of an access of the selected size. -/
def beMask (i : Inputs cfg) : BitVec (cfg.busWidth / 8) :=
  if i.sbaccess = 0 then 1 <<< beIdx i
  else if i.sbaccess = 1 then 0b11 <<< (beIdx i / 2 * 2)
  else if i.sbaccess = 2 then
    if cfg.busWidth = 64 then 0b1111 <<< (beIdx i / 4 * 4) else BitVec.allOnes _
  else if i.sbaccess = 3 then BitVec.allOnes _
  else 0

/-- `sbaccess_mask`. -/
def sbaccessMask (i : Inputs cfg) : BitVec cfg.busWidth :=
  BitVec.allOnes cfg.busWidth <<< i.sbaccess.toNat

/-- `be_idx_masked`, the lowest lane of the access. -/
def beIdxMasked (i : Inputs cfg) : ℕ :=
  beIdx i &&& ((sbaccessMask i).toNat % 2 ^ cfg.beIdxWidth)

/-! ### The state machine -/

/-- The selected size is wider than the bus. -/
def sizeError (i : Inputs cfg) : Bool := decide (i.sbaccess.toNat > cfg.beIdxWidth)

/-- The address is not a multiple of the selected size. -/
def alignError (i : Inputs cfg) : Bool := i.sbaddress &&& ~~~ sbaccessMask i != 0

/-- An access waits for its response and gets it. -/
def completes (state : State) (i : Inputs cfg) : Bool :=
  (state == .waitRead || state == .waitWrite) && i.master.rValid

/-- The next state in Idle: a read on an address write, a write on a data write, a read on a data
read, the last assignment winning. -/
def idleNext (i : Inputs cfg) (t : Strobes) : State :=
  if t.sbdataReadValid && i.sbreadondata then .read
  else if t.sbdataWriteValid then .write
  else if t.sbaddressWriteValid && i.sbreadonaddr then .read
  else .idle

/-- The next state. An access of a bad size or alignment is dropped. -/
def nextState (state : State) (i : Inputs cfg) (t : Strobes) : State :=
  if (sizeError i || alignError i) && state != .idle then .idle
  else
    match state with
    | .idle => idleNext i t
    | .read => if i.master.gnt then .waitRead else .read
    | .write => if i.master.gnt then .waitWrite else .write
    | .waitRead => if i.master.rValid then .idle else .waitRead
    | .waitWrite => if i.master.rValid then .idle else .waitWrite

/-- The bus master stays idle when no strobe asks for an access. -/
theorem idleNext_eq_idle_iff (i : Inputs cfg) (t : Strobes) :
    idleNext i t = .idle ↔ (t.sbdataReadValid && i.sbreadondata) = false ∧
      t.sbdataWriteValid = false ∧ (t.sbaddressWriteValid && i.sbreadonaddr) = false := by
  unfold idleNext
  split_ifs with hread hwrite haddress
  · simp [hread]
  · simp [hwrite]
  · simp [haddress]
  · rw [Bool.not_eq_true] at hread hwrite haddress
    simp [hread, hwrite, haddress]

/-- The strobes matter in Idle only. -/
theorem nextState_of_ne_idle {state : State} (hstate : state ≠ .idle) (i : Inputs cfg)
    (t t' : Strobes) : nextState state i t = nextState state i t' := by
  unfold nextState
  cases state with
  | idle => exact absurd rfl hstate
  | read => rfl
  | write => rfl
  | waitRead => rfl
  | waitWrite => rfl

/-- The outputs. -/
def signals (state : State) (i : Inputs cfg) : Signals cfg where
  master :=
    { req := (state == .read || state == .write) && !sizeError i && !alignError i
      add := i.sbaddress
      we := state == .write
      wdata := i.sbdata <<< (8 * beIdxMasked i)
      be :=
        match state with
        | .read => if cfg.readByteEnable then beMask i else 0
        | .write => beMask i
        | _ => 0 }
  sbaddress :=
    i.sbaddress + (if completes state i && i.sbautoincrement then 1 <<< i.sbaccess.toNat else 0)
  sbdata := i.master.rRdata >>> (8 * beIdxMasked i)
  sbdataValid := i.master.rValid
  sbbusy := state != .idle
  sberrorValid :=
    ((sizeError i || alignError i) && state != .idle) ||
      (completes state i && (i.master.rOtherErr || i.master.rErr))
  sberror :=
    if alignError i && state != .idle then 3
    else if sizeError i && state != .idle then 4
    else if completes state i then
      if i.master.rOtherErr then 7 else if i.master.rErr then 2 else 0
    else 0

end RiscvDebug.DmSba
