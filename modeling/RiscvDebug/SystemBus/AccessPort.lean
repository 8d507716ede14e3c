import RiscvDebug.Foundations.ByteMemory
import RiscvDebug.Package

/-!
# The port of the system bus

What the bus registers are for, as a host sees them that waits for each access to end: a port with
an address and a data register on a memory. An access of the registers is followed by the transfer
that it triggers, as one step. `stores_block` and `loads_block` are the two ways to move a block.
-/

set_option autoImplicit false
set_option relaxedAutoImplicit false

namespace RiscvDebug.AccessPort

open Foundations

variable {cfg : Config}

/-! ### Accesses and transfers -/

/-- The accesses of the bus registers that change something or start a transfer. -/
inductive Access
  | writeControl (value : BitVec 32)
  | writeAddress0 (value : BitVec 32)
  | writeAddress1 (value : BitVec 32)
  | writeData0 (value : BitVec 32)
  | writeData1 (value : BitVec 32)
  | readData0
  | readData1
deriving DecidableEq, Repr

/-- The directions of a transfer between the data register and the memory. -/
inductive Transfer
  | load
  | store
deriving DecidableEq, Repr

/-- The fields of `sbcs` that say what an access does. -/
structure Control where
  access : BitVec 3
  autoincrement : Bool
  readonaddr : Bool
  readondata : Bool
deriving DecidableEq, Repr

/-- The size of an element in bytes. -/
def Control.count (control : Control) : ℕ := 2 ^ control.access.toNat

/-- An element takes both words of the data register. -/
def Control.wide (control : Control) : Bool := control.access == 3

/-- The transfer that an access triggers. -/
def Access.trigger (control : Control) : Access → Option Transfer
  | .writeAddress0 _ => if control.readonaddr then some .load else none
  | .writeData0 _ => some .store
  | .readData0 => if control.readondata then some .load else none
  | _ => none

/-- The address with one half replaced. -/
def Access.setAddress (address : BitVec cfg.busWidth) : Access → BitVec cfg.busWidth
  | .writeAddress0 value => ((address.setWidth 64).extractLsb' 32 32 ++ value).setWidth cfg.busWidth
  | .writeAddress1 value => (value ++ (address.setWidth 64).extractLsb' 0 32).setWidth cfg.busWidth
  | _ => address

/-- The data with one half replaced. -/
def Access.setData (data : BitVec 64) : Access → BitVec 64
  | .writeData0 value => data.extractLsb' 32 32 ++ value
  | .writeData1 value => value ++ data.extractLsb' 0 32
  | _ => data

/-- What a read of the registers is answered. -/
def Access.responses (data : BitVec 64) : Access → List DmiResp
  | .readData0 => [⟨data.extractLsb' 0 32, dtmSuccess⟩]
  | .readData1 => [⟨data.extractLsb' 32 32, dtmSuccess⟩]
  | _ => []

/-- The address after a transfer. -/
def Control.advance (control : Control) (address : BitVec cfg.busWidth) : BitVec cfg.busWidth :=
  if control.autoincrement then address + BitVec.ofNat cfg.busWidth control.count else address

/-! ### The port -/

/-- The memory with the registers of the port. -/
structure Port (cfg : Config) where
  memory : ByteMemory cfg.busWidth
  address : BitVec cfg.busWidth
  data : BitVec 64

/-- The registers after an access. -/
def Port.apply (port : Port cfg) (access : Access) : Port cfg where
  memory := port.memory
  address := access.setAddress port.address
  data := access.setData port.data

/-- The memory after a transfer. -/
def Port.memoryAfter (control : Control) (port : Port cfg) : Transfer → ByteMemory cfg.busWidth
  | .load => port.memory
  | .store => storeBytes port.memory port.address control.count port.data

/-- A transfer ends. It leaves any data in the register that it does not load. -/
structure Completes (control : Control) (transfer : Transfer) (port port' : Port cfg) : Prop where
  memory : port'.memory = port.memoryAfter control transfer
  address : port'.address = control.advance port.address
  loads : transfer = .load → ∀ lane < control.count,
    byteAt port'.data lane = port.memory (port.address + BitVec.ofNat cfg.busWidth lane)

/-- An access with the transfer that it triggers. -/
def Performs (control : Control) (port : Port cfg) (access : Access) (port' : Port cfg) : Prop :=
  match access.trigger control with
  | none => port' = port.apply access
  | some transfer => Completes control transfer (port.apply access) port'

/-- Accesses one after the other, with what they are answered. -/
inductive Follows (control : Control) :
    Port cfg → List Access → List DmiResp → Port cfg → Prop
  | nil (port : Port cfg) : Follows control port [] [] port
  | cons {port middle port' : Port cfg} {access : Access} {accesses : List Access}
      {responses : List DmiResp} (hperforms : Performs control port access middle)
      (hrest : Follows control middle accesses responses port') :
      Follows control port (access :: accesses) (access.responses port.data ++ responses) port'

/-- The first access of a program. -/
theorem Follows.uncons {control : Control} {port port' : Port cfg} {access : Access}
    {accesses : List Access} {responses : List DmiResp}
    (hfollows : Follows control port (access :: accesses) responses port') :
    ∃ middle later, Performs control port access middle ∧
      Follows control middle accesses later port' ∧
        responses = access.responses port.data ++ later := by
  cases hfollows with
  | cons hperforms hrest => exact ⟨_, _, hperforms, hrest, rfl⟩

/-- A further access at the end. -/
theorem Follows.snoc {control : Control} {port middle port' : Port cfg} {accesses : List Access}
    {responses : List DmiResp} {access : Access}
    (hfollows : Follows control port accesses responses middle)
    (hperforms : Performs control middle access port') :
    Follows control port (accesses ++ [access]) (responses ++ access.responses middle.data)
      port' := by
  induction hfollows with
  | nil port => simpa using Follows.cons hperforms (Follows.nil port')
  | cons hfirst hrest ih =>
    rw [List.append_assoc]
    exact Follows.cons hfirst (ih hperforms)

/-! ### Sound programs -/

/-- The address after an access and its transfer. -/
def Control.addressAfter (control : Control) (address : BitVec cfg.busWidth) (access : Access) :
    BitVec cfg.busWidth :=
  if access.trigger control = none then access.setAddress address
  else control.advance (access.setAddress address)

/-- A program that leaves the control register alone and transfers at multiples of the size only. -/
def Sound (control : Control) : BitVec cfg.busWidth → List Access → Prop
  | _, [] => True
  | address, access :: accesses =>
    (∀ value, access ≠ .writeControl value) ∧
      (access.trigger control ≠ none →
        (access.setAddress address).toNat % control.count = 0) ∧
        Sound control (control.addressAfter address access) accesses

theorem Performs.address_eq {control : Control} {port port' : Port cfg} {access : Access}
    (hperforms : Performs control port access port') :
    port'.address = control.addressAfter port.address access := by
  unfold Performs at hperforms
  unfold Control.addressAfter
  cases htrigger : access.trigger control with
  | none =>
    rw [htrigger] at hperforms
    rw [if_pos rfl, hperforms]
    rfl
  | some transfer =>
    rw [htrigger] at hperforms
    rw [if_neg (Option.some_ne_none transfer)]
    exact hperforms.address

/-- What is left of a sound program is sound. -/
theorem Sound.of_follows {control : Control} {port port' : Port cfg} {front rest : List Access}
    {responses : List DmiResp} (hsound : Sound control port.address (front ++ rest))
    (hfollows : Follows control port front responses port') : Sound control port'.address rest := by
  induction hfollows with
  | nil port => exact hsound
  | cons hperforms hrest ih =>
    refine ih ?_
    rw [hperforms.address_eq]
    exact hsound.2.2

/-! ### Storing a block -/

section Store

/-- The accesses that store an element: the upper word first, when the element has one. -/
def storeAccesses (wide : Bool) (value : BitVec 64) : List Access :=
  (if wide then [.writeData1 (value.extractLsb' 32 32)] else []) ++
    [.writeData0 (value.extractLsb' 0 32)]

def storeProgram (wide : Bool) (values : List (BitVec 64)) : List Access :=
  values.flatMap (storeAccesses wide)

variable {control : Control} {port port' : Port cfg} {responses : List DmiResp}

theorem append_extractLsb' (value : BitVec 64) :
    value.extractLsb' 32 32 ++ value.extractLsb' 0 32 = value :=
  BitVec.extractLsb'_append_extractLsb'

/-- An element of one word has the bytes of that word only. -/
theorem byteAt_append_right (upper lower : BitVec 32) {lane : ℕ} (hlane : lane < 4) :
    byteAt (upper ++ lower) lane = byteAt lower lane := by
  refine byteAt_ext fun index hindex ↦ ?_
  rw [BitVec.getLsbD_append, if_pos (by omega)]

theorem byteAt_lower (value : BitVec 64) {lane : ℕ} (hlane : lane < 4) :
    byteAt (value.extractLsb' 0 32) lane = byteAt value lane := by
  have hbytes := byteAt_extractLsb' value 0 lane 32 (by omega)
  rwa [Nat.mul_zero, Nat.zero_add] at hbytes

/-- A narrow element has at most four bytes. -/
theorem Control.count_le_of_narrow (hnarrow : control.wide = false)
    (hsize : control.access.toNat ≤ 3) : control.count ≤ 4 := by
  have hne : control.access ≠ 3 := beq_eq_false_iff_ne.mp hnarrow
  have hle : control.access.toNat ≤ 2 := by
    revert hne hsize
    generalize control.access = access
    revert access
    decide
  exact Nat.pow_le_pow_right (by decide) hle

/-- The accesses of an element store it. -/
theorem stores_element {value : BitVec 64} {rest : List Access}
    (hsize : control.access.toNat ≤ 3)
    (hfollows : Follows control port (storeAccesses control.wide value ++ rest) responses port') :
    ∃ (middle : Port cfg) (later : List DmiResp),
      middle.memory = storeBytes port.memory port.address control.count value ∧
        middle.address = control.advance port.address ∧
          Follows control middle rest later port' ∧ responses = later := by
  cases hwide : control.wide with
  | true =>
    rw [hwide] at hfollows
    obtain ⟨first, _, hupper, hsecond, rfl⟩ := hfollows.uncons
    obtain ⟨middle, _, hlower, hrest, rfl⟩ := hsecond.uncons
    obtain rfl : first = port.apply (.writeData1 (value.extractLsb' 32 32)) := hupper
    have hcompletes : Completes control .store _ middle := hlower
    refine ⟨middle, _, ?_, hcompletes.address, hrest, rfl⟩
    rw [hcompletes.memory]
    refine storeBytes_congr _ _ fun lane _ ↦ ?_
    show byteAt ((_ ++ _ : BitVec 64).extractLsb' 32 32 ++ value.extractLsb' 0 32) lane = _
    rw [BitVec.extractLsb'_append_eq_left, append_extractLsb']
  | false =>
    rw [hwide] at hfollows
    obtain ⟨middle, _, hlower, hrest, rfl⟩ := hfollows.uncons
    have hcompletes : Completes control .store _ middle := hlower
    refine ⟨middle, _, ?_, hcompletes.address, hrest, rfl⟩
    rw [hcompletes.memory]
    refine storeBytes_congr _ _ fun lane hlane ↦ ?_
    have hfour : lane < 4 := hlane.trans_le (Control.count_le_of_narrow hwide hsize)
    show byteAt (_ ++ value.extractLsb' 0 32) lane = _
    rw [byteAt_append_right _ _ hfour, byteAt_lower _ hfour]

/-- The program stores the elements one after the other. -/
theorem stores_block (hincrement : control.autoincrement = true)
    (hsize : control.access.toNat ≤ 3) {values : List (BitVec 64)}
    (hfollows : Follows control port (storeProgram control.wide values) responses port') :
    port'.memory = storeBlock control.count port.memory port.address values ∧
      port'.address =
          port.address + BitVec.ofNat cfg.busWidth (control.count * values.length) ∧
        responses = [] := by
  induction values generalizing port responses with
  | nil =>
    cases hfollows with
    | nil => exact ⟨rfl, by simp, rfl⟩
  | cons value values ih =>
    rw [storeProgram, List.flatMap_cons] at hfollows
    obtain ⟨middle, later, hmemory, haddress, hrest, rfl⟩ := stores_element hsize hfollows
    obtain ⟨hblock, hend, hnone⟩ := ih hrest
    rw [Control.advance, if_pos hincrement] at haddress
    rw [hmemory, haddress] at hblock
    rw [haddress, BitVec.add_assoc, ← BitVec.ofNat_add] at hend
    refine ⟨hblock, ?_, hnone⟩
    rw [hend, List.length_cons, Nat.mul_succ, Nat.add_comm]

end Store

/-! ### Loading a block -/

section Load

/-- The accesses that read an element: the upper word first, since the read of the lower one starts
the next transfer. -/
def loadAccesses (wide : Bool) : List Access :=
  (if wide then [.readData1] else []) ++ [.readData0]

/-- The writes of the address, the upper half first. -/
def addressAccesses (address : BitVec cfg.busWidth) : List Access :=
  (if cfg.busWidth = 64 then [.writeAddress1 ((address.setWidth 64).extractLsb' 32 32)] else []) ++
    [.writeAddress0 ((address.setWidth 64).extractLsb' 0 32)]

def loadProgram (wide : Bool) (address : BitVec cfg.busWidth) (number : ℕ) : List Access :=
  addressAccesses address ++ (List.replicate number (loadAccesses wide)).flatten

/-- What the reads of an element are answered. -/
def loadResponses (wide : Bool) (value : BitVec 64) : List DmiResp :=
  (if wide then [⟨value.extractLsb' 32 32, dtmSuccess⟩] else []) ++
    [⟨value.extractLsb' 0 32, dtmSuccess⟩]

/-- The elements of a block, in the memory from an address on. -/
structure ElementsAt (memory : ByteMemory cfg.busWidth) (address : BitVec cfg.busWidth)
    (count number : ℕ) (values : List (BitVec 64)) : Prop where
  length : values.length = number
  bytes : ∀ index (hindex : index < values.length), ∀ lane < count,
    byteAt (values.get ⟨index, hindex⟩) lane =
      memory (address + BitVec.ofNat cfg.busWidth (count * index + lane))

/-- A further element at the front. -/
theorem ElementsAt.cons {memory : ByteMemory cfg.busWidth} {address : BitVec cfg.busWidth}
    {count number : ℕ} {value : BitVec 64} {values : List (BitVec 64)}
    (hvalue : ∀ lane < count,
      byteAt value lane = memory (address + BitVec.ofNat cfg.busWidth lane))
    (hvalues : ElementsAt memory (address + BitVec.ofNat cfg.busWidth count) count number values) :
    ElementsAt memory address count (number + 1) (value :: values) := by
  refine ⟨by rw [List.length_cons, hvalues.length], fun index hindex lane hlane ↦ ?_⟩
  cases index with
  | zero =>
    rw [Nat.mul_zero, Nat.zero_add]
    exact hvalue lane hlane
  | succ index =>
    have hbytes := hvalues.bytes index (Nat.lt_of_succ_lt_succ hindex) lane hlane
    rw [BitVec.add_assoc, ← BitVec.ofNat_add] at hbytes
    rw [Nat.mul_succ, Nat.add_comm (count * index) count, Nat.add_assoc]
    exact hbytes

variable {control : Control} {port port' : Port cfg} {responses : List DmiResp}

/-- Writing one half after the other sets the address. -/
theorem setAddress_wide (hwidth : cfg.busWidth = 64) (address before : BitVec cfg.busWidth) :
    (Access.writeAddress0 ((address.setWidth 64).extractLsb' 0 32)).setAddress
      ((Access.writeAddress1 ((address.setWidth 64).extractLsb' 32 32)).setAddress before) =
        address := by
  apply BitVec.eq_of_getLsbD_eq
  intro index hindex
  simp only [Access.setAddress, BitVec.getLsbD_setWidth, BitVec.getLsbD_append,
    BitVec.getLsbD_extractLsb']
  by_cases hlow : index < 32
  · simp [hlow, hindex, show index < 64 by omega]
  · simp [hlow, hindex, show index < 64 by omega, show index - 32 < 32 by omega,
      show 32 + (index - 32) = index by omega]

theorem setAddress_narrow (hwidth : cfg.busWidth = 32) (address before : BitVec cfg.busWidth) :
    (Access.writeAddress0 ((address.setWidth 64).extractLsb' 0 32)).setAddress before =
      address := by
  apply BitVec.eq_of_getLsbD_eq
  intro index hindex
  simp only [Access.setAddress, BitVec.getLsbD_setWidth, BitVec.getLsbD_append,
    BitVec.getLsbD_extractLsb']
  simp [hindex, show index < 32 by omega, show index < 64 by omega]

/-- The writes of the address load its element. -/
theorem loads_first (hreadonaddr : control.readonaddr = true) {address : BitVec cfg.busWidth}
    {rest : List Access}
    (hfollows : Follows control port (addressAccesses address ++ rest) responses port') :
    ∃ middle : Port cfg, Completes control .load { port with address := address } middle ∧
      Follows control middle rest responses port' := by
  have htrigger (value : BitVec 32) :
      (Access.writeAddress0 value).trigger control = some .load := if_pos hreadonaddr
  rcases cfg.busWidth_eq with hwidth | hwidth
  · rw [addressAccesses, if_neg (by omega)] at hfollows
    obtain ⟨middle, later, hperforms, hrest, rfl⟩ := hfollows.uncons
    rw [Performs, htrigger] at hperforms
    rw [Port.apply, setAddress_narrow hwidth] at hperforms
    exact ⟨middle, hperforms, hrest⟩
  · rw [addressAccesses, if_pos hwidth] at hfollows
    obtain ⟨first, _, hupper, hsecond, rfl⟩ := hfollows.uncons
    obtain ⟨middle, later, hperforms, hrest, rfl⟩ := hsecond.uncons
    obtain rfl : first = port.apply
      (.writeAddress1 ((address.setWidth 64).extractLsb' 32 32)) := hupper
    rw [Performs, htrigger] at hperforms
    rw [Port.apply, Port.apply, setAddress_wide hwidth] at hperforms
    exact ⟨middle, hperforms, hrest⟩

/-- The reads of an element answer it and load the next one. -/
theorem loads_element (hreadondata : control.readondata = true) {rest : List Access}
    (hfollows : Follows control port (loadAccesses control.wide ++ rest) responses port') :
    ∃ middle later, Completes control .load port middle ∧ Follows control middle rest later port' ∧
      responses = loadResponses control.wide port.data ++ later := by
  have htrigger : Access.readData0.trigger control = some .load := if_pos hreadondata
  cases hwide : control.wide with
  | true =>
    rw [hwide] at hfollows
    obtain ⟨first, _, hupper, hsecond, rfl⟩ := hfollows.uncons
    obtain ⟨middle, later, hperforms, hrest, rfl⟩ := hsecond.uncons
    obtain rfl : first = port := hupper
    rw [Performs, htrigger] at hperforms
    exact ⟨middle, later, hperforms, hrest, rfl⟩
  | false =>
    rw [hwide] at hfollows
    obtain ⟨middle, later, hperforms, hrest, rfl⟩ := hfollows.uncons
    rw [Performs, htrigger] at hperforms
    exact ⟨middle, later, hperforms, hrest, rfl⟩

/-- From a data register that holds the element before the address on, the reads answer the
elements one after the other. -/
theorem loads_elements (hincrement : control.autoincrement = true)
    (hreadondata : control.readondata = true) {address : BitVec cfg.busWidth} {number : ℕ}
    (hdata : ∀ lane < control.count,
      byteAt port.data lane = port.memory (address + BitVec.ofNat cfg.busWidth lane))
    (haddress : port.address = address + BitVec.ofNat cfg.busWidth control.count)
    (hfollows : Follows control port (List.replicate number (loadAccesses control.wide)).flatten
      responses port') :
    port'.memory = port.memory ∧
      port'.address = address + BitVec.ofNat cfg.busWidth (control.count * (number + 1)) ∧
        ∃ values, ElementsAt port.memory address control.count number values ∧
          responses = values.flatMap (loadResponses control.wide) := by
  induction number generalizing port address responses with
  | zero =>
    cases hfollows with
    | nil =>
      refine ⟨rfl, ?_, [], ⟨rfl, fun index hindex ↦ absurd hindex (Nat.not_lt_zero index)⟩, rfl⟩
      rw [haddress, Nat.zero_add, Nat.mul_one]
  | succ number ih =>
    rw [List.replicate_succ, List.flatten_cons] at hfollows
    obtain ⟨middle, later, hcompletes, hrest, rfl⟩ := loads_element hreadondata hfollows
    have hmemory : middle.memory = port.memory := hcompletes.memory
    have hadvanced : middle.address = address + BitVec.ofNat cfg.busWidth control.count +
        BitVec.ofNat cfg.busWidth control.count := by
      rw [hcompletes.address, Control.advance, if_pos hincrement, haddress]
    obtain ⟨hkept, hend, values, hvalues, hlater⟩ := ih (fun lane hlane ↦ by
      rw [hcompletes.loads rfl lane hlane, hmemory, haddress]) hadvanced hrest
    rw [hmemory] at hvalues
    refine ⟨hkept.trans hmemory, ?_, port.data :: values, hvalues.cons hdata, ?_⟩
    · rw [hend, BitVec.add_assoc, ← BitVec.ofNat_add, Nat.mul_succ _ (number + 1), Nat.add_comm]
    · rw [List.flatMap_cons, hlater]

/-- The program answers the elements one after the other, and has loaded a further one. -/
theorem loads_block (hincrement : control.autoincrement = true)
    (hreadonaddr : control.readonaddr = true) (hreadondata : control.readondata = true)
    {address : BitVec cfg.busWidth} {number : ℕ}
    (hfollows : Follows control port (loadProgram control.wide address number) responses port') :
    port'.memory = port.memory ∧
      port'.address = address + BitVec.ofNat cfg.busWidth (control.count * (number + 1)) ∧
        ∃ values, ElementsAt port.memory address control.count number values ∧
          responses = values.flatMap (loadResponses control.wide) := by
  obtain ⟨middle, hcompletes, hrest⟩ := loads_first hreadonaddr hfollows
  have hmemory : middle.memory = port.memory := hcompletes.memory
  have haddress : middle.address = address + BitVec.ofNat cfg.busWidth control.count := by
    rw [hcompletes.address, Control.advance, if_pos hincrement]
  have hdata : ∀ lane < control.count,
      byteAt middle.data lane = middle.memory (address + BitVec.ofNat cfg.busWidth lane) := by
    intro lane hlane
    rw [hmemory]
    exact hcompletes.loads rfl lane hlane
  rw [← hmemory]
  exact loads_elements hincrement hreadondata hdata haddress hrest

end Load

/-! ### The programs are sound -/

section Programs

variable {control : Control} {address : BitVec cfg.busWidth}

/-- The element after one at a multiple of the size is at a multiple too. -/
theorem aligned_advance (hsize : control.access.toNat ≤ cfg.busWidth)
    (haligned : address.toNat % control.count = 0) :
    (control.advance address).toNat % control.count = 0 := by
  have hcount : control.count ∣ 2 ^ cfg.busWidth := pow_dvd_pow 2 hsize
  have haddress : control.count ∣ address.toNat := Nat.dvd_of_mod_eq_zero haligned
  refine Nat.mod_eq_zero_of_dvd ?_
  rw [Control.advance]
  split_ifs
  · rw [BitVec.toNat_add, BitVec.toNat_ofNat, Nat.dvd_mod_iff hcount]
    exact haddress.add ((Nat.dvd_mod_iff hcount).mpr dvd_rfl)
  · exact haddress

/-- The rest of a program after an element. -/
theorem sound_element {access : Access} {rest : List Access}
    (hcontrol : ∀ value, access ≠ .writeControl value)
    (haddress : access.setAddress address = address)
    (htrigger : ∃ transfer, access.trigger control = some transfer)
    (haligned : address.toNat % control.count = 0)
    (hrest : Sound control (control.advance address) rest) :
    Sound control address (access :: rest) := by
  obtain ⟨transfer, htransfer⟩ := htrigger
  refine ⟨hcontrol, fun _ ↦ ?_, ?_⟩
  · rw [haddress]
    exact haligned
  · rw [Control.addressAfter, htransfer, if_neg (Option.some_ne_none transfer), haddress]
    exact hrest

theorem sound_store (hsize : control.access.toNat ≤ cfg.busWidth) (wide : Bool)
    (haligned : address.toNat % control.count = 0) (values : List (BitVec 64)) :
    Sound control address (storeProgram wide values) := by
  induction values generalizing address with
  | nil => trivial
  | cons value values ih =>
    have hlower : Sound control address
        (.writeData0 (value.extractLsb' 0 32) :: storeProgram wide values) :=
      sound_element (fun _ heq ↦ nomatch heq) rfl ⟨.store, rfl⟩ haligned
        (ih (aligned_advance hsize haligned))
    cases wide with
    | true => exact ⟨fun _ heq ↦ (nomatch heq), fun htrigger ↦ absurd rfl htrigger, hlower⟩
    | false => exact hlower

theorem sound_loads (hsize : control.access.toNat ≤ cfg.busWidth)
    (hreadondata : control.readondata = true) (wide : Bool)
    (haligned : address.toNat % control.count = 0) (number : ℕ) :
    Sound control address (List.replicate number (loadAccesses wide)).flatten := by
  induction number generalizing address with
  | zero => trivial
  | succ number ih =>
    rw [List.replicate_succ, List.flatten_cons]
    have hlower : Sound control address
        (.readData0 :: (List.replicate number (loadAccesses wide)).flatten) :=
      sound_element (fun _ heq ↦ nomatch heq) rfl ⟨.load, if_pos hreadondata⟩ haligned
        (ih (aligned_advance hsize haligned))
    cases wide with
    | true => exact ⟨fun _ heq ↦ (nomatch heq), fun htrigger ↦ absurd rfl htrigger, hlower⟩
    | false => exact hlower

theorem sound_load (hsize : control.access.toNat ≤ cfg.busWidth)
    (hreadonaddr : control.readonaddr = true) (hreadondata : control.readondata = true)
    (wide : Bool) (haligned : address.toNat % control.count = 0) (number : ℕ)
    (before : BitVec cfg.busWidth) :
    Sound control before (loadProgram wide address number) := by
  have htrigger (value : BitVec 32) :
      (Access.writeAddress0 value).trigger control = some .load := if_pos hreadonaddr
  have hloads := sound_loads hsize hreadondata wide (aligned_advance hsize haligned) number
  rcases cfg.busWidth_eq with hwidth | hwidth
  · rw [loadProgram, addressAccesses, if_neg (by omega)]
    refine ⟨fun _ heq ↦ (nomatch heq), fun _ ↦ ?_, ?_⟩
    · rw [setAddress_narrow hwidth]
      exact haligned
    · rw [Control.addressAfter, htrigger, if_neg (Option.some_ne_none _), setAddress_narrow hwidth]
      exact hloads
  · rw [loadProgram, addressAccesses, if_pos hwidth]
    refine ⟨fun _ heq ↦ (nomatch heq), fun hnone ↦ absurd rfl hnone, ?_⟩
    have hnone (value : BitVec 32) : (Access.writeAddress1 value).trigger control = none := rfl
    rw [Control.addressAfter, if_pos (hnone _)]
    refine ⟨fun _ heq ↦ (nomatch heq), fun _ ↦ ?_, ?_⟩
    · rw [setAddress_wide hwidth]
      exact haligned
    · rw [Control.addressAfter, htrigger, if_neg (Option.some_ne_none _), setAddress_wide hwidth]
      exact hloads

end Programs

end RiscvDebug.AccessPort
