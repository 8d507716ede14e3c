import RiscvDebug.SystemBus.BusMemory

/-!
# Block transfers over the system bus

Runs of the debug module on a memory, for a host that makes its accesses while the bus master is
idle. The registers and the memory follow the port (`phase_run`), and the bus master becomes idle
again after each access (`idle_until`), so a block that the host stores or loads is transferred
whole (`transfersBlock`).
-/

set_option autoImplicit false
set_option relaxedAutoImplicit false

namespace RiscvDebug.BusMemory

open Foundations DmTop AccessPort

variable {cfg : Config}

/-! ### Runs of a host that waits -/

section Runs

variable (start : System cfg) (inputs : ℕ → DmTop.Inputs cfg)

/-- The accesses of the bus registers before a time. -/
def accesses (time : ℕ) : List Access :=
  history (fun time ↦ touched (run start inputs time) (inputs time)) time

/-- The answers to the reads of the bus data before a time. -/
def answers (time : ℕ) : List DmiResp :=
  history (fun time ↦ answered (run start inputs time) (inputs time)) time

/-- A run from an idle bus master, with the module active, no error pending, and elements that fit
the bus. The host waits for the bus master, and the bus grants and answers each request in the
end. -/
structure Waits (control : Control) : Prop where
  idle : start.dm.sba = .idle
  settled : start.response = none
  governed : Governed start control
  size : control.access.toNat ≤ cfg.beIdxWidth
  active : ∀ time, (run start inputs time).dm.csrs.dmcontrol.dmactive = true
  polite : ∀ time, touched (run start inputs time) (inputs time) ≠ [] →
    (run start inputs time).dm.sba = .idle
  grants : ∀ time, (request (run start inputs time) (inputs time)).req = true →
    ∃ later, time ≤ later ∧ (inputs later).master.gnt = true
  responds : ∀ time, (run start inputs time).response.isSome = true →
    ∃ later, time ≤ later ∧ (inputs later).master.rValid = true

/-- The port that a state shows. -/
def System.port (x : System cfg) : Port cfg := ⟨x.memory, x.address, x.dm.csrs.sbdata⟩

end Runs

section Waiting

variable {start : System cfg} {inputs : ℕ → DmTop.Inputs cfg} {control : Control}
  (hwaits : Waits start inputs control)
include hwaits

/-- The registers and the memory follow the port along a sound program. -/
theorem phase_run {rest : List Access} {time : ℕ}
    (hsound : Sound control start.address (accesses start inputs time ++ rest)) :
    Phase control start.port (run start inputs time) (accesses start inputs time)
        (answers start inputs time) ∧
      Governed (run start inputs time) control := by
  induction time generalizing rest with
  | zero =>
    exact ⟨.idle start.port hwaits.idle hwaits.settled ⟨rfl, rfl, rfl⟩ (.nil start.port),
      hwaits.governed⟩
  | succ time ih =>
    have hearlier : Sound control start.address (accesses start inputs time ++
        (touched (run start inputs time) (inputs time) ++ rest)) := by
      rw [← List.append_assoc]
      exact hsound
    obtain ⟨hphase, hgoverned⟩ := ih hearlier
    exact hphase.step hgoverned hwaits.size (hwaits.active time) (hwaits.polite time) hsound

/-- A busy bus master keeps the host from the registers. -/
theorem untouched_of_busy {time : ℕ} (hbusy : (run start inputs time).dm.sba ≠ .idle) :
    touched (run start inputs time) (inputs time) = [] := by
  by_contra htouched
  exact hbusy (hwaits.polite time htouched)

theorem accesses_succ_of_busy {time : ℕ} (hbusy : (run start inputs time).dm.sba ≠ .idle) :
    accesses start inputs (time + 1) = accesses start inputs time := by
  rw [accesses, history_succ, untouched_of_busy hwaits hbusy, List.append_nil]
  rfl

/-! ### The end of a transfer -/

section Sound

variable {program : List Access} (hsound : Sound control start.address program)
include hsound

theorem phase_of_program {time : ℕ} (hprogram : accesses start inputs time = program) :
    Phase control start.port (run start inputs time) (accesses start inputs time)
        (answers start inputs time) ∧
      Governed (run start inputs time) control := by
  have hwhole : Sound control start.address (accesses start inputs time ++ []) := by
    rw [List.append_nil, hprogram]
    exact hsound
  exact phase_run hwaits hwhole

/-- A response that the bus owes ends the transfer. -/
theorem idle_of_waiting {transfer : Transfer} {time : ℕ}
    (hprogram : accesses start inputs time = program)
    (hsba : (run start inputs time).dm.sba = waiting transfer) :
    ∃ done, time ≤ done ∧ accesses start inputs done = program ∧
      (run start inputs done).dm.sba = .idle := by
  have hbusy (later : ℕ) (hlater : (run start inputs later).dm.sba = waiting transfer) :
      (run start inputs later).dm.sba ≠ .idle := hlater.trans_ne (waiting_ne_idle transfer)
  -- One cycle: the wait goes on without an answer and ends with one.
  have hcycle (later : ℕ) (hlater : accesses start inputs later = program ∧
      (run start inputs later).dm.sba = waiting transfer) :
      (run start inputs later).response.isSome = true ∧
        accesses start inputs (later + 1) = program ∧
        (run start inputs (later + 1)).dm.sba =
          if (inputs later).master.rValid then .idle else waiting transfer := by
    obtain ⟨hsame, hwaiting⟩ := hlater
    obtain ⟨hphase, hgoverned⟩ := phase_of_program hwaits hsound hsame
    have hfits := hphase.fits hgoverned hwaits.size (inputs later) (hbusy later hwaiting)
    have huntouched := untouched_of_busy hwaits (hbusy later hwaiting)
    cases hphase with
    | idle port hidle => exact absurd hidle (hbusy later hwaiting)
    | requested port transfer' hrequesting =>
      rw [hwaiting] at hrequesting
      cases transfer <;> cases transfer' <;> exact nomatch hrequesting
    | awaited port transfer' word hwaiting' hresponse hmemory haddress hword hrunning =>
      refine ⟨by rw [hresponse]; rfl, ?_, ?_⟩
      · rw [accesses_succ_of_busy hwaits (hbusy later hwaiting), hsame]
      · cases hvalid : (inputs later).master.rValid with
        | false => exact (awaited_of_unanswered (hwaits.active later) hwaiting hresponse hfits
            huntouched hvalid).1
        | true => exact (awaited_of_answered hgoverned (hwaits.active later) hwaiting' hresponse
            hmemory haddress hword hfits huntouched hvalid).1
  have hstays : ∀ later, time ≤ later → (accesses start inputs later = program ∧
      (run start inputs later).dm.sba = waiting transfer) →
        ¬ (inputs later).master.rValid = true →
          accesses start inputs (later + 1) = program ∧
            (run start inputs (later + 1)).dm.sba = waiting transfer := by
    intro later _ hlater hunanswered
    obtain ⟨-, hsame, hnext⟩ := hcycle later hlater
    rw [if_neg hunanswered] at hnext
    exact ⟨hsame, hnext⟩
  obtain ⟨later, hle, -, hlater, hanswered⟩ := until_of_opportunity ⟨hprogram, hsba⟩ hstays
    fun later _ hlater ↦ hwaits.responds later (hcycle later hlater).1
  obtain ⟨-, hsame, hnext⟩ := hcycle later hlater
  rw [if_pos hanswered] at hnext
  exact ⟨later + 1, by omega, hsame, hnext⟩

/-- A request is granted and answered. -/
theorem idle_of_requesting {transfer : Transfer} {time : ℕ}
    (hprogram : accesses start inputs time = program)
    (hsba : (run start inputs time).dm.sba = requesting transfer) :
    ∃ done, time ≤ done ∧ accesses start inputs done = program ∧
      (run start inputs done).dm.sba = .idle := by
  have hbusy (later : ℕ) (hlater : (run start inputs later).dm.sba = requesting transfer) :
      (run start inputs later).dm.sba ≠ .idle := hlater.trans_ne (requesting_ne_idle transfer)
  -- One cycle: the request stays without a grant and the bus master waits after one.
  have hcycle (later : ℕ) (hlater : accesses start inputs later = program ∧
      (run start inputs later).dm.sba = requesting transfer) :
      (request (run start inputs later) (inputs later)).req = true ∧
        accesses start inputs (later + 1) = program ∧
        (run start inputs (later + 1)).dm.sba =
          if (inputs later).master.gnt then waiting transfer else requesting transfer := by
    obtain ⟨hsame, hrequesting⟩ := hlater
    obtain ⟨hphase, hgoverned⟩ := phase_of_program hwaits hsound hsame
    have hfits := hphase.fits hgoverned hwaits.size (inputs later) (hbusy later hrequesting)
    have huntouched := untouched_of_busy hwaits (hbusy later hrequesting)
    cases hphase with
    | idle port hidle => exact absurd hidle (hbusy later hrequesting)
    | awaited port transfer' word hwaiting =>
      rw [hrequesting] at hwaiting
      cases transfer <;> cases transfer' <;> exact nomatch hwaiting
    | requested port transfer' hrequesting' hresponse hholds hrunning =>
      refine ⟨?_, ?_, ?_⟩
      · refine (req_iff _ _).mpr ⟨?_, refused_eq_false hfits⟩
        rw [hrequesting]
        cases transfer with
        | load => exact Or.inl rfl
        | store => exact Or.inr rfl
      · rw [accesses_succ_of_busy hwaits (hbusy later hrequesting), hsame]
      · cases hgnt : (inputs later).master.gnt with
        | false => exact (requested_of_not_granted (hwaits.active later) hrequesting hresponse
            hholds hfits huntouched hgnt).1
        | true => exact (requested_of_granted hgoverned (hwaits.active later) hrequesting
            hholds hfits huntouched hgnt).1
  have hstays : ∀ later, time ≤ later → (accesses start inputs later = program ∧
      (run start inputs later).dm.sba = requesting transfer) →
        ¬ (inputs later).master.gnt = true →
          accesses start inputs (later + 1) = program ∧
            (run start inputs (later + 1)).dm.sba = requesting transfer := by
    intro later _ hlater hnotgranted
    obtain ⟨-, hsame, hnext⟩ := hcycle later hlater
    rw [if_neg hnotgranted] at hnext
    exact ⟨hsame, hnext⟩
  obtain ⟨later, hle, -, hlater, hgranted⟩ := until_of_opportunity ⟨hprogram, hsba⟩ hstays
    fun later _ hlater ↦ hwaits.grants later (hcycle later hlater).1
  obtain ⟨-, hsame, hnext⟩ := hcycle later hlater
  rw [if_pos hgranted] at hnext
  obtain ⟨done, hdone, hend⟩ := idle_of_waiting hwaits hsound hsame hnext
  exact ⟨done, by omega, hend⟩

/-- The bus master becomes idle before the host goes on. -/
theorem idle_until {time : ℕ} (hprogram : accesses start inputs time = program) :
    ∃ done, time ≤ done ∧ accesses start inputs done = program ∧
      (run start inputs done).dm.sba = .idle := by
  obtain ⟨hphase, -⟩ := phase_of_program hwaits hsound hprogram
  cases hphase with
  | idle port hidle => exact ⟨time, le_rfl, hprogram, hidle⟩
  | requested port transfer hrequesting =>
    exact idle_of_requesting hwaits hsound hprogram hrequesting
  | awaited port transfer word hwaiting =>
    exact idle_of_waiting hwaits hsound hprogram hwaiting

/-- At the end of a sound program the port has performed it. -/
theorem follows_of_idle {time : ℕ} (hprogram : accesses start inputs time = program)
    (hidle : (run start inputs time).dm.sba = .idle) :
    Follows control start.port program (answers start inputs time)
      (run start inputs time).port := by
  obtain ⟨hphase, -⟩ := phase_of_program hwaits hsound hprogram
  obtain ⟨port, -, ⟨hmemory, haddress, hdata⟩, hfollows⟩ := hphase.of_idle hidle
  have hport : port = (run start inputs time).port := by
    rw [System.port, hmemory, haddress, hdata]
  rw [← hport, ← hprogram]
  exact hfollows

end Sound

end Waiting

/-! ### Blocks -/

/-- A block of elements has been stored at the address of the start: the bytes of the elements in
order, and no other byte. A block that comes round to its own start is stored element by
element. -/
structure Stored (control : Control) (values : List (BitVec 64)) (start x : System cfg) : Prop where
  memory : x.memory = storeBlock control.count start.memory start.address values
  inside : control.count * values.length ≤ 2 ^ cfg.busWidth →
    ∀ index (hindex : index < values.length), ∀ lane < control.count,
      x.memory (start.address + BitVec.ofNat cfg.busWidth (control.count * index + lane)) =
        byteAt (values.get ⟨index, hindex⟩) lane
  outside : ∀ address : BitVec cfg.busWidth,
    (∀ offset < control.count * values.length,
      address ≠ start.address + BitVec.ofNat cfg.busWidth offset) →
      x.memory address = start.memory address
  address : x.address =
    start.address + BitVec.ofNat cfg.busWidth (control.count * values.length)

/-- A block of elements has been loaded from an address: the answers are the elements in order, and
a further element has been fetched. -/
structure Loaded (control : Control) (address : BitVec cfg.busWidth) (number : ℕ)
    (responses : List DmiResp) (start x : System cfg) : Prop where
  memory : x.memory = start.memory
  responses : ∃ values, ElementsAt start.memory address control.count number values ∧
    responses = values.flatMap (loadResponses control.wide)
  address : x.address =
    address + BitVec.ofNat cfg.busWidth (control.count * (number + 1))

/-- The bus master becomes idle after a program, before the host goes on. -/
def Finishes (start : System cfg) (inputs : ℕ → DmTop.Inputs cfg) (program : List Access) : Prop :=
  ∀ time, accesses start inputs time = program → ∃ done, time ≤ done ∧
    accesses start inputs done = program ∧ (run start inputs done).dm.sba = .idle

theorem size_le_three (cfg : Config) {control : Control}
    (hsize : control.access.toNat ≤ cfg.beIdxWidth) :
    control.access.toNat ≤ 3 ∧ control.access.toNat ≤ cfg.busWidth := by
  rcases DmSba.beIdxWidth_eq cfg with ⟨hwidth, hlanes⟩ | ⟨hwidth, hlanes⟩ <;> omega

/-- A host that waits for the bus master stores and loads blocks whole. -/
theorem transfersBlock {start : System cfg} {inputs : ℕ → DmTop.Inputs cfg} {control : Control}
    (hwaits : Waits start inputs control) (hincrement : control.autoincrement = true) :
    (∀ values : List (BitVec 64), start.address.toNat % control.count = 0 →
      Finishes start inputs (storeProgram control.wide values) ∧
      ∀ done, accesses start inputs done = storeProgram control.wide values →
        (run start inputs done).dm.sba = .idle →
          Stored control values start (run start inputs done)) ∧
    (control.readonaddr = true → control.readondata = true →
      ∀ (address : BitVec cfg.busWidth) (number : ℕ), address.toNat % control.count = 0 →
        Finishes start inputs (loadProgram control.wide address number) ∧
        ∀ done, accesses start inputs done = loadProgram control.wide address number →
          (run start inputs done).dm.sba = .idle →
            Loaded control address number (answers start inputs done) start
              (run start inputs done)) := by
  obtain ⟨hthree, hwidth⟩ := size_le_three cfg hwaits.size
  refine ⟨fun values haligned ↦ ?_, fun hreadonaddr hreadondata address number haligned ↦ ?_⟩
  · have hsound := sound_store hwidth control.wide haligned values
    refine ⟨fun time hprogram ↦ idle_until hwaits hsound hprogram, fun done hprogram hidle ↦ ?_⟩
    have hfollows := follows_of_idle hwaits hsound hprogram hidle
    obtain ⟨hmemory, haddress, -⟩ := stores_block hincrement hthree hfollows
    refine ⟨hmemory, fun hfits index hindex lane hlane ↦ ?_, fun address houtside ↦ ?_, haddress⟩
    · exact (congrFun hmemory _).trans (storeBlock_inside hfits hindex hlane)
    · exact (congrFun hmemory _).trans (storeBlock_outside houtside)
  · have hsound : Sound control start.address (loadProgram control.wide address number) :=
      sound_load hwidth hreadonaddr hreadondata control.wide haligned number start.address
    refine ⟨fun time hprogram ↦ idle_until hwaits hsound hprogram, fun done hprogram hidle ↦ ?_⟩
    have hfollows := follows_of_idle hwaits hsound hprogram hidle
    obtain ⟨hmemory, haddress, hresponses⟩ :=
      loads_block hincrement hreadonaddr hreadondata hfollows
    exact ⟨hmemory, hresponses, haddress⟩

/-- One hart, with accesses of 16 bits that follow each other from address 2 on. -/
def halfwords (readsOn : Bool) : System oneHart where
  dm :=
    let reset := DmTop.Regs.reset oneHart
    { reset with
      csrs := { reset.csrs with
        dmcontrol := { reset.csrs.dmcontrol with dmactive := true }
        sbcs := { reset.csrs.sbcs with
          sbaccess := 1
          sbautoincrement := true
          sbreadonaddr := readsOn
          sbreadondata := readsOn }
        sbaddr := 2 } }
  memory := fun address ↦ address.setWidth 8 + 0x10
  response := none

/-- A bus that grants and answers at once. -/
def promptly (cycles : List (DmTop.Inputs oneHart)) (time : ℕ) : DmTop.Inputs oneHart :=
  { script cycles time with master := ⟨true, true, false, false, 0⟩ }

/-- The host stores two elements. -/
def storedHalfwords : ℕ → DmTop.Inputs oneHart :=
  promptly
    [(Inputs.quiet oneHart).withRequest ⟨0x3c, dtmWrite, 0x1122⟩, Inputs.quiet oneHart,
      Inputs.quiet oneHart, (Inputs.quiet oneHart).withRequest ⟨0x3c, dtmWrite, 0x3344⟩]

/-- The host loads an element from address 2. -/
def loadedHalfword : ℕ → DmTop.Inputs oneHart :=
  promptly
    [(Inputs.quiet oneHart).withRequest ⟨0x39, dtmWrite, 2⟩, Inputs.quiet oneHart,
      Inputs.quiet oneHart, (Inputs.quiet oneHart).withRequest ⟨0x3c, dtmRead, 0⟩]

/-- A bus that has granted and answered everything, with a quiet host, changes nothing. -/
theorem run_promptly_of_le {start : System oneHart} {cycles : List (DmTop.Inputs oneHart)}
    {settled : ℕ} (hlength : cycles.length ≤ settled)
    (hidle : (run start (promptly cycles) settled).dm.sba = .idle)
    (hnone : (run start (promptly cycles) settled).response = none)
    (hsettled : (run start (promptly cycles) (settled + 1)).dm =
      (run start (promptly cycles) settled).dm) {time : ℕ} (htime : settled ≤ time) :
    (run start (promptly cycles) time).dm = (run start (promptly cycles) settled).dm ∧
      (run start (promptly cycles) time).response = none ∧
      promptly cycles time = promptly cycles settled := by
  have hinputs (later : ℕ) (hlater : settled ≤ later) :
      promptly cycles later = promptly cycles settled := by
    unfold promptly script
    rw [List.getD_eq_default _ _ (hlength.trans hlater), List.getD_eq_default _ _ hlength]
  induction time, htime using Nat.le_induction with
  | base => exact ⟨rfl, hnone, rfl⟩
  | succ time htime ih =>
    obtain ⟨hdm, hresponse, -⟩ := ih
    refine ⟨?_, ?_, hinputs _ (htime.trans (Nat.le_succ time))⟩
    · rw [← hsettled]
      show DmTop.next _ (busInputs _ _) = DmTop.next _ (busInputs _ _)
      unfold busInputs
      rw [hdm, hresponse, hnone, hinputs time htime]
    · exact (kept_of_idle (by rw [hdm, hidle]) hresponse).2.1

/-- A run on such a bus waits when its first cycles do. -/
theorem waits_promptly {start : System oneHart} {cycles : List (DmTop.Inputs oneHart)}
    {control : Control} (settled : ℕ) (hidle : start.dm.sba = .idle)
    (hresponse : start.response = none) (hgoverned : Governed start control)
    (hsize : control.access.toNat ≤ oneHart.beIdxWidth) (hlength : cycles.length ≤ settled)
    (hquiet : (run start (promptly cycles) settled).dm.sba = .idle)
    (hnone : (run start (promptly cycles) settled).response = none)
    (hsettled : (run start (promptly cycles) (settled + 1)).dm =
      (run start (promptly cycles) settled).dm)
    (hearly : ∀ time ≤ settled,
      (run start (promptly cycles) time).dm.csrs.dmcontrol.dmactive = true ∧
        (touched (run start (promptly cycles) time) (promptly cycles time) = [] ∨
          (run start (promptly cycles) time).dm.sba = .idle)) :
    Waits start (promptly cycles) control where
  idle := hidle
  settled := hresponse
  governed := hgoverned
  size := hsize
  active := fun time ↦ by
    by_cases htime : time ≤ settled
    · exact (hearly time htime).1
    · rw [(run_promptly_of_le hlength hquiet hnone hsettled (not_le.mp htime).le).1]
      exact (hearly settled le_rfl).1
  polite := fun time htouched ↦ by
    by_cases htime : time ≤ settled
    · exact (hearly time htime).2.resolve_left htouched
    · rw [(run_promptly_of_le hlength hquiet hnone hsettled (not_le.mp htime).le).1]
      exact hquiet
  grants := fun time _ ↦ ⟨time, le_rfl, rfl⟩
  responds := fun time _ ↦ ⟨time, le_rfl, rfl⟩

/-- The fields of `sbcs` of these runs. -/
def halfwordControl (readsOn : Bool) : Control := ⟨1, true, readsOn, readsOn⟩

/-- The two elements are in the memory, and the element that is loaded is the answer. -/
theorem halfwords_transferred :
    Stored (halfwordControl false) [0x1122, 0x3344] (halfwords false)
        (run (halfwords false) storedHalfwords 6) ∧
      Loaded (halfwordControl true) 2 1 [⟨0x1312, dtmSuccess⟩] (halfwords true)
        (run (halfwords true) loadedHalfword 6) := by
  have hstores : Waits (halfwords false) storedHalfwords (halfwordControl false) :=
    waits_promptly 7 rfl rfl ⟨rfl, rfl, rfl⟩ (by decide) (by decide)
      (by decide +kernel) (by decide +kernel) (by decide +kernel) (by decide +kernel)
  have hloads : Waits (halfwords true) loadedHalfword (halfwordControl true) :=
    waits_promptly 7 rfl rfl ⟨rfl, rfl, rfl⟩ (by decide) (by decide)
      (by decide +kernel) (by decide +kernel) (by decide +kernel) (by decide +kernel)
  have hanswers : answers (halfwords true) loadedHalfword 6 = [⟨0x1312, dtmSuccess⟩] := by
    decide +kernel
  constructor
  · obtain ⟨-, hstored⟩ := (transfersBlock hstores rfl).1 [0x1122, 0x3344] (by decide)
    exact hstored 6 (by decide +kernel) (by decide +kernel)
  · obtain ⟨-, hloaded⟩ := (transfersBlock hloads rfl).2 rfl rfl (2 : BitVec 32) 1 (by decide)
    rw [← hanswers]
    exact hloaded 6 (by decide +kernel) (by decide +kernel)

end RiscvDebug.BusMemory
