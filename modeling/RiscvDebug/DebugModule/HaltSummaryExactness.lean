import RiscvDebug.DebugModule.DmTop
import RiscvDebug.Foundations.Groups

/-!
# The halt summaries say which harts are halted

What the halt summaries are for: `haltsum0` has the halted bits of the block of 32 harts that
`hartsel` selects, and the others have one bit for each of 32 groups of 32, 1024 and 32768 harts,
set iff some hart of the group is halted (`ExactSummaries`). The loop of `p_reduction3` leaves its
array when the number of harts is a multiple of 32768 (`accesses_inRange_iff`), and the bounds of
the selections wrap to zero when the last block is the last of 2^20 harts.
`exactSummaries_iff` says that nothing else goes wrong.
-/

set_option autoImplicit false
set_option relaxedAutoImplicit false

namespace RiscvDebug.HaltSummary

open Foundations

/-! ### The halted harts of a group -/

variable (cfg : Config) (halted : BitVec cfg.nrHarts) (hartsel : BitVec 20)

/-- The hart exists and is halted. -/
def IsHalted {nrHarts : ℕ} (halted : BitVec nrHarts) (hart : ℕ) : Prop :=
  halted.getLsbD hart = true

variable {cfg halted}

theorem IsHalted.lt {hart : ℕ} (hhalted : IsHalted halted hart) : hart < cfg.nrHarts := by
  by_contra hbeyond
  have hclear : halted.getLsbD hart = false := BitVec.getLsbD_of_ge _ _ (by omega)
  rw [IsHalted, hclear] at hhalted
  cases hhalted

/-- A group with a halted hart has an entry in the array of its level. -/
theorem lt_entries_of_someInGroup {size group : ℕ}
    (hsome : SomeInGroup size (IsHalted halted) group) : group < entries cfg size :=
  hsome.lt_entries fun _ hhalted ↦ hhalted.lt

theorem haltedReshaped0_summarises (block : ℕ) :
    Summarises 1 (IsHalted halted) block (haltedReshaped0 cfg halted block) := by
  intro index hindex
  rw [someInGroup_one]
  have hbit : ((halted.extractLsb' (32 * block) 32).getLsbD index = true) ↔
      IsHalted halted (32 * block + index) := by
    rw [BitVec.getLsbD_extractLsb', decide_eq_true hindex, Bool.true_and]
    exact Iff.rfl
  unfold haltedReshaped0
  split_ifs with hblock
  · exact hbit
  · simp only [BitVec.ofNat_eq_ofNat, BitVec.getLsbD_zero, Bool.false_eq_true, false_iff]
    intro hhalted
    have hlt := hhalted.lt
    omega

/-- An entry of a flat array, which is the disjunction of an entry of the array below when the
loop reaches it. -/
theorem flat_iff {size group : ℕ} {word : BitVec 32}
    (hword : Summarises size (IsHalted halted) group word) :
    ((decide (group < entries cfg (size * 32)) && word != 0) = true) ↔
      SomeInGroup (size * 32) (IsHalted halted) group := by
  rw [Bool.and_eq_true, decide_eq_true_eq, bne_iff_ne, hword.ne_zero_iff (by decide)]
  exact and_iff_right_of_imp lt_entries_of_someInGroup

/-- An entry of a reshaped array, which is the disjunction of groups below when the array has it. -/
theorem reshaped_summarises {size : ℕ} {flat : ℕ → Bool}
    (hflat : ∀ group, flat group = true ↔ SomeInGroup size (IsHalted halted) group) (block : ℕ) :
    Summarises size (IsHalted halted) block
      (if block < entries cfg (size * 32) then packBits 32 fun index ↦ flat (32 * block + index)
      else 0) := by
  split_ifs with hblock
  · exact packBits_summarises hflat block
  · intro index hindex
    simp only [BitVec.ofNat_eq_ofNat, BitVec.getLsbD_zero, Bool.false_eq_true, false_iff]
    intro hsome
    have hblock' : SomeInGroup (size * 32) (IsHalted halted) block :=
      (someInGroup_mul (by decide) block).mpr ⟨index, hindex, hsome⟩
    exact hblock (lt_entries_of_someInGroup hblock')

theorem haltedFlat1_iff (group : ℕ) :
    haltedFlat1 cfg halted group = true ↔ SomeInGroup (2 ^ 5) (IsHalted halted) group :=
  flat_iff (haltedReshaped0_summarises group)

theorem haltedReshaped1_summarises (block : ℕ) :
    Summarises (2 ^ 5) (IsHalted halted) block (haltedReshaped1 cfg halted block) :=
  reshaped_summarises haltedFlat1_iff block

theorem haltedFlat2_iff (group : ℕ) :
    haltedFlat2 cfg halted group = true ↔ SomeInGroup (2 ^ 10) (IsHalted halted) group :=
  flat_iff (haltedReshaped1_summarises group)

theorem haltedReshaped2_summarises (block : ℕ) :
    Summarises (2 ^ 10) (IsHalted halted) block (haltedReshaped2 cfg halted block) :=
  reshaped_summarises haltedFlat2_iff block

/-! ### The selected blocks -/

/-- A guarded selection keeps the summary of a block when the guard holds wherever the block has a
halted hart. -/
theorem selected_summarises {size block : ℕ} {guard : Prop} [Decidable guard] {word : BitVec 32}
    (hword : Summarises size (IsHalted halted) block word)
    (hguard : SomeInGroup (size * 32) (IsHalted halted) block → guard) :
    Summarises size (IsHalted halted) block (if guard then word else 0) := by
  split_ifs with hholds
  · exact hword
  · intro index hindex
    simp only [BitVec.ofNat_eq_ofNat, BitVec.getLsbD_zero, Bool.false_eq_true, false_iff]
    intro hsome
    exact hholds (hguard ((someInGroup_mul (by decide) block).mpr ⟨index, hindex, hsome⟩))

variable (cfg halted) in
/-- The last block of 32768 harts is the last of all, and the block that `hartsel` selects among
these has a halted hart. -/
structure WrapsWithHalted : Prop where
  wraps : 2 ^ 20 - 2 ^ 15 < cfg.nrHarts
  halted : SomeInGroup (2 ^ 15) (IsHalted halted) (hartsel.toNat / 2 ^ 15)

/-- A group inside the selected block of 32768 harts has a halted hart only if the block has. -/
theorem someInGroup_block {size count : ℕ} (hsize : size * count = 2 ^ 15)
    (hsome : SomeInGroup size (IsHalted halted) (hartsel.toNat / size)) :
    SomeInGroup (2 ^ 15) (IsHalted halted) (hartsel.toNat / 2 ^ 15) := by
  obtain ⟨hart, hgroup, hhalted⟩ := hsome
  refine ⟨hart, ?_, hhalted⟩
  rw [← hsize, ← Nat.div_div_eq_div_mul, ← Nat.div_div_eq_div_mul, hgroup]

/-- Away from the wrap the truncated bound of a selection admits every block with a halted hart. -/
theorem guard_of_someInGroup {hartsel : BitVec 20} {size count modulus : ℕ} (hcount : 0 < count)
    (hsize : size * count = 2 ^ 15) (hmodulus : size * modulus = 2 ^ 20)
    (hwraps : ¬ WrapsWithHalted cfg halted hartsel)
    (hsome : SomeInGroup size (IsHalted halted) (hartsel.toNat / size)) :
    hartsel.toNat / size < entries cfg size % modulus := by
  have hfits : cfg.nrHarts ≤ 2 ^ 20 - 2 ^ 15 := by
    by_contra hlarge
    exact hwraps ⟨not_le.mp hlarge, someInGroup_block hartsel hsize hsome⟩
  have hpos : 0 < size := by
    rcases Nat.eq_zero_or_pos size with rfl | hpos
    · simp at hsize
    · exact hpos
  have hentries : entries cfg size < modulus := by
    have hlt : cfg.nrHarts - 1 < (modulus - count) * size := by
      rw [Nat.sub_mul, Nat.mul_comm modulus, Nat.mul_comm count, hmodulus, hsize]
      have hnrHarts := cfg.nrHarts_pos
      omega
    have hle : entries cfg size ≤ modulus - count := (Nat.div_lt_iff_lt_mul hpos).mpr hlt
    have hone : 0 < entries cfg size := Nat.succ_pos _
    omega
  rw [Nat.mod_eq_of_lt hentries]
  exact lt_entries_of_someInGroup hsome

theorem hartselIdx0_eq : (hartsel.extractLsb' 5 15).toNat = hartsel.toNat / 2 ^ 5 := by
  rw [BitVec.extractLsb'_toNat, Nat.shiftRight_eq_div_pow]
  omega

theorem hartselIdx1_eq : (hartsel.extractLsb' 10 10).toNat = hartsel.toNat / 2 ^ 10 := by
  rw [BitVec.extractLsb'_toNat, Nat.shiftRight_eq_div_pow]
  omega

theorem hartselIdx2_eq : (hartsel.extractLsb' 15 5).toNat = hartsel.toNat / 2 ^ 15 := by
  rw [BitVec.extractLsb'_toNat, Nat.shiftRight_eq_div_pow]
  omega

section Summaries

variable {hartsel} (hwraps : ¬ WrapsWithHalted cfg halted hartsel)

include hwraps

theorem haltsum0_summarises :
    Summarises 1 (IsHalted halted) (hartsel.toNat / 2 ^ 5) (haltsum0 cfg halted hartsel) := by
  rw [haltsum0, hartselIdx0_eq]
  exact selected_summarises (haltedReshaped0_summarises _)
    (guard_of_someInGroup (Nat.two_pow_pos 10) rfl rfl hwraps)

theorem haltsum1_summarises :
    Summarises (2 ^ 5) (IsHalted halted) (hartsel.toNat / 2 ^ 10)
      (haltsum1 cfg halted hartsel) := by
  rw [haltsum1, hartselIdx1_eq]
  exact selected_summarises (haltedReshaped1_summarises _)
    (guard_of_someInGroup (Nat.two_pow_pos 5) rfl rfl hwraps)

theorem haltsum2_summarises :
    Summarises (2 ^ 10) (IsHalted halted) (hartsel.toNat / 2 ^ 15)
      (haltsum2 cfg halted hartsel) := by
  rw [haltsum2, hartselIdx2_eq]
  exact selected_summarises (haltedReshaped2_summarises _)
    (guard_of_someInGroup Nat.one_pos rfl rfl hwraps)

end Summaries

/-- The last summary is exact for every number of harts: its loop reaches every block. -/
theorem haltsum3_summarises :
    Summarises (2 ^ 15) (IsHalted halted) 0 (haltsum3 cfg halted) := by
  have hflat (block : ℕ) : (decide (block < cfg.nrHarts / 2 ^ 15 + 1) &&
      haltedReshaped2 cfg halted block != 0) = true ↔
      SomeInGroup (2 ^ 15) (IsHalted halted) block := by
    rw [Bool.and_eq_true, decide_eq_true_eq, bne_iff_ne,
      (haltedReshaped2_summarises block).ne_zero_iff (by decide)]
    refine and_iff_right_of_imp fun hsome ↦ ?_
    have hentries : block < entries cfg (2 ^ 15) := lt_entries_of_someInGroup hsome
    unfold entries at hentries
    omega
  have hsummary : Summarises (2 ^ 15) (IsHalted halted) 0 (packBits 32 _) :=
    packBits_summarises hflat 0
  rw [haltsum3]
  simpa only [Nat.mul_zero, Nat.zero_add] using hsummary

/-! ### The array accesses -/

theorem reductionAccesses_inRange {count target source : ℕ} (htarget : count ≤ target)
    (hsource : count ≤ source) :
    ∀ access ∈ reductionAccesses count target source, access.index < access.length := by
  intro access haccess
  obtain ⟨index, hindex, hentry⟩ := List.mem_flatMap.mp haccess
  have hcount := List.mem_range.mp hindex
  simp only [List.mem_cons, List.not_mem_nil, or_false] at hentry
  rcases hentry with rfl | rfl
  · exact hcount.trans_le htarget
  · exact hcount.trans_le hsource

theorem selectionAccesses_inRange (length index modulus : ℕ) :
    ∀ access ∈ selectionAccesses (length % modulus) length index,
      access.index < access.length := by
  intro access haccess
  unfold selectionAccesses at haccess
  split_ifs at haccess with hguard
  · rw [List.mem_singleton.mp haccess]
    exact hguard.trans_le (Nat.mod_le _ _)
  · cases haccess

theorem pHaltsum0Accesses_inRange :
    ∀ access ∈ pHaltsum0Accesses cfg hartsel, access.index < access.length := by
  intro access haccess
  rcases List.mem_cons.mp haccess with rfl | hselection
  · have hnrHarts := cfg.nrHarts_pos
    simp only [entries]
    omega
  · exact selectionAccesses_inRange _ _ _ access hselection

theorem pReduction1Accesses_inRange :
    ∀ access ∈ pReduction1Accesses cfg hartsel, access.index < access.length := by
  intro access haccess
  rcases List.mem_append.mp haccess with hloop | hselection
  · refine reductionAccesses_inRange ?_ le_rfl access hloop
    simp only [entries]
    omega
  · exact selectionAccesses_inRange _ _ _ access hselection

theorem pReduction2Accesses_inRange :
    ∀ access ∈ pReduction2Accesses cfg hartsel, access.index < access.length := by
  intro access haccess
  rcases List.mem_append.mp haccess with hloop | hselection
  · refine reductionAccesses_inRange ?_ le_rfl access hloop
    simp only [entries]
    omega
  · exact selectionAccesses_inRange _ _ _ access hselection

variable (cfg) in
/-- The loop of `p_reduction3` leaves its array exactly when the number of harts is a multiple of
32768: its last index is then the number of entries. -/
theorem pReduction3Accesses_inRange_iff :
    (∀ access ∈ pReduction3Accesses cfg, access.index < access.length) ↔
      ¬ 2 ^ 15 ∣ cfg.nrHarts := by
  have hpos := cfg.nrHarts_pos
  have hle := cfg.nrHarts_le
  constructor
  · intro hinRange hdvd
    have hlast : (⟨entries cfg (2 ^ 15), cfg.nrHarts / 2 ^ 15⟩ : ArrayAccess) ∈
        pReduction3Accesses cfg :=
      List.mem_flatMap.mpr ⟨cfg.nrHarts / 2 ^ 15, List.mem_range.mpr (Nat.lt_succ_self _),
        List.mem_cons_of_mem _ List.mem_cons_self⟩
    have hlt := hinRange _ hlast
    simp only [entries] at hlt
    omega
  · intro hdvd
    refine reductionAccesses_inRange ?_ ?_
    · omega
    · simp only [entries]
      omega

/-- No index of the four processes is outside its array, up to the multiples of 32768 harts. -/
theorem accesses_inRange_iff :
    (∀ access ∈ arrayAccesses cfg hartsel, access.index < access.length) ↔
      ¬ 2 ^ 15 ∣ cfg.nrHarts := by
  rw [← pReduction3Accesses_inRange_iff]
  constructor
  · intro hinRange access haccess
    exact hinRange access (List.mem_append_right _ haccess)
  · intro hthird access haccess
    simp only [arrayAccesses, List.mem_append] at haccess
    rcases haccess with ((hzeroth | hfirst) | hsecond) | hlast
    · exact pHaltsum0Accesses_inRange hartsel access hzeroth
    · exact pReduction1Accesses_inRange hartsel access hfirst
    · exact pReduction2Accesses_inRange hartsel access hsecond
    · exact hthird access hlast

/-! ### Exactness -/

variable (cfg halted) in
/-- The four summaries say which harts and groups of harts are halted, the bits of harts that do
not exist are clear, and no index is outside its array. -/
structure ExactSummaries : Prop where
  haltsum0_bit : ∀ index < 32, (haltsum0 cfg halted hartsel).getLsbD index =
    halted.getLsbD (32 * (hartsel.toNat / 32) + index)
  haltsum1_bit : ∀ index < 32, (haltsum1 cfg halted hartsel).getLsbD index = true ↔
    ∃ hart, hart / 32 = 32 * (hartsel.toNat / 1024) + index ∧ IsHalted halted hart
  haltsum2_bit : ∀ index < 32, (haltsum2 cfg halted hartsel).getLsbD index = true ↔
    ∃ hart, hart / 1024 = 32 * (hartsel.toNat / 32768) + index ∧ IsHalted halted hart
  haltsum3_bit : ∀ index < 32, (haltsum3 cfg halted).getLsbD index = true ↔
    ∃ hart, hart / 32768 = index ∧ IsHalted halted hart
  haltsum0_absent : ∀ index < 32, cfg.nrHarts ≤ 32 * (hartsel.toNat / 32) + index →
    (haltsum0 cfg halted hartsel).getLsbD index = false
  haltsum1_absent : ∀ index < 32, cfg.nrHarts ≤ 32 * (32 * (hartsel.toNat / 1024) + index) →
    (haltsum1 cfg halted hartsel).getLsbD index = false
  haltsum2_absent : ∀ index < 32, cfg.nrHarts ≤ 1024 * (32 * (hartsel.toNat / 32768) + index) →
    (haltsum2 cfg halted hartsel).getLsbD index = false
  haltsum3_absent : ∀ index < 32, cfg.nrHarts ≤ 32768 * index →
    (haltsum3 cfg halted).getLsbD index = false
  inRange : ∀ access ∈ arrayAccesses cfg hartsel, access.index < access.length

/-- The bit of a group that starts past the last hart is clear. -/
theorem absent_of_summarises {size block : ℕ} {word : BitVec 32}
    (hword : Summarises size (IsHalted halted) block word) (index : ℕ) (hindex : index < 32)
    (habsent : cfg.nrHarts ≤ size * (32 * block + index)) : word.getLsbD index = false := by
  rw [Bool.eq_false_iff]
  intro hset
  have hlt : size * (32 * block + index) < cfg.nrHarts :=
    ((hword index hindex).mp hset).mul_lt fun _ hhalted ↦ hhalted.lt
  omega

/-- The halt summaries are exact unless the number of harts is a multiple of 32768, or the bound of
`haltsum2` wraps and a hart of the selected block of 32768 is halted. -/
theorem exactSummaries_iff (cfg : Config) (halted : BitVec cfg.nrHarts) (hartsel : BitVec 20) :
    ExactSummaries cfg halted hartsel ↔
      ¬ 2 ^ 15 ∣ cfg.nrHarts ∧ ¬ WrapsWithHalted cfg halted hartsel := by
  constructor
  · intro hexact
    refine ⟨(accesses_inRange_iff hartsel).mp hexact.inRange, fun hwraps ↦ ?_⟩
    have hzero : haltsum2 cfg halted hartsel = 0 := by
      have hbound : ((cfg.nrHarts - 1) / 2 ^ 15 + 1) % 2 ^ 5 = 0 := by
        have hle := cfg.nrHarts_le
        have hlarge := hwraps.wraps
        omega
      simp only [haltsum2, hbound, Nat.not_lt_zero, if_false]
    obtain ⟨index, hindex, hsome⟩ : ∃ index < 32, SomeInGroup (2 ^ 10) (IsHalted halted)
        (32 * (hartsel.toNat / 2 ^ 15) + index) :=
      (someInGroup_mul (by decide) _).mp hwraps.halted
    have hset := (hexact.haltsum2_bit index hindex).mpr hsome
    rw [hzero] at hset
    simp at hset
  · rintro ⟨hdvd, hwraps⟩
    have hsummary0 := haltsum0_summarises hwraps
    have hsummary1 := haltsum1_summarises hwraps
    have hsummary2 := haltsum2_summarises hwraps
    have hsummary3 : Summarises (2 ^ 15) (IsHalted halted) 0 _ := haltsum3_summarises
    refine ⟨fun index hindex ↦ ?_, hsummary1, hsummary2, fun index hindex ↦ ?_,
      fun index hindex habsent ↦ ?_, absent_of_summarises hsummary1,
      absent_of_summarises hsummary2, fun index hindex habsent ↦ ?_,
      (accesses_inRange_iff hartsel).mpr hdvd⟩
    · have hbit := hsummary0 index hindex
      rw [someInGroup_one] at hbit
      exact Bool.eq_iff_iff.mpr hbit
    · have hbit := hsummary3 index hindex
      rwa [Nat.mul_zero, Nat.zero_add] at hbit
    · exact absent_of_summarises hsummary0 index hindex (by rwa [Nat.one_mul])
    · exact absent_of_summarises hsummary3 index hindex (by rwa [Nat.mul_zero, Nat.zero_add])

/-- With 32768 harts the last reduction reads the second of one entries. With one hart less than
2^20, hart 0 halted and selected, `haltsum2` is zero. -/
theorem lastBlock_fails :
    ¬ ExactSummaries (DmTop.zeroPage (2 ^ 15) (by decide) (by decide)) 0 0 ∧
      ¬ ExactSummaries (DmTop.zeroPage (2 ^ 20 - 1) (by decide) (by decide))
        (BitVec.twoPow (2 ^ 20 - 1) 0) 0 := by
  constructor
  · intro hexact
    exact (accesses_inRange_iff 0).mp hexact.inRange ⟨1, rfl⟩
  · intro hexact
    have hhalted : IsHalted (BitVec.twoPow (2 ^ 20 - 1) 0) 0 := by
      rw [IsHalted, BitVec.getLsbD_twoPow]
      rfl
    have hset := (hexact.haltsum2_bit 0 (by decide)).mpr ⟨0, rfl, hhalted⟩
    cases hset

end RiscvDebug.HaltSummary
