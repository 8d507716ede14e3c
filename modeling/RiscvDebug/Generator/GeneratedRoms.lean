import RiscvDebug.DebugModule.DmTop
import RiscvDebug.Generator.GenRom

/-!
# Generated ROMs return their image

The generated array holds the image (`byteAt_mem`), and so does the C array (`byteAt_resetVec`). The
access is guarded by the size cast to the width of the word address. When the number of words is a
power of two the cast leaves zero, and the module answers every request with zero
(`rdata_of_pow`); an image of one word leaves no address at all. Past the address range the array
repeats. `returnsImage_iff` is the exact condition under which every answer is the image's. The ROM
in a running debug module is the module generated from the bytes of its words
(`generatedRom_run`).
-/

set_option autoImplicit false
set_option relaxedAutoImplicit false

namespace RiscvDebug

open Foundations

namespace GenRom

/-! ### The text of the image -/

theorem everySecond_cons {α : Type*} (item : α) (rest : List α) :
    everySecond (item :: rest) = item :: everySecond (rest.drop 1) := by
  cases rest with
  | nil => rfl
  | cons next rest => rfl

theorem everySecond_digits (bytes : List (BitVec 8)) :
    everySecond (bytes.flatMap byteHex) =
        bytes.map (fun byte ↦ Nat.digitChar (byte.toNat / 16)) ∧
      everySecond ((bytes.flatMap byteHex).drop 1) =
        bytes.map (fun byte ↦ Nat.digitChar (byte.toNat % 16)) := by
  induction bytes with
  | nil => exact ⟨rfl, rfl⟩
  | cons byte bytes ih =>
    obtain ⟨hhigh, hlow⟩ := ih
    rw [List.flatMap_cons, List.map_cons, List.map_cons, ← hhigh, ← hlow]
    exact ⟨rfl, everySecond_cons _ _⟩

/-- The image filled up to whole 64-bit words. -/
def padded (image : RomImage) : List (BitVec 8) :=
  image.bytes ++ List.replicate (image.rows * 8 - image.bytes.length) 0

theorem length_padded (image : RomImage) : (padded image).length = 8 * image.rows := by
  rw [padded, List.length_append, List.length_replicate, RomImage.rows]
  omega

theorem getD_padded (image : RomImage) (index : ℕ) :
    (padded image).getD index 0 = image.byte index := by
  rw [padded, RomImage.byte]
  by_cases hindex : index < image.bytes.length
  · exact List.getD_append _ _ _ _ hindex
  · rw [not_lt] at hindex
    rw [List.getD_append_right _ _ _ _ hindex, List.getD_eq_default _ _ hindex,
      List.getD_eq_getElem?_getD, List.getElem?_replicate]
    split_ifs
    · rfl
    · rfl

/-- The text that `read_bin` returns is that of the filled image. -/
theorem readBin_eq (image : RomImage) : readBin image = (padded image).map byteHex := by
  obtain ⟨hhigh, hlow⟩ := everySecond_digits image.bytes
  have hrom : ((everySecond (image.bytes.flatMap byteHex)).zip
      (everySecond ((image.bytes.flatMap byteHex).drop 1))).map (fun pair ↦ [pair.1, pair.2]) =
        image.bytes.map byteHex := by
    rw [hhigh, hlow, List.zip_map', List.map_map]
    rfl
  rw [readBin, hrom, List.length_map, padded, List.map_append, List.map_replicate]
  rfl

theorem length_readBin (image : RomImage) : (readBin image).length = 8 * image.rows := by
  rw [readBin_eq, List.length_map, length_padded]

/-- The little-endian number of some bytes of the filled image. -/
def slice (image : RomImage) (first count : ℕ) : List (BitVec 8) :=
  ((padded image).drop first).take count

theorem getD_slice (image : RomImage) (first : ℕ) {count lane : ℕ} (hlane : lane < count) :
    (slice image first count).getD lane 0 = image.byte (first + lane) := by
  rw [← getD_padded, slice, List.getD_eq_getElem?_getD, List.getElem?_take_of_lt hlane,
    List.getElem?_drop, List.getD_eq_getElem?_getD]

theorem joinReversed_readBin (image : RomImage) (first count : ℕ) :
    joinReversed (readBin image) first (first + count) =
      ((slice image first count).map byteHex).reverse.flatten := by
  rw [joinReversed, readBin_eq, Nat.add_sub_cancel_left, ← List.map_drop, ← List.map_take, slice]

/-- The digits of a word of the array, without its separator. -/
theorem joinReversed_append (image : RomImage) (first : ℕ) :
    joinReversed (readBin image) (first + 4) (first + 8) ++
        joinReversed (readBin image) first (first + 4) =
      ((slice image first 8).map byteHex).reverse.flatten := by
  have hslice : slice image first 8 = slice image first 4 ++ slice image (first + 4) 4 := by
    rw [slice, slice, slice, ← List.drop_drop]
    exact List.take_add (i := 4) (j := 4)
  rw [show first + 8 = first + 4 + 4 by omega, joinReversed_readBin, joinReversed_readBin, hslice,
    List.map_append, List.reverse_append, List.flatten_append]

/-! ### The arrays -/

theorem addrWidth_svModule (image : RomImage) :
    (svModule image).addrWidth = clog2 image.rows := by
  rw [Emitted.addrWidth, svModule, length_readBin, Nat.mul_div_cancel_left _ (by decide)]

theorem size_svModule (image : RomImage) : (svModule image).size = image.rows := by
  rw [svModule, length_readBin, Nat.mul_div_cancel_left _ (by decide)]

theorem size_cVar (image : RomImage) : (cVar image).size = 2 * image.rows := by
  have hlength := length_readBin image
  show (readBin image).length / 4 = 2 * image.rows
  omega

/-- The words of the packed array, lowest first. -/
theorem hexValue_svModule (image : RomImage) :
    (svModule image).content.map hexValue =
      ((List.range image.rows).map fun row ↦ littleEndian (slice image (8 * row) 8)).reverse := by
  rw [svModule, length_readBin, Nat.mul_div_cancel_left _ (by decide), List.map_map,
    ← List.map_reverse]
  refine List.map_congr_left fun row _ ↦ ?_
  rw [Function.comp_apply, hexValue_separated, joinReversed_append, hexValue_reverse]

/-- The values over a range are found past its end too, when they are zero there. -/
theorem getD_map_range (value : ℕ → ℕ) (count index : ℕ)
    (houtside : count ≤ index → value index = 0) :
    ((List.range count).map value).getD index 0 = value index := by
  rw [List.getD_eq_getElem?_getD, List.getElem?_map]
  by_cases hindex : index < count
  · rw [List.getElem?_range hindex]
    rfl
  · rw [not_lt] at hindex
    rw [List.getElem?_eq_none (by rw [List.length_range]; exact hindex), houtside hindex]
    rfl

/-- The packed array holds the image, byte by byte. -/
theorem byteAt_mem (image : RomImage) (row : ℕ) {lane : ℕ} (hlane : lane < 8) :
    byteAt ((svModule image).mem row) lane = image.byte (8 * row + lane) := by
  have hword : (svModule image).mem row =
      BitVec.ofNat 64 (littleEndian (slice image (8 * row) 8)) := by
    apply BitVec.eq_of_toNat_eq
    rw [Emitted.mem, BitVec.toNat_ofNat, BitVec.toNat_ofNat, hexValue_svModule,
      concatWords_reverse_div, getD_map_range]
    intro houtside
    have hlength := length_padded image
    rw [slice, List.drop_eq_nil_of_le (by omega)]
    rfl
  rw [hword, byteAt_littleEndian _ (by omega), getD_slice image _ hlane]

/-- So does the C array. -/
theorem byteAt_resetVec (image : RomImage) {index lane : ℕ} (hindex : index < (cVar image).size)
    (hlane : lane < 4) :
    byteAt ((cVar image).resetVec index) lane = image.byte (4 * index + lane) := by
  have hdigits : (cVar image).content.getD index [] =
      ((slice image (4 * index) 4).map byteHex).reverse.flatten := by
    have hrange : (List.range ((readBin image).length / 4))[index]? = some index :=
      List.getElem?_range hindex
    rw [← joinReversed_readBin, List.getD_eq_getElem?_getD, cVar, List.getElem?_map, hrange]
    rfl
  rw [Emitted.resetVec, hdigits, hexValue_reverse, byteAt_littleEndian _ (by omega),
    getD_slice image _ hlane]

/-! ### The guarded access -/

theorem two_le_rows_iff (image : RomImage) : (svModule image).Elaborates ↔ 2 ≤ image.rows := by
  rw [Emitted.Elaborates, addrWidth_svModule, clog2]
  split_ifs with hsmall
  · omega
  · omega

theorem clog2_rows_le (image : RomImage) : clog2 image.rows ≤ 8 := by
  have hlength := image.length_le
  refine clog2_le_of_le_two_pow ?_
  rw [RomImage.rows]
  omega

/-- A number of words that is a power of two leaves nothing of the guard. -/
theorem rdata_of_pow {image : RomImage} (hpow : image.rows = 2 ^ clog2 image.rows) (addrQ : ℕ) :
    (svModule image).rdata addrQ = 0 := by
  rw [Emitted.rdata, size_svModule, addrWidth_svModule, ← hpow, Nat.mod_self]
  exact if_neg (Nat.not_lt_zero addrQ)

theorem byte_of_rows_le {image : RomImage} {row : ℕ} (hrow : image.rows ≤ row) (lane : ℕ) :
    image.byte (8 * row + lane) = 0 := by
  rw [RomImage.rows] at hrow
  exact List.getD_eq_default _ _ (by omega)

/-- With any other number the access returns the row of the image. -/
theorem byteAt_rdata {image : RomImage} (hpow : image.rows ≠ 2 ^ clog2 image.rows) (addrQ : ℕ)
    {lane : ℕ} (hlane : lane < 8) :
    byteAt ((svModule image).rdata addrQ) lane = image.byte (8 * addrQ + lane) := by
  have hfits : image.rows < 2 ^ clog2 image.rows := (le_two_pow_clog2 image.rows).lt_of_ne hpow
  rw [Emitted.rdata, size_svModule, addrWidth_svModule, Nat.mod_eq_of_lt hfits]
  split_ifs with hguard
  · exact byteAt_mem image addrQ hlane
  · rw [byteAt_zero, byte_of_rows_le (not_lt.mp hguard)]

/-- A row of the image that is zero throughout. -/
def RowZero (image : RomImage) (row : ℕ) : Prop := ∀ lane < 8, image.byte (8 * row + lane) = 0

/-- The rows whose requests find their bytes. With a power of two these are the zero rows. Else
they are the rows of the address range, and those past it that fall on a zero row. -/
def RowServed (image : RomImage) (row : ℕ) : Prop :=
  if image.rows = 2 ^ clog2 image.rows then RowZero image row
  else row < 2 ^ clog2 image.rows ∨ RowZero image (row % 2 ^ clog2 image.rows)

/-- The bytes of a row are found in the array exactly when the row is served. -/
theorem rowServed_iff (image : RomImage) (row : ℕ) :
    RowServed image row ↔ ∀ lane < 8,
      byteAt ((svModule image).rdata (row % 2 ^ clog2 image.rows)) lane =
        image.byte (8 * row + lane) := by
  rw [RowServed]
  split_ifs with hpow
  · simp only [rdata_of_pow hpow, byteAt_zero]
    exact forall₂_congr fun lane _ ↦ eq_comm
  · have hread (lane : ℕ) (hlane : lane < 8) := byteAt_rdata hpow (row % 2 ^ clog2 image.rows) hlane
    rcases lt_or_ge row (2 ^ clog2 image.rows) with hinside | houtside
    · rw [Nat.mod_eq_of_lt hinside] at hread ⊢
      exact iff_of_true (Or.inl hinside) hread
    · have hrow : image.rows ≤ row := (le_two_pow_clog2 image.rows).trans houtside
      constructor
      · rintro (hinside | hzero) lane hlane
        · omega
        · rw [hread lane hlane, hzero lane hlane, byte_of_rows_le hrow]
      · intro hfound
        refine Or.inr fun lane hlane ↦ ?_
        rw [← hread lane hlane, hfound lane hlane, byte_of_rows_le hrow]

/-! ### Runs -/

/-- The base of the ROM, a multiple of the 2 KiB that the debug memory leaves to it. -/
def romBase (page : BitVec 53) : BitVec 64 := page ++ 0#11

/-- The byte offset of a request from the base. -/
def offset (page : BitVec 53) (i : Emitted.Inputs) : ℕ := (i.addr - romBase page).toNat

/-- The address bits of the array are those of the offset. -/
theorem addrNext_of_req {image : RomImage} {i : Emitted.Inputs} (hreq : i.req = true)
    (page : BitVec 53) (addrQ : ℕ) :
    (svModule image).addrNext addrQ i = offset page i / 8 % 2 ^ clog2 image.rows := by
  have hbase : (romBase page).toNat = 2048 * page.toNat := by
    rw [romBase, BitVec.toNat_append, Nat.shiftLeft_eq]
    show page.toNat * 2048 ||| 0 = _
    rw [Nat.or_zero, Nat.mul_comm]
  have hlow : i.addr.toNat / 8 % 2 ^ 8 = offset page i / 8 % 2 ^ 8 := by
    rw [offset, BitVec.toNat_sub, hbase]
    have hpage := page.isLt
    omega
  have hdvd : 2 ^ clog2 image.rows ∣ 2 ^ 8 := pow_dvd_pow 2 (clog2_rows_le image)
  rw [Emitted.addrNext, addrWidth_svModule, if_pos hreq, ← Nat.mod_mod_of_dvd _ hdvd, hlow,
    Nat.mod_mod_of_dvd _ hdvd]

/-- What the generator promises of an image, for a base and a run of the emitted module: the
module elaborates, each request is answered in the next cycle with the eight bytes of its row, and
the C array lists the bytes as 32-bit words. -/
structure ReturnsImage (image : RomImage) (page : BitVec 53) (inputs : ℕ → Emitted.Inputs) :
    Prop where
  elaborates : (svModule image).Elaborates
  answers : ∀ time, (inputs time).req = true → ∀ lane < 8,
    byteAt ((svModule image).rdata ((svModule image).machine.states inputs (time + 1))) lane =
      image.byte (8 * (offset page (inputs time) / 8) + lane)
  length_content : (cVar image).content.length = (cVar image).size
  length_le : image.bytes.length ≤ 4 * (cVar image).size
  lists : ∀ index < (cVar image).size, ∀ lane < 4,
    byteAt ((cVar image).resetVec index) lane = image.byte (4 * index + lane)

/-- The runs that find the image: it has two rows or more, and every request is for a row that is
served. -/
def Served (image : RomImage) (page : BitVec 53) (inputs : ℕ → Emitted.Inputs) : Prop :=
  2 ≤ image.rows ∧
    ∀ time, (inputs time).req = true → RowServed image (offset page (inputs time) / 8)

/-- The row a request is answered with, in any run. -/
theorem answers_iff (image : RomImage) (page : BitVec 53) {inputs : ℕ → Emitted.Inputs} {time : ℕ}
    (hreq : (inputs time).req = true) :
    RowServed image (offset page (inputs time) / 8) ↔ ∀ lane < 8,
      byteAt ((svModule image).rdata ((svModule image).machine.states inputs (time + 1))) lane =
        image.byte (8 * (offset page (inputs time) / 8) + lane) := by
  have haddr : (svModule image).machine.states inputs (time + 1) =
      offset page (inputs time) / 8 % 2 ^ clog2 image.rows := addrNext_of_req hreq page _
  rw [haddr]
  exact rowServed_iff image _

/-- A run finds the image exactly when the image has two rows or more and every requested row is
served. -/
theorem returnsImage_iff (image : RomImage) (page : BitVec 53) (inputs : ℕ → Emitted.Inputs) :
    ReturnsImage image page inputs ↔ Served image page inputs := by
  constructor
  · intro hreturns
    exact ⟨(two_le_rows_iff image).mp hreturns.elaborates,
      fun time hreq ↦ (answers_iff image page hreq).mpr (hreturns.answers time hreq)⟩
  · rintro ⟨hrows, hserved⟩
    have hrom : image.rows = (image.bytes.length + 7) / 8 := rfl
    refine ⟨(two_le_rows_iff image).mpr hrows,
      fun time hreq ↦ (answers_iff image page hreq).mp (hserved time hreq), ?_, ?_,
      fun index hindex lane hlane ↦ byteAt_resetVec image hindex hlane⟩
    · rw [cVar, List.length_map, List.length_range]
    · rw [size_cVar]
      omega

/-- An image of sixteen bytes, two rows. -/
def twoRows : RomImage where
  bytes := List.replicate 16 1
  nonempty := by decide
  length_le := by decide

/-- The module for two rows answers every request with zero. -/
theorem twoRows_answer_zero :
    ¬ ReturnsImage twoRows 0 fun _ ↦ ⟨true, romBase 0⟩ := by
  intro hreturns
  have hanswer := hreturns.answers 0 rfl 0 (by decide)
  rw [rdata_of_pow (by decide), byteAt_zero] at hanswer
  exact absurd hanswer (by decide)

/-! ### The ROMs of the debug module -/

/-- The bytes of 64-bit words, lowest first. -/
def wordBytes (words : List (BitVec 64)) : List (BitVec 8) :=
  words.flatMap fun word ↦ (List.range 8).map (byteAt word)

theorem length_wordBytes (words : List (BitVec 64)) :
    (wordBytes words).length = 8 * words.length := by
  rw [wordBytes, List.length_flatMap]
  simp [Nat.mul_comm]

theorem getD_wordBytes (words : List (BitVec 64)) (row : ℕ) {lane : ℕ} (hlane : lane < 8) :
    (wordBytes words).getD (8 * row + lane) 0 = byteAt (words.getD row 0) lane := by
  induction words generalizing row with
  | nil => exact (byteAt_zero lane).symm
  | cons word words ih =>
    have hlength : ((List.range 8).map (byteAt word)).length = 8 := rfl
    rw [wordBytes, List.flatMap_cons]
    cases row with
    | zero =>
      rw [List.getD_append _ _ _ _ (by omega), List.getD_eq_getElem?_getD, List.getElem?_map,
        List.getElem?_range (by omega), Nat.mul_zero, Nat.zero_add]
      rfl
    | succ row =>
      rw [List.getD_append_right _ _ _ _ (by omega), hlength,
        show 8 * (row + 1) + lane - 8 = 8 * row + lane by omega]
      exact ih row

end GenRom

open GenRom

namespace Config

variable (cfg : Config)

/-- The binary image of the ROM that `dm_mem` instantiates. -/
def romImage : RomImage where
  bytes := wordBytes cfg.romWords
  nonempty := by
    have hlength := cfg.length_romWords
    rw [← List.length_pos_iff, length_wordBytes]
    omega
  length_le := by
    have hlength := cfg.length_romWords
    rw [length_wordBytes]
    omega

theorem rows_romImage : cfg.romImage.rows = cfg.romWords.length := by
  show ((wordBytes cfg.romWords).length + 7) / 8 = _
  rw [length_wordBytes]
  omega

/-- Neither ROM has a number of words that is a power of two. -/
theorem rows_ne_pow : cfg.romImage.rows ≠ 2 ^ clog2 cfg.romImage.rows := by
  rw [rows_romImage]
  rcases cfg.length_romWords with hrows | hrows
  · rw [hrows]
    decide
  · rw [hrows]
    decide

/-- The module generated from the image registers the word address of the ROM. -/
theorem addrNext_romImage (romAddr : ℕ) (req : Bool) (addr : BitVec 64) :
    (svModule cfg.romImage).addrNext romAddr ⟨req, addr⟩ = cfg.romAddrNext romAddr req addr := by
  rw [Emitted.addrNext, addrWidth_svModule, cfg.rows_romImage, romAddrNext]

/-- It returns the words of the ROM. -/
theorem rdata_romImage (romAddr : ℕ) :
    (svModule cfg.romImage).rdata romAddr = cfg.romRdata romAddr := by
  have hword : cfg.romRdata romAddr = cfg.romWords.getD romAddr 0 := by
    rw [romRdata, List.getD_eq_getElem?_getD]
    split_ifs with hinside
    · rfl
    · rw [List.getElem?_eq_none (not_lt.mp hinside)]
      rfl
  refine eq_of_byteAt fun lane hlane ↦ ?_
  rw [byteAt_rdata cfg.rows_ne_pow romAddr (by omega), hword, ← getD_wordBytes _ _ (by omega)]
  rfl

end Config

namespace DmTop

variable {cfg : Config}

/-- The requests of the harts, as the ROM gets them. -/
def romInputs (i : Inputs cfg) : Emitted.Inputs := ⟨i.slave.req, i.slave.addr.setWidth 64⟩

/-- In every run of the debug module its ROM does what the generated module does. -/
theorem generatedRom_run (inputs : ℕ → Inputs cfg) (time : ℕ) :
    (run inputs time).mem.romAddr =
        (svModule cfg.romImage).machine.states (fun cycle ↦ romInputs (inputs cycle)) time ∧
      cfg.romRdata (run inputs time).mem.romAddr = (svModule cfg.romImage).rdata
        ((svModule cfg.romImage).machine.states (fun cycle ↦ romInputs (inputs cycle)) time) := by
  have haddress : (run inputs time).mem.romAddr =
      (svModule cfg.romImage).machine.states (fun cycle ↦ romInputs (inputs cycle)) time := by
    induction time with
    | zero => rfl
    | succ time ih =>
      rw [run_succ, ClockedMachine.states_succ, ← ih]
      exact (cfg.addrNext_romImage _ _ _).symm
  refine ⟨haddress, ?_⟩
  rw [← haddress, cfg.rdata_romImage]

end DmTop

end RiscvDebug
