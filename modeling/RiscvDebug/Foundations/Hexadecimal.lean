import RiscvDebug.Foundations.BitVectors

/-!
# Hexadecimal text and little-endian words

Bytes written as hexadecimal text (`byteHex`), the number a text denotes (`hexValue`), and the
number a list of bytes denotes, lowest byte first (`littleEndian`). Written in reverse order the
bytes of a word are its text (`hexValue_reverse`), and each byte is found in its lane
(`byteAt_littleEndian`). Words concatenated from the highest to the lowest are found by their index
in the same way (`concatWords_reverse_div`).
-/

set_option autoImplicit false
set_option relaxedAutoImplicit false

namespace RiscvDebug.Foundations

/-! ### Digits -/

/-- The digit at an index of the number that the digits denote, lowest first. -/
theorem digit_of_ofDigits {base : ℕ} {digits : List ℕ} (hbase : 0 < base)
    (hdigits : ∀ digit ∈ digits, digit < base) (index : ℕ) :
    Nat.ofDigits base digits / base ^ index % base = digits.getD index 0 := by
  rw [Nat.ofDigits_div_pow_eq_ofDigits_drop index hbase digits hdigits, Nat.ofDigits_mod_eq_head!,
    List.head!_eq_head?_getD, List.head?_drop, List.getD_eq_getElem?_getD]
  cases hdigit : digits[index]? with
  | none => exact Nat.zero_mod base
  | some digit => exact Nat.mod_eq_of_lt (hdigits digit (List.mem_of_getElem? hdigit))

/-- The value of a hexadecimal digit. -/
def hexDigit (digit : Char) : ℕ :=
  if digit ≤ '9' then digit.toNat - '0'.toNat
  else if digit ≤ 'F' then digit.toNat - 'A'.toNat + 10
  else digit.toNat - 'a'.toNat + 10

theorem hexDigit_digitChar {value : ℕ} (hvalue : value < 16) :
    hexDigit (Nat.digitChar value) = value := by
  interval_cases value <;> rfl

/-- The digits of a value are not the separator. -/
theorem digitChar_ne_separator {value : ℕ} (hvalue : value < 16) : Nat.digitChar value ≠ '_' := by
  interval_cases value <;> decide

/-! ### Text -/

/-- The number a hexadecimal text denotes after the digits before it. Underscores separate. -/
def hexFrom (value : ℕ) (text : List Char) : ℕ :=
  text.foldl (fun value digit ↦ if digit = '_' then value else 16 * value + hexDigit digit) value

/-- The number a hexadecimal text denotes. -/
def hexValue (text : List Char) : ℕ := hexFrom 0 text

theorem hexFrom_append (value : ℕ) (first last : List Char) :
    hexFrom value (first ++ last) = hexFrom (hexFrom value first) last :=
  List.foldl_append

/-- The two lower-case digits of a byte. -/
def byteHex (byte : BitVec 8) : List Char :=
  [Nat.digitChar (byte.toNat / 16), Nat.digitChar (byte.toNat % 16)]

theorem hexFrom_byteHex (value : ℕ) (byte : BitVec 8) :
    hexFrom value (byteHex byte) = byte.toNat + 256 * value := by
  have hhigh : byte.toNat / 16 < 16 := by
    have hbyte := byte.isLt
    omega
  have hlow : byte.toNat % 16 < 16 := Nat.mod_lt _ (by decide)
  rw [byteHex, hexFrom, List.foldl_cons, List.foldl_cons, List.foldl_nil,
    if_neg (digitChar_ne_separator hhigh), if_neg (digitChar_ne_separator hlow),
    hexDigit_digitChar hhigh, hexDigit_digitChar hlow]
  omega

/-- A separator between two texts changes nothing. -/
theorem hexValue_separated (first last : List Char) :
    hexValue (first ++ ['_'] ++ last) = hexValue (first ++ last) := by
  have hseparator : hexFrom (hexFrom 0 first) ['_'] = hexFrom 0 first := rfl
  rw [hexValue, hexValue, hexFrom_append, hexFrom_append, hexFrom_append, hseparator]

/-! ### Little-endian words -/

/-- The number a list of bytes denotes, lowest byte first. -/
def littleEndian (bytes : List (BitVec 8)) : ℕ := Nat.ofDigits 256 (bytes.map BitVec.toNat)

/-- The text of the bytes in reverse order denotes the little-endian number. -/
theorem hexValue_reverse (bytes : List (BitVec 8)) :
    hexValue (bytes.map byteHex).reverse.flatten = littleEndian bytes := by
  induction bytes with
  | nil => rfl
  | cons byte bytes ih =>
    rw [hexValue] at ih ⊢
    rw [List.map_cons, List.reverse_cons, List.flatten_append, List.flatten_singleton,
      hexFrom_append, ih, hexFrom_byteHex, littleEndian, littleEndian, List.map_cons,
      Nat.ofDigits_cons]

variable {width : ℕ}

/-- A word with a little-endian number holds each byte in its lane. -/
theorem byteAt_littleEndian (bytes : List (BitVec 8)) {lane : ℕ} (hlane : 8 * lane + 8 ≤ width) :
    byteAt (BitVec.ofNat width (littleEndian bytes)) lane = bytes.getD lane 0 := by
  have hbytes : ∀ digit ∈ bytes.map BitVec.toNat, digit < 256 := by
    intro digit hdigit
    obtain ⟨byte, -, rfl⟩ := List.mem_map.mp hdigit
    exact byte.isLt
  have hdigit : littleEndian bytes / 2 ^ (8 * lane) % 2 ^ 8 = (bytes.getD lane 0).toNat := by
    rw [pow_mul, show 2 ^ 8 = 256 by decide, littleEndian, digit_of_ofDigits (by decide) hbytes,
      List.getD_eq_getElem?_getD, List.getElem?_map, List.getD_eq_getElem?_getD]
    cases bytes[lane]? with
    | none => rfl
    | some byte => rfl
  refine BitVec.eq_of_getLsbD_eq fun index hindex ↦ ?_
  rw [getLsbD_byteAt _ _ hindex, BitVec.getLsbD_ofNat, decide_eq_true (by omega), Bool.true_and,
    ← BitVec.testBit_toNat, ← hdigit, Nat.testBit_mod_two_pow, Nat.testBit_div_two_pow,
    decide_eq_true hindex, Bool.true_and, Nat.add_comm]

/-! ### Concatenated words -/

/-- The number that words of one width denote when they are concatenated, highest word first. -/
def concatWords (width : ℕ) (words : List ℕ) : ℕ :=
  words.foldl (fun value word ↦ 2 ^ width * value + word % 2 ^ width) 0

theorem concatWords_reverse (words : List ℕ) :
    concatWords width words.reverse = Nat.ofDigits (2 ^ width) (words.map (· % 2 ^ width)) := by
  rw [concatWords, List.foldl_reverse]
  induction words with
  | nil => rfl
  | cons word words ih =>
    rw [List.foldr_cons, ih, List.map_cons, Nat.ofDigits_cons, Nat.add_comm]

/-- The word at an index of the concatenation, counted from the lowest. -/
theorem concatWords_reverse_div (words : List ℕ) (index : ℕ) :
    concatWords width words.reverse / 2 ^ (width * index) % 2 ^ width =
      words.getD index 0 % 2 ^ width := by
  have hwords : ∀ digit ∈ words.map (· % 2 ^ width), digit < 2 ^ width := by
    intro digit hdigit
    obtain ⟨word, -, rfl⟩ := List.mem_map.mp hdigit
    exact Nat.mod_lt _ (Nat.two_pow_pos width)
  rw [concatWords_reverse, pow_mul, digit_of_ofDigits (Nat.two_pow_pos width) hwords,
    List.getD_eq_getElem?_getD, List.getElem?_map, List.getD_eq_getElem?_getD]
  cases words[index]? with
  | none => exact (Nat.zero_mod _).symm
  | some word => rfl

end RiscvDebug.Foundations
