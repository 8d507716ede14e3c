import RiscvDebug.Foundations.ClockedMachine
import RiscvDebug.Foundations.Hexadecimal

/-!
# The generator of the debug ROM

`gen_rom.py` reads a binary image and fills two templates: a SystemVerilog module and a C array.
Each gets the number of its words and their hexadecimal texts (`Emitted`). The module is a packed
array, highest word first, behind a registered word address.
-/

set_option autoImplicit false
set_option relaxedAutoImplicit false

namespace RiscvDebug

open Foundations

/-- A binary image of at most 2 KiB. -/
structure RomImage where
  bytes : List (BitVec 8)
  nonempty : bytes ≠ []
  length_le : bytes.length ≤ 2048

namespace RomImage

/-- The byte at an index of the image, zero past its end. -/
def byte (image : RomImage) (index : ℕ) : BitVec 8 := image.bytes.getD index 0

/-- The number of 64-bit words that hold the image. -/
def rows (image : RomImage) : ℕ := (image.bytes.length + 7) / 8

end RomImage

namespace GenRom

/-! ### Reading and writing -/

/-- The slice `[::2]`. -/
def everySecond {α : Type*} : List α → List α
  | [] => []
  | [item] => [item]
  | item :: _ :: rest => item :: everySecond rest

/-- `read_bin`: the two digits of each byte, filled up to whole 64-bit words. -/
def readBin (image : RomImage) : List (List Char) :=
  let digits := image.bytes.flatMap byteHex
  let rom := ((everySecond digits).zip (everySecond (digits.drop 1))).map fun pair ↦
    [pair.1, pair.2]
  let align := (rom.length + 7) / 8 * 8
  rom ++ List.replicate (align - rom.length) ['0', '0']

/-- The slice `[first:last]`, reversed and joined. -/
def joinReversed (rom : List (List Char)) (first last : ℕ) : List Char :=
  ((rom.drop first).take (last - first)).reverse.flatten

/-- The values that fill a template: `size`, and the digits of each word of `content`. -/
structure Emitted where
  size : ℕ
  content : List (List Char)

/-- The values for the C template `c_var`. -/
def cVar (image : RomImage) : Emitted where
  size := (readBin image).length / 4
  content := (List.range ((readBin image).length / 4)).map fun index ↦
    joinReversed (readBin image) (4 * index) (4 * index + 4)

/-- The values for the SystemVerilog template `module`. -/
def svModule (image : RomImage) : Emitted where
  size := (readBin image).length / 8
  content := (List.range ((readBin image).length / 8)).reverse.map fun index ↦
    joinReversed (readBin image) (8 * index + 4) (8 * index + 8) ++ ['_'] ++
      joinReversed (readBin image) (8 * index) (8 * index + 4)

namespace Emitted

variable (emitted : Emitted)

/-- `reset_vec[index]` of the C array. -/
def resetVec (index : ℕ) : BitVec 32 := BitVec.ofNat 32 (hexValue (emitted.content.getD index []))

/-! ### The SystemVerilog module -/

/-- The inputs of the module in one clock cycle. -/
structure Inputs where
  req : Bool
  addr : BitVec 64

/-- `$clog2(RomSize)`, the width of the word address. -/
def addrWidth : ℕ := clog2 emitted.size

/-- Without address bits the slice `addr_i[2:3]` runs backwards and the cast `0'(RomSize)` has no
width; a tool refuses both. -/
def Elaborates : Prop := 0 < emitted.addrWidth

/-- The packed array `mem`. -/
def mem (index : ℕ) : BitVec 64 :=
  BitVec.ofNat 64 (concatWords 64 (emitted.content.map hexValue) / 2 ^ (64 * index))

/-- `addr_d`, the registered word address after a cycle. -/
def addrNext (addrQ : ℕ) (i : Inputs) : ℕ :=
  if i.req then i.addr.toNat / 8 % 2 ^ emitted.addrWidth else addrQ

/-- `rdata_o`. The size that guards the access is cast to the width of the word address. -/
def rdata (addrQ : ℕ) : BitVec 64 :=
  if addrQ < emitted.size % 2 ^ emitted.addrWidth then emitted.mem addrQ else 0

/-- The module as a machine whose only register is the word address. -/
def machine : ClockedMachine ℕ Inputs := ⟨0, emitted.addrNext⟩

end Emitted

end GenRom

end RiscvDebug
