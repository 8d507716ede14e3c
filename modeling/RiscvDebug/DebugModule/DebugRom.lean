import RiscvDebug.Package

/-!
# The debug ROM

The two generated ROMs: `debug_rom`, for harts with two scratch registers, and
`debug_rom_one_scratch`, for a debug module at the zero page. Each holds its image as 64-bit words
and a registered word address.
-/

set_option autoImplicit false
set_option relaxedAutoImplicit false

namespace RiscvDebug

open Foundations

/-- The image of `debug_rom`, lowest word first. -/
def debugRomWords : List (BitVec 64) :=
  [0x000000130180006f, 0x000000130840006f, 0x000000130500006f, 0x7b2410730ff0000f,
    0x000005177b351073, 0x00c5151300c55513, 0x10852023f1402473, 0x4004440300a40433,
    0x02041c6300147413, 0x00a40433f1402473, 0x0024741340044403, 0xfd5ff06ffa0418e3,
    0x00c5551300000517, 0x10052c2300c51513, 0x7b2024737b302573, 0x1005242300100073,
    0x7b2024737b302573, 0xf1402473a79ff06f, 0x7b30257310852823, 0x7b2000737b202473]

/-- The image of `debug_rom_one_scratch`, lowest word first. -/
def debugRomOneScratchWords : List (BitVec 64) :=
  [0x000000130180006f, 0x000000130580006f, 0x000000130380006f, 0x7b2410730ff0000f,
    0x10802023f1402473, 0x0014741340044403, 0xf140247302041263, 0x0024741340044403,
    0xfddff06ffc0414e3, 0x7b20247310002c23, 0x1000242300100073, 0xaa5ff06f7b202473,
    0x10802823f1402473, 0x7b2000737b202473]

/-- The image of the ROM that `dm_mem` instantiates. -/
def Config.romWords (cfg : Config) : List (BitVec 64) :=
  if cfg.hasSndScratch then debugRomWords else debugRomOneScratchWords

theorem Config.length_romWords (cfg : Config) :
    cfg.romWords.length = 20 ∨ cfg.romWords.length = 14 := by
  rw [romWords]
  split_ifs
  · exact Or.inl rfl
  · exact Or.inr rfl

/-- `addr_d`, the registered word address of the ROM after a cycle. -/
def Config.romAddrNext (cfg : Config) (romAddr : ℕ) (req : Bool) (addr : BitVec 64) : ℕ :=
  if req then addr.toNat / 8 % 2 ^ clog2 cfg.romWords.length else romAddr

/-- `rdata_o` of the ROM. -/
def Config.romRdata (cfg : Config) (romAddr : ℕ) : BitVec 64 :=
  if romAddr < cfg.romWords.length then cfg.romWords[romAddr]?.getD 0 else 0

end RiscvDebug
