import Drupe.Lib.Checksum
import Drupe.Machine

/-!
# `Boot.Gdt` — the global descriptor table (`gdt.c`)

`gdtSetup` fills the table, loads it, and records a checksum of its 48 bytes; `gdtVerifyIntegrity` computes
the checksum again and compares. The table starts at an address that the linker gives, `gdtAddr`.
-/

namespace Drupe

open Lib

def gdtNullEntry : Nat := 0
def gdtKernelCodeEntry : Nat := 1
def gdtKernelDataEntry : Nat := 2
def gdtUserCodeEntry : Nat := 3
def gdtUserDataEntry : Nat := 4
def gdtTssEntry : Nat := 5

/-- `GDT_ENTRIES_COUNT` -/
abbrev gdtEntriesCount : Nat := 6

/-- `gdt_entry_t` -/
structure GdtEntry where
  limitLow : UInt16
  baseLow : UInt16
  baseMiddle : UInt8
  access : UInt8
  granularity : UInt8
  baseHigh : UInt8
deriving DecidableEq

/-- The bytes of a word in memory, the lowest first. -/
def bytes16 (w : UInt16) : List UInt8 := [w.toUInt8, (w >>> 8).toUInt8]

/-- The bytes of an entry in memory. -/
def GdtEntry.bytes (e : GdtEntry) : List UInt8 :=
  bytes16 e.limitLow ++ bytes16 e.baseLow ++ [e.baseMiddle, e.access, e.granularity, e.baseHigh]

/-- `gdt_ptr_t` -/
structure GdtPtr where
  limit : UInt16
  base : UInt32
deriving DecidableEq

/-- The static variables of `gdt.c`. -/
structure Gdt where
  gdtEntries : Vector GdtEntry gdtEntriesCount
  gdtPtr : GdtPtr
  gdtChecksum : UInt32
  gdtInitialized : Bool

/-- `sizeof(gdt_entry_t) * GDT_ENTRIES_COUNT - 1` -/
def gdtLimit : UInt16 := 8 * 6 - 1

/-- `gdt_entries[i]` -/
def Gdt.entry (g : Gdt) (i : Nat) : GdtEntry := g.gdtEntries[i]?.getD ⟨0, 0, 0, 0, 0, 0⟩

/-- `(uint8_t*)gdt_entries` -/
def gdtBytes (entries : Vector GdtEntry gdtEntriesCount) : List UInt8 := entries.toList.flatMap GdtEntry.bytes

/-- The body of the loop of `calculate_gdt_checksum`: add the byte, and rotate left. -/
def checksumStep (checksum : UInt32) (byte : UInt8) : UInt32 :=
  let checksum := checksum + byte.toUInt32
  (checksum <<< 1) ||| (checksum >>> 31)

def calculateGdtChecksum (entries : Vector GdtEntry gdtEntriesCount) : UInt32 :=
  (gdtBytes entries).foldl checksumStep 0

def gdtSetEntry (entries : Vector GdtEntry gdtEntriesCount) (index : Int) (base limit : UInt32)
    (access gran : UInt8) : Vector GdtEntry gdtEntriesCount :=
  if index < 0 ∨ index ≥ gdtEntriesCount then entries
  else entries.setIfInBounds index.toNat
    { baseLow := (base &&& 0xFFFF).toUInt16
      baseMiddle := ((base >>> 16) &&& 0xFF).toUInt8
      baseHigh := ((base >>> 24) &&& 0xFF).toUInt8
      limitLow := (limit &&& 0xFFFF).toUInt16
      granularity := ((limit >>> 16) &&& 0x0F).toUInt8 ||| (gran &&& 0xF0)
      access }

/-- The processor marks a descriptor that it loads as accessed. -/
def markAccessed (entries : Vector GdtEntry gdtEntriesCount) (i : Nat) : Vector GdtEntry gdtEntriesCount :=
  let e := entries[i]?.getD ⟨0, 0, 0, 0, 0, 0⟩
  entries.setIfInBounds i { e with access := e.access ||| 1 }

/-- `gdt_load` (`gdt_load.asm`): the selectors of the data segments are loaded, and then that of the code
    segment. -/
def gdtLoad (entries : Vector GdtEntry gdtEntriesCount) : Vector GdtEntry gdtEntriesCount :=
  markAccessed (markAccessed entries gdtKernelDataEntry) gdtKernelCodeEntry

def gdtVerifyIntegrity (gdtAddr : UInt32) (g : Gdt) : Bool :=
  if !g.gdtInitialized then false
  else if calculateGdtChecksum g.gdtEntries ≠ g.gdtChecksum then false
  else if (g.entry gdtNullEntry).limitLow ≠ 0 ∨ (g.entry gdtNullEntry).baseLow ≠ 0 ∨
      (g.entry gdtNullEntry).access ≠ 0 then false
  else if (g.entry gdtKernelCodeEntry).access &&& 0xFE ≠ 0x9A then false
  else if (g.entry gdtKernelDataEntry).access &&& 0xFE ≠ 0x92 then false
  else if (g.entry gdtUserCodeEntry).access &&& 0xFE ≠ 0xFA then false
  else if (g.entry gdtUserDataEntry).access &&& 0xFE ≠ 0xF2 then false
  else if g.gdtPtr.base ≠ gdtAddr ∨ g.gdtPtr.limit ≠ gdtLimit then false
  else true

/-- The table that `gdt_setup` loads. -/
def gdtTable : Vector GdtEntry gdtEntriesCount :=
  let entries := Vector.replicate gdtEntriesCount ⟨0, 0, 0, 0, 0, 0⟩
  let entries := gdtSetEntry entries gdtNullEntry 0 0 0 0
  let entries := gdtSetEntry entries gdtKernelCodeEntry 0 0xFFFFF 0x9A 0xCF
  let entries := gdtSetEntry entries gdtKernelDataEntry 0 0xFFFFF 0x92 0xCF
  let entries := gdtSetEntry entries gdtUserCodeEntry 0 0xFFFFF 0xFA 0xCF
  gdtSetEntry entries gdtUserDataEntry 0 0xFFFFF 0xF2 0xCF

/-- The part of `gdt_setup` that records the checksum. -/
def Gdt.record (g : Gdt) : Gdt :=
  { g with gdtChecksum := calculateGdtChecksum g.gdtEntries, gdtInitialized := true }

/-- The state that `gdt_setup` leaves; it returns what `gdt_verify_integrity` does there. -/
def gdtSetup (gdtAddr : UInt32) (g : Gdt) : Gdt × Bool :=
  let g := { g with gdtEntries := gdtTable, gdtPtr := ⟨gdtLimit, gdtAddr⟩ }
  let g := { g with gdtEntries := gdtLoad g.gdtEntries }
  let g := g.record
  (g, gdtVerifyIntegrity gdtAddr g)

/-! ## The checksum -/

/-- A rotation to the left, as a number. -/
theorem rotate_toNat (x : UInt32) :
    ((x <<< 1) ||| (x >>> 31)).toNat = if x.toNat < 2147483648 then 2 * x.toNat else 2 * x.toNat - 4294967295 := by
  have hx := x.toNat_lt
  have hone : ((1 : UInt32).toNat % 32) = 1 := rfl
  have h31 : ((31 : UInt32).toNat % 32) = 31 := rfl
  have heven : (2 * x.toNat) % 4294967296 = 2 ^ 1 * (x.toNat % 2147483648) := by omega
  rw [UInt32.toNat_or, UInt32.toNat_shiftLeft, UInt32.toNat_shiftRight, hone, h31, Nat.shiftLeft_eq,
    Nat.shiftRight_eq_div_pow, Nat.mul_comm x.toNat]
  show (2 * x.toNat) % 4294967296 ||| x.toNat / 2147483648 = _
  rw [heven, ← Nat.two_pow_add_eq_or_of_lt (show x.toNat / 2147483648 < 2 ^ 1 by omega)]
  split <;> omega

/-- A step, as a number. -/
theorem checksumStep_toNat (c : UInt32) (b : UInt8) :
    (checksumStep c b).toNat =
      if (c.toNat + b.toNat) % 4294967296 < 2147483648 then 2 * ((c.toNat + b.toNat) % 4294967296)
      else 2 * ((c.toNat + b.toNat) % 4294967296) - 4294967295 := by
  have hsum : (c + b.toUInt32).toNat = (c.toNat + b.toNat) % 4294967296 := by
    rw [UInt32.toNat_add, UInt8.toNat_toUInt32]
  unfold checksumStep
  simp only
  rw [rotate_toNat, hsum]

theorem checksumStep_injective_acc (b : UInt8) : Function.Injective fun c => checksumStep c b := by
  intro c c' h
  have hnat := congrArg UInt32.toNat h
  simp only [checksumStep_toNat] at hnat
  have hc := c.toNat_lt
  have hc' := c'.toNat_lt
  have hb := b.toNat_lt
  apply UInt32.toNat_inj.mp
  split at hnat <;> split at hnat <;> omega

theorem checksumStep_injective (c : UInt32) : Function.Injective (checksumStep c) := by
  intro b b' h
  have hnat := congrArg UInt32.toNat h
  simp only [checksumStep_toNat] at hnat
  have hc := c.toNat_lt
  have hb := b.toNat_lt
  have hb' := b'.toNat_lt
  apply UInt8.toNat_inj.mp
  split at hnat <;> split at hnat <;> omega

/-- Two tables that differ in one byte have different checksums. -/
theorem calculateGdtChecksum_ne {entries entries' : Vector GdtEntry gdtEntriesCount}
    (h : DifferInOne (gdtBytes entries) (gdtBytes entries')) :
    calculateGdtChecksum entries ≠ calculateGdtChecksum entries' :=
  h.foldl_ne checksumStep_injective_acc checksumStep_injective 0

end Drupe
