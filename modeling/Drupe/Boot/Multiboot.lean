import Mathlib.Data.Nat.Bitwise
import Drupe.Machine

/-!
# `Boot.Multiboot` — the memory map of the boot loader (`multiboot.c`)

The boot loader leaves an information structure in memory: a list of tags, each with a type and a size and
padded to 8 bytes. `mb2GetMemory` looks for the first memory-map tag and adds up its available entries.
-/

namespace Drupe

def multibootTagTypeEnd : UInt32 := 0
def multibootTagTypeMmap : UInt32 := 6
def multibootMemoryAvailable : UInt32 := 1

/-- The magic number a multiboot 2 loader passes. -/
def multiboot2Magic : UInt32 := 0x36d76289

/-- `sizeof(multiboot_tag_mmap_t)` -/
def mmapTagSize : UInt32 := 16

/-- The loop over the entries of a memory-map tag. It does not end when `entrySize` is 0 and there is an
    entry; a pointer takes `2^32` values, so more rounds than that are a loop without end. -/
def mmapLoop (m : Mem) (entrySize mmapEnd : UInt32) :
    (fuel : Nat) → (entryPtr : UInt32) → (availableMemory : UInt64) → Except Fault UInt64
  | 0, _, _ => .error .hang
  | fuel + 1, entryPtr, availableMemory =>
    if entryPtr < mmapEnd then
      let availableMemory :=
        if m.read32 (entryPtr + 16) = multibootMemoryAvailable then
          availableMemory + m.read64 (entryPtr + 8)
        else availableMemory
      mmapLoop m entrySize mmapEnd fuel (entryPtr + entrySize) availableMemory
    else .ok availableMemory

/-- The loop over the tags. `available_memory` is 0 until the first memory-map tag, which ends it. -/
def tagLoop (m : Mem) : (fuel : Nat) → (tag : UInt32) → Except Fault UInt64
  | 0, _ => .error .hang
  | fuel + 1, tag =>
    if m.read32 tag = multibootTagTypeEnd then .ok 0
    else if m.read32 tag = multibootTagTypeMmap then
      mmapLoop m (m.read32 (tag + 8)) (tag + m.read32 (tag + 4)) (2 ^ 32) (tag + mmapTagSize) 0
    else tagLoop m fuel (tag + ((m.read32 (tag + 4) + 7) &&& ~~~7))

def mb2GetMemory (m : Mem) (magic addr : UInt32) : Except Fault UInt64 :=
  if magic ≠ multiboot2Magic then .ok 0 else tagLoop m (2 ^ 32) (addr + 8)

end Drupe
