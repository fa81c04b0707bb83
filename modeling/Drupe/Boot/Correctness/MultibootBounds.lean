import Drupe.Boot.Correctness.AvailableMemory
import Drupe.Lib.Iterate

/-!
# `Boot.Correctness.MultibootBounds` — the information structure is read as far as it says

`mb2_get_memory` follows the sizes that it finds in the information structure and never looks at
`total_size`. `mb2GetMemoryIn` is the same function with every read checked against it. It returns when the
chain of the tags ends inside the structure, and so does the chain of the entries of its memory map
(`mb2GetMemory_inside_iff`); a size of 0 makes it go round.
-/

namespace Drupe

open Lib

section Structure

variable (m : Mem) (addr : UInt32)

/-- The `n` bytes from `a` on are in the structure, of `total_size` bytes. -/
def InStructure (a : UInt32) (n : Nat) : Prop :=
  ∀ k < n, (a + UInt32.ofNat k - addr).toNat < (m.read32 addr).toNat

instance (a : UInt32) (n : Nat) : Decidable (InStructure m addr a n) := inferInstanceAs (Decidable (∀ _ < _, _))

/-- A read of `n` bytes, of the value `v`. -/
def readIn {α : Type} (a : UInt32) (n : Nat) (v : α) : Except Fault α :=
  if InStructure m addr a n then .ok v else .error .outOfBounds

/-- The available memory, with the entry at `entryPtr`. -/
def addEntryIn (entryPtr : UInt32) (availableMemory : UInt64) : Except Fault UInt64 := do
  let type ← readIn m addr (entryPtr + 16) 4 (m.read32 (entryPtr + 16))
  if type = multibootMemoryAvailable then
    (readIn m addr (entryPtr + 8) 8 (m.read64 (entryPtr + 8))).map fun len => availableMemory + len
  else .ok availableMemory

/-- `mmapLoop`, of the memory map at `tag`. -/
def mmapLoopIn (tag mmapEnd : UInt32) :
    (fuel : Nat) → (entryPtr : UInt32) → (availableMemory : UInt64) → Except Fault UInt64
  | 0, _, _ => .error .hang
  | fuel + 1, entryPtr, availableMemory =>
    if entryPtr < mmapEnd then do
      let availableMemory ← addEntryIn m addr entryPtr availableMemory
      let entrySize ← readIn m addr (tag + 8) 4 (m.read32 (tag + 8))
      mmapLoopIn tag mmapEnd fuel (entryPtr + entrySize) availableMemory
    else .ok availableMemory

/-- `tagLoop` -/
def tagLoopIn : (fuel : Nat) → (tag : UInt32) → Except Fault UInt64
  | 0, _ => .error .hang
  | fuel + 1, tag => do
    let type ← readIn m addr tag 4 (m.read32 tag)
    if type = multibootTagTypeEnd then return 0
    else
      let size ← readIn m addr (tag + 4) 4 (m.read32 (tag + 4))
      if type = multibootTagTypeMmap then
        mmapLoopIn m addr tag (tag + size) (2 ^ 32) (tag + mmapTagSize) 0
      else tagLoopIn fuel (tag + ((size + 7) &&& ~~~7))

def mb2GetMemoryIn (magic : UInt32) : Except Fault UInt64 :=
  if magic ≠ multiboot2Magic then .ok 0 else tagLoopIn m addr (2 ^ 32) (addr + 8)

/-! ## The chains -/

/-- The tag after `tag`. -/
def nextTag (tag : UInt32) : UInt32 := tag + ((m.read32 (tag + 4) + 7) &&& ~~~7)

/-- What is read of an entry is in the structure: its type, and its length if it is available. -/
structure EntryInside (entryPtr : UInt32) : Prop where
  type : InStructure m addr (entryPtr + 16) 4
  len : m.read32 (entryPtr + 16) = multibootMemoryAvailable → InStructure m addr (entryPtr + 8) 8

/-- The loop over the entries goes on after the one at `entryPtr`. It reads how far it is to the next one. -/
structure PassedEntry (tag entryPtr : UInt32) : Prop where
  lt : entryPtr < tag + m.read32 (tag + 4)
  entry : EntryInside m addr entryPtr
  entrySize : InStructure m addr (tag + 8) 4

/-- The entries of the memory map at `tag` arrive at its end, and are inside before. -/
def EntriesInside (tag : UInt32) : Prop :=
  Arrives (· + m.read32 (tag + 8)) (fun p => ¬ p < tag + m.read32 (tag + 4)) (PassedEntry m addr tag)
    (tag + mmapTagSize)

/-- The type and the size of a tag are in the structure. -/
structure HeaderInside (tag : UInt32) : Prop where
  type : InStructure m addr tag 4
  size : InStructure m addr (tag + 4) 4

/-- The loop over the tags ends at `tag`. -/
inductive LastTag (tag : UInt32) : Prop
  | endTag (type : InStructure m addr tag 4) (h : m.read32 tag = multibootTagTypeEnd)
  | mmap (header : HeaderInside m addr tag) (h : m.read32 tag = multibootTagTypeMmap)
      (entries : EntriesInside m addr tag)

/-- The loop over the tags goes on after `tag`. -/
structure OtherTag (tag : UInt32) : Prop where
  header : HeaderInside m addr tag
  not_end : m.read32 tag ≠ multibootTagTypeEnd
  not_mmap : m.read32 tag ≠ multibootTagTypeMmap

/-- The tags arrive at one that ends the loop, and are inside up to there. -/
def TagsInside : Prop := Arrives (nextTag m) (LastTag m addr) (OtherTag m addr) (addr + 8)

end Structure

variable {m : Mem} {addr : UInt32}

/-! ## The loops -/

theorem readIn_eq_ok {α : Type} {a : UInt32} {n : Nat} {v w : α} :
    readIn m addr a n v = .ok w ↔ InStructure m addr a n ∧ v = w := by
  unfold readIn
  split
  · rename_i h
    rw [Except.ok.injEq]
    exact (and_iff_right h).symm
  · rename_i h
    exact iff_of_false (by simp) fun hin => h hin.1

theorem readIn_of {α : Type} {a : UInt32} {n : Nat} (h : InStructure m addr a n) (v : α) :
    readIn m addr a n v = .ok v := if_pos h

theorem addEntryIn_eq_ok {p : UInt32} {available r : UInt64} : addEntryIn m addr p available = .ok r ↔
    EntryInside m addr p ∧
      (if m.read32 (p + 16) = multibootMemoryAvailable then available + m.read64 (p + 8) else available) = r := by
  unfold addEntryIn
  rw [bind_eq_ok]
  by_cases havailable : m.read32 (p + 16) = multibootMemoryAvailable
  · rw [if_pos havailable]
    constructor
    · rintro ⟨type, htype, h⟩
      obtain ⟨hin, rfl⟩ := readIn_eq_ok.mp htype
      rw [if_pos havailable] at h
      obtain ⟨len, hread, hsum⟩ := map_eq_ok.mp h
      obtain ⟨hin', rfl⟩ := readIn_eq_ok.mp hread
      exact ⟨⟨hin, fun _ => hin'⟩, hsum⟩
    · rintro ⟨hinside, hsum⟩
      refine ⟨_, readIn_of hinside.type _, ?_⟩
      rw [if_pos havailable, readIn_of (hinside.len havailable)]
      exact congrArg Except.ok hsum
  · rw [if_neg havailable]
    constructor
    · rintro ⟨type, htype, h⟩
      obtain ⟨hin, rfl⟩ := readIn_eq_ok.mp htype
      rw [if_neg havailable] at h
      exact ⟨⟨hin, fun h => absurd h havailable⟩, Except.ok.inj h⟩
    · rintro ⟨hinside, hsum⟩
      refine ⟨_, readIn_of hinside.type _, ?_⟩
      rw [if_neg havailable]
      exact congrArg Except.ok hsum

/-- **The loop over the entries** returns when their chain arrives. -/
theorem mmapLoopIn_returns_iff (tag : UInt32) (fuel : Nat) (p : UInt32) (available : UInt64) :
    (∃ r, mmapLoopIn m addr tag (tag + m.read32 (tag + 4)) fuel p available = .ok r) ↔
      ArrivesIn (· + m.read32 (tag + 8)) (fun p => ¬ p < tag + m.read32 (tag + 4)) (PassedEntry m addr tag) fuel p := by
  induction fuel generalizing p available with
  | zero =>
      refine iff_of_false ?_ not_arrivesIn_zero
      rintro ⟨r, h⟩
      cases h
  | succ fuel ih =>
      rw [arrivesIn_succ, mmapLoopIn]
      by_cases hlt : p < tag + m.read32 (tag + 4)
      · rw [if_pos hlt]
        constructor
        · rintro ⟨r, h⟩
          obtain ⟨available', hentry, h⟩ := bind_eq_ok.mp h
          obtain ⟨entrySize, hsize, h⟩ := bind_eq_ok.mp h
          obtain ⟨hin, rfl⟩ := readIn_eq_ok.mp hsize
          exact .inr ⟨⟨hlt, (addEntryIn_eq_ok.mp hentry).1, hin⟩, (ih _ _).mp ⟨r, h⟩⟩
        · rintro (hend | ⟨hpassed, harrives⟩)
          · exact absurd hlt hend
          · rw [addEntryIn_eq_ok.mpr ⟨hpassed.entry, rfl⟩, ok_bind, readIn_of hpassed.entrySize, ok_bind]
            exact (ih _ _).mpr harrives
      · rw [if_neg hlt]
        exact iff_of_true ⟨available, rfl⟩ (.inl hlt)

/-- A pointer is one of `2 ^ 32`. -/
theorem arrivesIn_pointers {next : UInt32 → UInt32} {stop pass : UInt32 → Prop} {p : UInt32} :
    ArrivesIn next stop pass (2 ^ 32) p ↔ Arrives next stop pass p :=
  arrivesIn_iff UInt32.toNat (fun _ _ => UInt32.toNat_inj.mp) UInt32.toNat_lt

/-- **The loop over the tags** returns when their chain arrives. -/
theorem tagLoopIn_returns_iff (fuel : Nat) (tag : UInt32) :
    (∃ r, tagLoopIn m addr fuel tag = .ok r) ↔
      ArrivesIn (nextTag m) (LastTag m addr) (OtherTag m addr) fuel tag := by
  induction fuel generalizing tag with
  | zero =>
      refine iff_of_false ?_ not_arrivesIn_zero
      rintro ⟨r, h⟩
      cases h
  | succ fuel ih =>
      rw [arrivesIn_succ, tagLoopIn]
      constructor
      · rintro ⟨r, h⟩
        obtain ⟨type, htype, h⟩ := bind_eq_ok.mp h
        obtain ⟨hin, rfl⟩ := readIn_eq_ok.mp htype
        by_cases hend : m.read32 tag = multibootTagTypeEnd
        · exact .inl (.endTag hin hend)
        rw [if_neg hend] at h
        obtain ⟨size, hsize, h⟩ := bind_eq_ok.mp h
        obtain ⟨hin', rfl⟩ := readIn_eq_ok.mp hsize
        by_cases hmmap : m.read32 tag = multibootTagTypeMmap
        · rw [if_pos hmmap] at h
          exact .inl (.mmap ⟨hin, hin'⟩ hmmap (arrivesIn_pointers.mp ((mmapLoopIn_returns_iff _ _ _ _).mp ⟨r, h⟩)))
        · rw [if_neg hmmap] at h
          exact .inr ⟨⟨⟨hin, hin'⟩, hend, hmmap⟩, (ih _).mp ⟨r, h⟩⟩
      · rintro (hlast | ⟨hother, harrives⟩)
        · cases hlast with
          | endTag hin hend =>
              rw [readIn_of hin, ok_bind, if_pos hend]
              exact ⟨0, rfl⟩
          | mmap hheader hmmap hentries =>
              have hend : m.read32 tag ≠ multibootTagTypeEnd := by
                rw [hmmap]
                decide
              rw [readIn_of hheader.type, ok_bind, if_neg hend, readIn_of hheader.size, ok_bind, if_pos hmmap]
              exact (mmapLoopIn_returns_iff _ _ _ _).mpr (arrivesIn_pointers.mpr hentries)
        · rw [readIn_of hother.header.type, ok_bind, if_neg hother.not_end, readIn_of hother.header.size, ok_bind,
            if_neg hother.not_mmap]
          exact (ih _).mpr harrives

/-! ## The checks change nothing -/

theorem mmapLoop_of_in {tag mmapEnd : UInt32} {fuel : Nat} {p : UInt32} {available r : UInt64}
    (h : mmapLoopIn m addr tag mmapEnd fuel p available = .ok r) :
    mmapLoop m (m.read32 (tag + 8)) mmapEnd fuel p available = .ok r := by
  induction fuel generalizing p available with
  | zero => cases h
  | succ fuel ih =>
      rw [mmapLoopIn] at h
      rw [mmapLoop]
      by_cases hlt : p < mmapEnd
      · rw [if_pos hlt] at h ⊢
        obtain ⟨available', hentry, h⟩ := bind_eq_ok.mp h
        obtain ⟨-, rfl⟩ := addEntryIn_eq_ok.mp hentry
        obtain ⟨entrySize, hsize, h⟩ := bind_eq_ok.mp h
        obtain ⟨-, rfl⟩ := readIn_eq_ok.mp hsize
        exact ih h
      · rw [if_neg hlt] at h ⊢
        exact h

theorem tagLoop_of_in {fuel : Nat} {tag : UInt32} {r : UInt64} (h : tagLoopIn m addr fuel tag = .ok r) :
    tagLoop m fuel tag = .ok r := by
  induction fuel generalizing tag with
  | zero => cases h
  | succ fuel ih =>
      rw [tagLoopIn] at h
      rw [tagLoop]
      obtain ⟨type, htype, h⟩ := bind_eq_ok.mp h
      obtain ⟨-, rfl⟩ := readIn_eq_ok.mp htype
      by_cases hend : m.read32 tag = multibootTagTypeEnd
      · rw [if_pos hend] at h ⊢
        exact h
      rw [if_neg hend] at h ⊢
      obtain ⟨size, hsize, h⟩ := bind_eq_ok.mp h
      obtain ⟨-, rfl⟩ := readIn_eq_ok.mp hsize
      by_cases hmmap : m.read32 tag = multibootTagTypeMmap
      · rw [if_pos hmmap] at h ⊢
        exact mmapLoop_of_in h
      · rw [if_neg hmmap] at h ⊢
        exact ih h

theorem mb2GetMemory_of_in {magic : UInt32} {r : UInt64} (h : mb2GetMemoryIn m addr magic = .ok r) :
    mb2GetMemory m magic addr = .ok r := by
  unfold mb2GetMemoryIn at h
  unfold mb2GetMemory
  by_cases hmagic : magic ≠ multiboot2Magic
  · rw [if_pos hmagic] at h ⊢
    exact h
  · rw [if_neg hmagic] at h ⊢
    exact tagLoop_of_in h

/-- **When `mb2_get_memory` returns and stays in the structure**, for every contents of memory. -/
theorem mb2GetMemory_inside_iff (m : Mem) (magic addr : UInt32) :
    (∃ r, mb2GetMemoryIn m addr magic = .ok r ∧ mb2GetMemory m magic addr = .ok r) ↔
      magic ≠ multiboot2Magic ∨ TagsInside m addr := by
  have hchecked : (∃ r, mb2GetMemoryIn m addr magic = .ok r ∧ mb2GetMemory m magic addr = .ok r) ↔
      ∃ r, mb2GetMemoryIn m addr magic = .ok r :=
    exists_congr fun r => and_iff_left_of_imp mb2GetMemory_of_in
  rw [hchecked]
  unfold mb2GetMemoryIn
  by_cases hmagic : magic ≠ multiboot2Magic
  · rw [if_pos hmagic]
    exact iff_of_true ⟨0, rfl⟩ (.inl hmagic)
  · rw [if_neg hmagic, tagLoopIn_returns_iff, arrivesIn_pointers]
    exact (or_iff_right hmagic).symm

/-- `bootInfo` needs 88 bytes, without its end tag. -/
example : mb2GetMemoryIn (fun a => if a = 0x1000 then 88 else bootInfo a) 0x1000 multiboot2Magic = .ok 0x200000 := by
  decide +kernel

/-- A tag that is its own successor. -/
theorem tagLoop_round {tag : UInt32} (hend : m.read32 tag ≠ multibootTagTypeEnd)
    (hmmap : m.read32 tag ≠ multibootTagTypeMmap) (hround : nextTag m tag = tag) (fuel : Nat) :
    tagLoop m fuel tag = .error .hang := by
  induction fuel with
  | zero => rfl
  | succ fuel ih =>
      rw [tagLoop, if_neg hend, if_neg hmmap]
      show tagLoop m fuel (nextTag m tag) = _
      rw [hround]
      exact ih

/-- A structure of 24 bytes at `0x1000`: a tag of size 0, and the end tag. -/
def zeroSizeInfo : Mem := fun a =>
  ([24, 0, 0, 0, 0, 0, 0, 0] ++ [1, 0, 0, 0, 0, 0, 0, 0] ++ [0, 0, 0, 0, 8, 0, 0, 0])[(a - 0x1000).toNat]?.getD 0

theorem mb2GetMemory_zeroSize : mb2GetMemory zeroSizeInfo multiboot2Magic 0x1000 = .error .hang := by
  have hround : nextTag zeroSizeInfo 0x1008 = 0x1008 := by decide
  unfold mb2GetMemory
  rw [if_neg (by decide)]
  exact tagLoop_round (by decide) (by decide) hround _

end Drupe
