import Drupe.Machine
import Drupe.Lib.Bitmap
import Drupe.Lib.Search

/-!
# `Memory.Physical` — the physical sector allocator (`physical.c`)

A bitmap of `pmmSectors` bits, one per sector of `pmmSectorSize` bytes; a set bit is a free sector. Two
allocators work on it: `memPhysAlloc` scans the bytes of the whole map for the first set bit, and
`memPhysAllocSectors` scans the first `memPhysSectors` sectors for a run.

## Contents
- The functions of the source.
- One lemma per function saying all it can do, on bit numbers (`memPhysAlloc_cases`,
  `memPhysAllocSectors_cases`, `memPhysFree_eq`), and when the run scan stays inside the map.
-/

namespace Drupe

open Lib

/-- `PMM_SECTORS` -/
abbrev pmmSectors : Nat := 65536

/-- `PMM_SECTOR_SIZE` -/
abbrev pmmSectorSize : Nat := 8192

/-- The static variables of `physical.c`. -/
structure PhysMem where
  memPhysMap : Bitmap (pmmSectors / 8)
  memPhysStart : UInt32
  memPhysSectors : UInt32

def memPhysInit (start totalSize : UInt32) : PhysMem :=
  { memPhysMap := Vector.replicate (pmmSectors / 8) 0xFF
    memPhysStart := start
    memPhysSectors := totalSize / UInt32.ofNat pmmSectorSize }

/-- The address of sector `i`: `mem_phys_start + PMM_SECTOR_SIZE * i`. -/
def sectorAddr (start : UInt32) (i : Nat) : UInt32 := start + UInt32.ofNat (pmmSectorSize * i)

/-- Mark sector `k` as taken. -/
def PhysMem.clear (s : PhysMem) (k : Nat) : PhysMem :=
  { s with memPhysMap := Bitmap.clearAt s.memPhysMap k }

/-- The loop over the bits of one byte of the map, with the test that skips an empty byte before it. -/
def scanByte (c : UInt8) : Option Nat :=
  if c = 0 then none
  else search (fun b => if bitSet c b then some b else none) 8 0

/-- The loop over the bytes of the map. The result is `i * 8 + b`. -/
def firstFree (m : Bitmap (pmmSectors / 8)) : Option Nat :=
  search (fun i => (scanByte (m[i]?.getD 0)).map fun b => i * 8 + b) (pmmSectors / 8) 0

def memPhysAlloc (s : PhysMem) : PhysMem × UInt32 :=
  match firstFree s.memPhysMap with
  | some k => (s.clear k, sectorAddr s.memPhysStart k)
  | none => (s, 0)

/-- `mem_phys_map[index / 8] & (1 << index % 8)`, an access to the array. -/
def readBit (m : Bitmap (pmmSectors / 8)) (index : Nat) : Except Fault Bool :=
  if index / 8 < pmmSectors / 8 then .ok (Bitmap.bitAt m index) else .error .outOfBounds

/-- The check loop over the sectors from `i` on: the value of `j` when it ends. -/
def checkRun (m : Bitmap (pmmSectors / 8)) (i : Nat) : (fuel j : Nat) → Except Fault Nat
  | 0, j => .ok j
  | fuel + 1, j =>
    match readBit m (i + j) with
    | .ok true => checkRun m i fuel (j + 1)
    | .ok false => .ok j
    | .error e => .error e

/-- The loop over the first sector `i` of the run. -/
def findRun (m : Bitmap (pmmSectors / 8)) (numSectors : Nat) :
    (fuel i : Nat) → Except Fault (Option Nat)
  | 0, _ => .ok none
  | fuel + 1, i =>
    match checkRun m i numSectors 0 with
    | .ok j => if j = numSectors then .ok (some i) else findRun m numSectors fuel (i + 1)
    | .error e => .error e

/-- Mark sectors `i`, …, `i + len - 1` as taken. -/
def PhysMem.clearRun (s : PhysMem) (i len : Nat) : PhysMem :=
  { s with memPhysMap := Bitmap.clearRun s.memPhysMap i len }

def memPhysAllocSectors (s : PhysMem) (numSectors : UInt32) : Except Fault (PhysMem × UInt32) :=
  if numSectors = 0 ∨ numSectors > s.memPhysSectors then .ok (s, 0)
  else
    let max := s.memPhysSectors.toNat - numSectors.toNat + 1
    match findRun s.memPhysMap numSectors.toNat max 0 with
    | .ok (some i) => .ok (s.clearRun i numSectors.toNat, sectorAddr s.memPhysStart i)
    | .ok none => .ok (s, 0)
    | .error e => .error e

def memPhysFree (s : PhysMem) (addr : UInt32) : Except Fault PhysMem :=
  let offset := ((addr - s.memPhysStart) / UInt32.ofNat pmmSectorSize).toNat
  if offset / 8 < pmmSectors / 8 then .ok { s with memPhysMap := Bitmap.setAt s.memPhysMap offset }
  else .error .outOfBounds

/-! ## Sectors -/

/-- Sector `k` is free: its bit is set. -/
def PhysMem.isFree (s : PhysMem) (k : Nat) : Bool := Bitmap.bitAt s.memPhysMap k

/-- Sectors `i`, …, `i + len - 1` are all free. -/
def PhysMem.FreeRun (s : PhysMem) (i len : Nat) : Prop := ∀ t < len, s.isFree (i + t) = true

/-- One of the sectors `i`, …, `i + len - 1` of the map is taken. -/
def PhysMem.Blocked (s : PhysMem) (i len : Nat) : Prop :=
  ∃ t < len, i + t < pmmSectors ∧ s.isFree (i + t) = false

theorem PhysMem.Blocked.not_freeRun {s : PhysMem} {i len : Nat} (h : s.Blocked i len) :
    ¬ s.FreeRun i len := by
  obtain ⟨t, ht, -, htaken⟩ := h
  intro hrun
  rw [hrun t ht] at htaken
  exact Bool.noConfusion htaken

theorem PhysMem.isFree_lt {s : PhysMem} {k : Nat} (h : s.isFree k = true) : k < pmmSectors :=
  Bitmap.lt_of_bitAt h

@[simp] theorem memPhysInit_isFree {start total : UInt32} {k : Nat} (hk : k < pmmSectors) :
    (memPhysInit start total).isFree k = true :=
  Bitmap.bitAt_replicate hk

theorem memPhysInit_sectors (start total : UInt32) :
    (memPhysInit start total).memPhysSectors.toNat = total.toNat / pmmSectorSize := rfl

theorem PhysMem.isFree_clear (s : PhysMem) (k i : Nat) :
    (s.clear k).isFree i = (s.isFree i && decide (i ≠ k)) :=
  Bitmap.bitAt_clearAt s.memPhysMap k i

theorem PhysMem.isFree_clearRun (s : PhysMem) (i len k : Nat) :
    (s.clearRun i len).isFree k = (s.isFree k && decide (k < i ∨ i + len ≤ k)) :=
  Bitmap.bitAt_clearRun s.memPhysMap i len k

/-- Sector addresses are distinct, whatever the start of the managed memory is. -/
theorem sectorAddr_inj {start : UInt32} {i j : Nat} (hi : i < pmmSectors) (hj : j < pmmSectors)
    (h : sectorAddr start i = sectorAddr start j) : i = j := by
  unfold pmmSectors at hi hj
  unfold sectorAddr pmmSectorSize at h
  have := add_ofNat_inj (by omega) (by omega) h
  omega

/-! ## `memPhysAlloc`: the lowest set bit of the whole map -/

/-- Bit `b` of byte `i` of the map says whether sector `i * 8 + b` is free. -/
theorem isFree_byte (s : PhysMem) (i : Nat) {b : Nat} (hb : b < 8) :
    s.isFree (i * 8 + b) = bitSet (s.memPhysMap[i]?.getD 0) b := by
  have hdiv : (i * 8 + b) / 8 = i := by omega
  have hmod : (i * 8 + b) % 8 = b := by omega
  rw [PhysMem.isFree, Bitmap.bitAt, hdiv, hmod]

theorem scanByte_eq_none {c : UInt8} (h : scanByte c = none) : ∀ b < 8, bitSet c b = false := by
  intro b hb
  unfold scanByte at h
  split at h
  · rename_i hc
    rw [hc, bitSet_zero]
  · have := search_eq_none_iff.mp h b (Nat.zero_le b) (by omega)
    simpa using this

theorem scanByte_eq_some {c : UInt8} {b : Nat} (h : scanByte c = some b) :
    b < 8 ∧ bitSet c b = true ∧ ∀ j < b, bitSet c j = false := by
  unfold scanByte at h
  split at h
  · exact absurd h (by simp)
  · obtain ⟨k, -, hk, hb, hbefore⟩ := search_eq_some_iff.mp h
    have hset : bitSet c k = true ∧ k = b := by simpa using hb
    obtain ⟨hset, rfl⟩ := hset
    refine ⟨by omega, hset, ?_⟩
    intro j hj
    simpa using hbefore j (Nat.zero_le j) hj

theorem firstFree_eq_none {s : PhysMem} (h : firstFree s.memPhysMap = none) :
    ∀ k, s.isFree k = false := by
  intro k
  rcases Nat.lt_or_ge k pmmSectors with hk | hk
  · have hbyte := search_eq_none_iff.mp h (k / 8) (Nat.zero_le _)
      (by unfold pmmSectors at hk ⊢; omega)
    have hsplit : k = k / 8 * 8 + k % 8 := by omega
    rw [hsplit, isFree_byte s (k / 8) (Nat.mod_lt k (by decide))]
    exact scanByte_eq_none (Option.map_eq_none_iff.mp hbyte) _ (Nat.mod_lt k (by decide))
  · exact Bitmap.bitAt_of_le hk

theorem firstFree_eq_some {s : PhysMem} {k : Nat} (h : firstFree s.memPhysMap = some k) :
    s.isFree k = true ∧ ∀ j < k, s.isFree j = false := by
  obtain ⟨i, -, -, hi, hbefore⟩ := search_eq_some_iff.mp h
  obtain ⟨b, hb, rfl⟩ := Option.map_eq_some_iff.mp hi
  obtain ⟨hb8, hset, hlow⟩ := scanByte_eq_some hb
  refine ⟨by rw [isFree_byte s i hb8]; exact hset, ?_⟩
  intro j hj
  have hsplit : j = j / 8 * 8 + j % 8 := by omega
  rw [hsplit, isFree_byte s (j / 8) (Nat.mod_lt j (by decide))]
  rcases Nat.lt_or_ge (j / 8) i with hlt | hge
  -- an earlier byte: its scan found nothing
  · have hnone := hbefore (j / 8) (Nat.zero_le _) hlt
    exact scanByte_eq_none (Option.map_eq_none_iff.mp hnone) _ (Nat.mod_lt j (by decide))
  -- the same byte: a lower bit
  · have hsame : j / 8 = i := by omega
    rw [hsame]
    exact hlow _ (by omega)

/-- **All `memPhysAlloc` can do**: take the lowest free sector of the map, managed or not, or fail when no
    bit of the map is set. -/
theorem memPhysAlloc_cases (s : PhysMem) :
    (∃ k, s.isFree k = true ∧ (∀ j < k, s.isFree j = false) ∧
      memPhysAlloc s = (s.clear k, sectorAddr s.memPhysStart k)) ∨
    ((∀ k, s.isFree k = false) ∧ memPhysAlloc s = (s, 0)) := by
  cases h : firstFree s.memPhysMap with
  | some k =>
      obtain ⟨hk, hlow⟩ := firstFree_eq_some h
      exact .inl ⟨k, hk, hlow, by rw [memPhysAlloc, h]⟩
  | none => exact .inr ⟨firstFree_eq_none h, by rw [memPhysAlloc, h]⟩

/-! ## `memPhysAllocSectors`: the lowest fitting run of managed sectors -/

theorem readBit_eq_ok {s : PhysMem} {k : Nat} {v : Bool} (h : readBit s.memPhysMap k = .ok v) :
    k < pmmSectors ∧ s.isFree k = v := by
  unfold readBit at h
  split at h
  · rename_i hk
    exact ⟨by unfold pmmSectors at hk ⊢; omega, Except.ok.inj h⟩
  · exact absurd h (by simp)

theorem readBit_of_lt {s : PhysMem} {k : Nat} (hk : k < pmmSectors) :
    readBit s.memPhysMap k = .ok (s.isFree k) := by
  unfold readBit
  rw [if_pos (by unfold pmmSectors at hk ⊢; omega)]
  rfl

/-- The check loop ends at the first sector of the run that is taken, or after `fuel` free ones. -/
theorem checkRun_eq_ok {s : PhysMem} {i fuel j r : Nat} (h : checkRun s.memPhysMap i fuel j = .ok r) :
    j ≤ r ∧ r ≤ j + fuel ∧ (∀ t, j ≤ t → t < r → s.isFree (i + t) = true) ∧
      (r < j + fuel → i + r < pmmSectors ∧ s.isFree (i + r) = false) := by
  induction fuel generalizing j with
  | zero =>
      have hr : j = r := Except.ok.inj h
      subst hr
      exact ⟨Nat.le_refl j, Nat.le_refl j, fun t h1 h2 => by omega, fun hlt => by omega⟩
  | succ fuel ih =>
      rw [checkRun] at h
      cases hb : readBit s.memPhysMap (i + j) with
      | error e => rw [hb] at h; exact absurd h (by simp)
      | ok v =>
          obtain ⟨hin, hfree⟩ := readBit_eq_ok hb
          rw [hb] at h
          cases v with
          -- a clear bit ends the loop, a set one leaves it to the next round
          | false =>
              have hr : j = r := Except.ok.inj h
              subst hr
              exact ⟨Nat.le_refl j, by omega, fun t h1 h2 => by omega, fun _ => ⟨hin, hfree⟩⟩
          | true =>
              obtain ⟨h1, h2, h3, h4⟩ := ih h
              refine ⟨by omega, by omega, ?_, fun hlt => h4 (by omega)⟩
              intro t ht1 ht2
              rcases Nat.eq_or_lt_of_le ht1 with rfl | hlt
              · exact hfree
              · exact h3 t hlt ht2

/-- The check from the first sector of the run on answers `len` for a free run, and less for a blocked one. -/
theorem checkRun_zero {s : PhysMem} {i len r : Nat} (h : checkRun s.memPhysMap i len 0 = .ok r) :
    (r = len ∧ s.FreeRun i len) ∨ (r ≠ len ∧ s.Blocked i len) := by
  obtain ⟨-, hle, hfree, hstop⟩ := checkRun_eq_ok h
  rcases Nat.lt_or_ge r len with hlt | hge
  · exact .inr ⟨by omega, r, hlt, hstop (by omega)⟩
  · have hr : r = len := by omega
    exact .inl ⟨hr, fun t ht => hfree t (Nat.zero_le t) (by omega)⟩

/-- A check that only meets sectors of the map does not fault. -/
theorem checkRun_total {s : PhysMem} {i fuel j : Nat} (h : i + j + fuel ≤ pmmSectors) :
    ∃ r, checkRun s.memPhysMap i fuel j = .ok r := by
  induction fuel generalizing j with
  | zero => exact ⟨j, rfl⟩
  | succ fuel ih =>
      rw [checkRun, readBit_of_lt (by omega)]
      cases s.isFree (i + j) with
      | true => exact ih (by omega)
      | false => exact ⟨j, rfl⟩

theorem findRun_eq_some {s : PhysMem} {num fuel i k : Nat}
    (h : findRun s.memPhysMap num fuel i = .ok (some k)) :
    i ≤ k ∧ k < i + fuel ∧ s.FreeRun k num ∧ ∀ j, i ≤ j → j < k → s.Blocked j num := by
  induction fuel generalizing i with
  | zero => exact absurd (Except.ok.inj h) (by simp)
  | succ fuel ih =>
      rw [findRun] at h
      cases hc : checkRun s.memPhysMap i num 0 with
      | error e => rw [hc] at h; exact absurd h (by simp)
      | ok r =>
          rw [hc] at h
          rcases checkRun_zero hc with ⟨hr, hfree⟩ | ⟨hr, hblocked⟩
          · simp only [if_pos hr] at h
            have hk : i = k := Option.some.inj (Except.ok.inj h)
            subst hk
            exact ⟨Nat.le_refl i, by omega, hfree, fun j h1 h2 => by omega⟩
          · simp only [if_neg hr] at h
            obtain ⟨h1, h2, h3, h4⟩ := ih h
            refine ⟨by omega, by omega, h3, ?_⟩
            intro j hj1 hj2
            rcases Nat.eq_or_lt_of_le hj1 with rfl | hlt
            · exact hblocked
            · exact h4 j hlt hj2

theorem findRun_eq_none {s : PhysMem} {num fuel i : Nat}
    (h : findRun s.memPhysMap num fuel i = .ok none) :
    ∀ j, i ≤ j → j < i + fuel → s.Blocked j num := by
  induction fuel generalizing i with
  | zero => intro j h1 h2; omega
  | succ fuel ih =>
      rw [findRun] at h
      cases hc : checkRun s.memPhysMap i num 0 with
      | error e => rw [hc] at h; exact absurd h (by simp)
      | ok r =>
          rw [hc] at h
          rcases checkRun_zero hc with ⟨hr, -⟩ | ⟨hr, hblocked⟩
          · simp only [if_pos hr] at h
            exact absurd (Except.ok.inj h) (by simp)
          · simp only [if_neg hr] at h
            intro j hj1 hj2
            rcases Nat.eq_or_lt_of_le hj1 with rfl | hlt
            · exact hblocked
            · exact ih h j hlt (by omega)

/-- The scan stays inside the map when its last run does. -/
theorem findRun_total {s : PhysMem} {num fuel i : Nat} (h : i + fuel + num ≤ pmmSectors + 1) :
    ∃ r, findRun s.memPhysMap num fuel i = .ok r := by
  induction fuel generalizing i with
  | zero => exact ⟨none, rfl⟩
  | succ fuel ih =>
      have hin : i + 0 + num ≤ pmmSectors := by omega
      obtain ⟨r, hr⟩ := checkRun_total (s := s) hin
      rw [findRun, hr]
      simp only
      split
      · exact ⟨some i, rfl⟩
      · exact ih (by omega)

/-- A scan that meets no free first sector goes through all of `fuel` steps: it ends without a run, or past
    the end of the map when that comes first. -/
theorem findRun_of_taken {s : PhysMem} {num fuel i : Nat} (hnum : 0 < num) (hi : i ≤ pmmSectors)
    (htaken : ∀ k, i ≤ k → k < i + fuel → s.isFree k = false) :
    findRun s.memPhysMap num fuel i
      = if i + fuel ≤ pmmSectors then .ok none else .error .outOfBounds := by
  induction fuel generalizing i with
  | zero => rw [if_pos (by omega)]; rfl
  | succ fuel ih =>
      obtain ⟨m, rfl⟩ : ∃ m, num = m + 1 := ⟨num - 1, by omega⟩
      rw [findRun, checkRun, Nat.add_zero]
      rcases Nat.lt_or_ge i pmmSectors with hlt | hge
      · rw [readBit_of_lt hlt, htaken i (Nat.le_refl i) (by omega)]
        simp only
        rw [if_neg (by omega), ih (by omega) (fun k h1 h2 => htaken k (by omega) (by omega))]
        simp only [Nat.add_right_comm i 1 fuel, Nat.add_assoc]
      -- the first read of the round is already past the map
      · rw [readBit, if_neg (by unfold pmmSectors at hge ⊢; omega)]
        simp only
        rw [if_neg (by omega)]

/-- **All a returning `memPhysAllocSectors` can do**: fail for a request that is empty or larger than the
    managed memory, take the lowest fitting run of free managed sectors, or fail when there is none. -/
theorem memPhysAllocSectors_cases {s s' : PhysMem} {n p : UInt32}
    (h : memPhysAllocSectors s n = .ok (s', p)) :
    ((n = 0 ∨ s.memPhysSectors < n) ∧ s' = s ∧ p = 0) ∨
    (0 < n.toNat ∧ ∃ i, i + n.toNat ≤ s.memPhysSectors.toNat ∧ s.FreeRun i n.toNat ∧
      (∀ j < i, s.Blocked j n.toNat) ∧
      s' = s.clearRun i n.toNat ∧ p = sectorAddr s.memPhysStart i) ∨
    (0 < n.toNat ∧ n ≤ s.memPhysSectors ∧
      (∀ i, i + n.toNat ≤ s.memPhysSectors.toNat → s.Blocked i n.toNat) ∧ s' = s ∧ p = 0) := by
  unfold memPhysAllocSectors at h
  split at h
  · rename_i hguard
    have hinj := Except.ok.inj h
    exact .inl ⟨hguard, (congrArg Prod.fst hinj).symm, (congrArg Prod.snd hinj).symm⟩
  · rename_i hguard
    rw [not_or, UInt32.not_lt] at hguard
    have hpos : 0 < n.toNat := toNat_pos hguard.1
    have hle : n.toNat ≤ s.memPhysSectors.toNat := UInt32.le_iff_toNat_le.mp hguard.2
    right
    simp only at h
    split at h
    · rename_i i hfind
      obtain ⟨-, hi, hrun, hfirst⟩ := findRun_eq_some hfind
      have hinj := Except.ok.inj h
      exact .inl ⟨hpos, i, by omega, hrun, fun j hj => hfirst j (Nat.zero_le j) hj,
        (congrArg Prod.fst hinj).symm, (congrArg Prod.snd hinj).symm⟩
    · rename_i hfind
      have hnone := findRun_eq_none hfind
      have hinj := Except.ok.inj h
      exact .inr ⟨hpos, hguard.2, fun i hi => hnone i (Nat.zero_le i) (by omega),
        (congrArg Prod.fst hinj).symm, (congrArg Prod.snd hinj).symm⟩
    · exact absurd h (by simp)

/-- With a managed memory the bitmap can hold, no index leaves the map. -/
theorem memPhysAllocSectors_total {s : PhysMem} (hcap : s.memPhysSectors.toNat ≤ pmmSectors)
    (n : UInt32) : ∃ s' p, memPhysAllocSectors s n = .ok (s', p) := by
  unfold memPhysAllocSectors
  split
  · exact ⟨s, 0, rfl⟩
  · rename_i hguard
    rw [not_or, UInt32.not_lt] at hguard
    have hle : n.toNat ≤ s.memPhysSectors.toNat := UInt32.le_iff_toNat_le.mp hguard.2
    have hin : 0 + (s.memPhysSectors.toNat - n.toNat + 1) + n.toNat ≤ pmmSectors + 1 := by omega
    obtain ⟨r, hr⟩ := findRun_total (s := s) hin
    simp only [hr]
    cases r with
    | some i => exact ⟨_, _, rfl⟩
    | none => exact ⟨_, _, rfl⟩

/-- **`memPhysAlloc` is first fit**: the lowest free sector is taken. -/
theorem memPhysAlloc_first {s : PhysMem} {k : Nat} (hk : s.isFree k = true)
    (hlow : ∀ j < k, s.isFree j = false) :
    memPhysAlloc s = (s.clear k, sectorAddr s.memPhysStart k) := by
  rcases memPhysAlloc_cases s with ⟨k', hk', hlow', heq⟩ | ⟨hnone, -⟩
  · have hkk : k' = k := by
      rcases Nat.lt_trichotomy k' k with hlt | heq | hgt
      · rw [hlow k' hlt] at hk'; exact Bool.noConfusion hk'
      · exact heq
      · rw [hlow' k hgt] at hk; exact Bool.noConfusion hk
    rw [heq, hkk]
  · rw [hnone k] at hk; exact Bool.noConfusion hk

/-- **`memPhysAllocSectors` is first fit**: the lowest fitting run is taken. -/
theorem memPhysAllocSectors_first {s : PhysMem} (hcap : s.memPhysSectors.toNat ≤ pmmSectors)
    {n : UInt32} {i : Nat} (hpos : 0 < n.toNat) (hfit : i + n.toNat ≤ s.memPhysSectors.toNat)
    (hrun : s.FreeRun i n.toNat) (hlow : ∀ j < i, ¬ s.FreeRun j n.toNat) :
    memPhysAllocSectors s n = .ok (s.clearRun i n.toNat, sectorAddr s.memPhysStart i) := by
  obtain ⟨s', p, h⟩ := memPhysAllocSectors_total hcap n
  rw [h]
  rcases memPhysAllocSectors_cases h with ⟨hguard, -⟩ | ⟨-, k, -, hk, hklow, rfl, rfl⟩ | ⟨-, -, hno, -⟩
  · rcases hguard with rfl | hlt
    · exact absurd hpos (by simp)
    · have := UInt32.lt_iff_toNat_lt.mp hlt
      omega
  · have hki : k = i := by
      rcases Nat.lt_trichotomy k i with hlt | heq | hgt
      · exact absurd hk (hlow k hlt)
      · exact heq
      · exact absurd hrun (hklow i hgt).not_freeRun
    rw [hki]
  · exact absurd hrun (hno i hfit).not_freeRun

/-! ## `memPhysFree`: one sector, found again from its address -/

theorem offset_sectorAddr (start : UInt32) {k : Nat} (hk : k < pmmSectors) :
    ((sectorAddr start k - start) / UInt32.ofNat pmmSectorSize).toNat = k := by
  have hdiff : sectorAddr start k - start = UInt32.ofNat (pmmSectorSize * k) := by
    unfold sectorAddr
    grind
  rw [hdiff, UInt32.toNat_div, UInt32.toNat_ofNat', UInt32.toNat_ofNat',
    Nat.mod_eq_of_lt (show pmmSectorSize < 2 ^ 32 by decide)]
  unfold pmmSectors at hk
  unfold pmmSectorSize
  omega

/-- **All a returning `memPhysFree` can do**: set one bit of the map. -/
theorem memPhysFree_cases {s s' : PhysMem} {a : UInt32} (h : memPhysFree s a = .ok s') :
    ∃ k < pmmSectors, s' = { s with memPhysMap := Bitmap.setAt s.memPhysMap k } := by
  unfold memPhysFree at h
  simp only at h
  split at h
  · rename_i hk
    exact ⟨_, by unfold pmmSectors at hk ⊢; omega, (Except.ok.inj h).symm⟩
  · exact absurd h (by simp)

/-- **`memPhysFree` of a sector's address** sets that sector's bit. -/
theorem memPhysFree_eq (s : PhysMem) {k : Nat} (hk : k < pmmSectors) :
    memPhysFree s (sectorAddr s.memPhysStart k)
      = .ok { s with memPhysMap := Bitmap.setAt s.memPhysMap k } := by
  unfold memPhysFree
  simp only [offset_sectorAddr s.memPhysStart hk]
  rw [if_pos (by unfold pmmSectors at hk ⊢; omega)]

end Drupe
