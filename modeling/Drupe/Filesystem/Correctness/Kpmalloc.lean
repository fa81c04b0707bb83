import Drupe.Filesystem.Ext2
import Drupe.Memory.Correctness.FirstFit

/-!
# `Filesystem.Correctness.Kpmalloc` — how many sectors `kpmalloc` asks for

The loop of `kpmalloc` compares a 32-bit product of sectors and bytes with the size. It ends at the first
number of sectors that holds the size (`kpmallocSectors_eq`), except for the sizes past the last whole
sector of the address space: the product never gets there, and the loop goes on forever
(`kpmallocSectors_hang`). So the sectors are counted, and an answer of `kpmalloc` other than null is a run
of them, for the sizes up to there and for no other (`kpmalloc_counts_iff`).
-/

namespace Drupe

/-- The sectors that hold `size` bytes; at least one. -/
def sectorsFor (size : Nat) : Nat := max 1 ((size + pmmSectorSize - 1) / pmmSectorSize)

/-- The largest size whose sectors `kpmalloc` can count. -/
def kpmallocMax : Nat := 2 ^ 32 - pmmSectorSize

theorem sectorsFor_pos (size : Nat) : 0 < sectorsFor size := Nat.le_max_left _ _

theorem le_sectorsFor (size : Nat) : size ≤ sectorsFor size * pmmSectorSize := by
  unfold sectorsFor pmmSectorSize
  omega

theorem sectorsFor_lt {size : Nat} (h : size ≤ kpmallocMax) : sectorsFor size < 524288 := by
  unfold kpmallocMax pmmSectorSize at h
  unfold sectorsFor pmmSectorSize
  omega

/-- A loop that can count the sectors ends. -/
theorem kpmallocSectors_returns {size : UInt32} (h : size.toNat ≤ kpmallocMax) {fuel : Nat} {numSect : UInt32}
    (hlow : numSect.toNat < 524288) (hfuel : 524288 ≤ numSect.toNat + fuel) :
    ∃ n, kpmallocSectors size fuel numSect = .ok n := by
  induction fuel generalizing numSect with
  | zero => omega
  | succ fuel ih =>
      rw [kpmallocSectors]
      by_cases hsmall : numSect * UInt32.ofNat pmmSectorSize < size
      · rw [if_pos hsmall]
        have hmul : (numSect * UInt32.ofNat pmmSectorSize).toNat
            = numSect.toNat * pmmSectorSize % 4294967296 := UInt32.toNat_mul _ _
        have hlt := UInt32.lt_iff_toNat_lt.mp hsmall
        unfold kpmallocMax pmmSectorSize at *
        have hsucc : (numSect + 1).toNat = numSect.toNat + 1 := toNat_add_ofNat (k := 1) (by omega)
        exact ih (by omega) (by omega)
      · rw [if_neg hsmall]
        exact ⟨numSect, rfl⟩

/-- **The loop counts** the sectors that hold the size. -/
theorem kpmallocSectors_eq {size : UInt32} (h : size.toNat ≤ kpmallocMax) :
    kpmallocSectors size 524288 1 = .ok (UInt32.ofNat (sectorsFor size.toNat)) := by
  obtain ⟨n, hn⟩ := @kpmallocSectors_returns size h 524288 1 (by decide) (by decide)
  obtain ⟨hpos, hbig, hbefore⟩ := kpmallocSectors_eq_ok (by decide) hn
  have hone : (1 : UInt32).toNat = 1 := rfl
  have hcount : sectorsFor size.toNat = n.toNat := by
    have hprev := hbefore (n.toNat - 1)
    unfold sectorsFor pmmSectorSize at *
    omega
  rw [hn, hcount, UInt32.ofNat_toNat]

/-- **The loop goes on forever** for a size that no number of whole sectors below `2^32` bytes holds. -/
theorem kpmallocSectors_hang {size : UInt32} (h : kpmallocMax < size.toNat) (fuel : Nat) (numSect : UInt32) :
    kpmallocSectors size fuel numSect = .error .hang := by
  induction fuel generalizing numSect with
  | zero => rfl
  | succ fuel ih =>
      have hsmall : numSect * UInt32.ofNat pmmSectorSize < size := by
        have hmul : (numSect * UInt32.ofNat pmmSectorSize).toNat
            = numSect.toNat * pmmSectorSize % 4294967296 := UInt32.toNat_mul _ _
        rw [UInt32.lt_iff_toNat_lt, hmul]
        unfold kpmallocMax pmmSectorSize at *
        omega
      rw [kpmallocSectors, if_pos hsmall]
      exact ih (numSect + 1)

/-- **All `kpmalloc` can do.** -/
theorem kpmalloc_cases (s : PhysMem) (size : UInt32) :
    kpmalloc s size =
      if size.toNat ≤ kpmallocMax then memPhysAllocSectors s (UInt32.ofNat (sectorsFor size.toNat))
      else .error .hang := by
  unfold kpmalloc
  by_cases h : size.toNat ≤ kpmallocMax
  · rw [if_pos h, kpmallocSectors_eq h, ok_bind]
  · rw [if_neg h, kpmallocSectors_hang (Nat.not_le.mp h), error_bind]

/-! ## Counted sectors -/

/-- **What `kpmalloc` owes**: its loop ends with the number of sectors that hold the size, and an answer
    other than null is the first address of so many managed sectors in a row, free before and taken now. -/
structure CountsSectors (s : PhysMem) (size : UInt32) : Prop where
  count : kpmallocSectors size 524288 1 = .ok (UInt32.ofNat (sectorsFor size.toNat))
  run : ∀ s' p, kpmalloc s size = .ok (s', p) → p ≠ 0 → ∃ i ∈ s.runs (sectorsFor size.toNat),
    p = sectorAddr s.memPhysStart i ∧ s.Takes s' i (sectorsFor size.toNat) ∧
      size.toNat ≤ sectorsFor size.toNat * pmmSectorSize

/-- An answer other than null. -/
theorem kpmalloc_run {s s' : PhysMem} {size p : UInt32} (h : kpmalloc s size = .ok (s', p)) (hp : p ≠ 0) :
    ∃ i ∈ s.runs (sectorsFor size.toNat), p = sectorAddr s.memPhysStart i ∧
      s.Takes s' i (sectorsFor size.toNat) := by
  rw [kpmalloc_cases] at h
  by_cases hmax : size.toNat ≤ kpmallocMax
  case neg =>
    rw [if_neg hmax] at h
    cases h
  rw [if_pos hmax] at h
  have hcount : (UInt32.ofNat (sectorsFor size.toNat)).toNat = sectorsFor size.toNat := by
    have := sectorsFor_lt hmax
    rw [UInt32.toNat_ofNat']
    omega
  rcases memPhysAllocSectors_cases h with ⟨-, -, hnull⟩ | ⟨-, i, hfit, hrun, -, rfl, rfl⟩ | ⟨-, -, -, -, hnull⟩
  · exact absurd hnull hp
  · rw [hcount] at hfit hrun ⊢
    exact ⟨i, ⟨hfit, hrun⟩, rfl, s.takes_clearRun i _⟩
  · exact absurd hnull hp

/-- **When the sectors are counted.** For every state of the allocator and every size. -/
theorem kpmalloc_counts_iff (s : PhysMem) (size : UInt32) :
    CountsSectors s size ↔ size.toNat ≤ kpmallocMax := by
  constructor
  · intro h
    by_contra hbig
    have hcount := h.count
    rw [kpmallocSectors_hang (Nat.not_le.mp hbig)] at hcount
    cases hcount
  · intro h
    refine ⟨kpmallocSectors_eq h, fun s' p halloc hp => ?_⟩
    obtain ⟨i, hi, haddr, htakes⟩ := kpmalloc_run halloc hp
    exact ⟨i, hi, haddr, htakes, le_sectorsFor _⟩

/-- A table of `0x7FFFFFF` descriptors: the loop never ends. -/
theorem kpmalloc_never_counts :
    kpmalloc (memPhysInit 0x100000 0x100000) 0xFFFFFFE0 = .error .hang ∧
    ¬ CountsSectors (memPhysInit 0x100000 0x100000) 0xFFFFFFE0 := by
  have hhang : ∀ fuel numSect, kpmallocSectors 0xFFFFFFE0 fuel numSect = .error .hang :=
    kpmallocSectors_hang (by decide)
  refine ⟨?_, fun h => ?_⟩
  · rw [kpmalloc, hhang, error_bind]
  · have hcount := h.count
    rw [hhang] at hcount
    cases hcount

end Drupe
