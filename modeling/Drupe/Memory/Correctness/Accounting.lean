import Mathlib.Data.Nat.Count
import Drupe.Memory.Correctness.Exclusive

/-!
# `Memory.Correctness.Accounting` — every sector is free or outstanding

When no sector of the map lies at the null address, a caller never mistakes an answer for a failure, so no
call loses a sector: the set bits and the outstanding sectors together are always all of the map
(`PhysStep.balanced`). A failure takes nothing, and giving back a run sector by sector, in any order,
restores the map bit for bit (`memPhysFree_restores`).
-/

namespace Drupe

open Lib

/-- The number of set bits of the map. -/
def PhysMem.freeSectors (s : PhysMem) : Nat := Nat.count (fun k => s.isFree k = true) pmmSectors

/-- No sector of the map lies at the null address. -/
def NoNullSector (start : UInt32) : Prop := ∀ k < pmmSectors, sectorAddr start k ≠ 0

/-! ## Counting -/

theorem Abstracts.freeSectors_eq {c : PhysConfig} {p : Pool (Fin pmmSectors)} (hR : Abstracts c p) :
    c.phys.freeSectors = p.free.card := by
  have hmap : (Finset.range pmmSectors).filter (fun k => c.phys.isFree k = true)
      = p.free.map Fin.valEmbedding := by
    ext k
    rw [Finset.mem_filter, Finset.mem_range, Finset.mem_map]
    constructor
    · rintro ⟨hk, hfree⟩
      exact ⟨⟨k, hk⟩, (hR.free ⟨k, hk⟩).mpr hfree, rfl⟩
    · rintro ⟨j, hj, rfl⟩
      exact ⟨j.isLt, (hR.free j).mp hj⟩
  rw [PhysMem.freeSectors, Nat.count_eq_card_filter_range, hmap, Finset.card_map]

/-- The configuration is the image of a pool that hands out nothing twice and has all sectors of the map. -/
def PhysConfig.Balanced (c : PhysConfig) : Prop := ∃ p, Abstracts c p ∧ p.Ok ∧ p.size = pmmSectors

theorem balanced_init (start total : UInt32) : (PhysConfig.init start total).Balanced :=
  ⟨_, abstracts_init start total, Pool.full_ok _, (Pool.size_full _).trans (Finset.card_fin _)⟩

theorem PhysConfig.Balanced.count {c : PhysConfig} (h : c.Balanced) :
    c.phys.freeSectors + c.outstanding.length = pmmSectors := by
  obtain ⟨p, hR, -, hsize⟩ := h
  rw [hR.freeSectors_eq, hR.held, List.length_map]
  exact hsize

/-- **No call loses or duplicates a sector.** -/
theorem PhysStep.balanced {c c' : PhysConfig} {l : PhysCall × UInt32}
    (hnull : NoNullSector c.phys.memPhysStart) (hc : c.Balanced) (h : PhysStep c l c') :
    c'.Balanced := by
  obtain ⟨p, hR, hok, hsize⟩ := hc
  rcases h.cases with ⟨rfl, -⟩ | ⟨i, n, hrun, -, rfl⟩ | ⟨a, s', -, hmem, hs', rfl⟩
  · exact ⟨p, hR, hok, hsize⟩
  · rcases Nat.eq_zero_or_pos n with rfl | hpos
    -- an empty run: nothing is marked, nothing is handed out
    · refine ⟨p, ⟨hR.free, ?_⟩, hok, hsize⟩
      show handedOut (sectorAddr c.phys.memPhysStart i) 0 ++ c.outstanding = _
      rw [handedOut, List.range_zero, List.map_nil, ite_self, List.nil_append]
      exact hR.held
    · have hi : i < pmmSectors := PhysMem.isFree_lt (hrun 0 hpos)
      obtain ⟨xs, hnd, hfree, hq⟩ := hR.take_run hrun (hnull i hi)
      exact ⟨_, hq, (Pool.Step.take hnd hfree).ok hok, (Pool.size_take hnd hfree).trans hsize⟩
  · obtain ⟨s'', k, heq, hk, hq⟩ := hR.give hmem
    obtain rfl := Except.ok.inj (hs'.symm.trans heq)
    exact ⟨_, hq, (Pool.Step.give hk).ok hok, (Pool.size_give hok hk).trans hsize⟩

/-! ## Failures -/

theorem memPhysAlloc_fail {s s' : PhysMem} (hnull : NoNullSector s.memPhysStart)
    (h : memPhysAlloc s = (s', 0)) : s' = s := by
  rcases memPhysAlloc_cases s with ⟨k, hk, -, heq⟩ | ⟨-, heq⟩
  · have haddr : sectorAddr s.memPhysStart k = 0 := congrArg Prod.snd (heq.symm.trans h)
    exact absurd haddr (hnull k (PhysMem.isFree_lt hk))
  · exact (congrArg Prod.fst (heq.symm.trans h)).symm

theorem memPhysAllocSectors_fail {s s' : PhysMem} {n : UInt32} (hnull : NoNullSector s.memPhysStart)
    (h : memPhysAllocSectors s n = .ok (s', 0)) : s' = s := by
  rcases memPhysAllocSectors_cases h with ⟨-, rfl, -⟩ | ⟨hpos, i, -, hrun, -, -, haddr⟩ | ⟨-, -, -, rfl, -⟩
  · rfl
  · exact absurd haddr.symm (hnull i (PhysMem.isFree_lt (hrun 0 hpos)))
  · rfl

/-! ## Giving a run back -/

/-- **Freeing sectors one after the other** sets exactly their bits, in whatever order. -/
theorem memPhysFree_all {l : List UInt32} : ∀ {s : PhysMem},
    (∀ a ∈ l, ∃ k < pmmSectors, a = sectorAddr s.memPhysStart k) →
    ∃ s', l.foldlM memPhysFree s = .ok s' ∧
      ∀ k < pmmSectors, s'.isFree k = (s.isFree k || decide (sectorAddr s.memPhysStart k ∈ l)) := by
  induction l with
  | nil =>
      intro s _
      exact ⟨s, rfl, fun k _ => by simp⟩
  | cons a l ih =>
      intro s hl
      obtain ⟨i, hi, rfl⟩ := hl a List.mem_cons_self
      obtain ⟨s', hs', hbits⟩ := ih (s := { s with memPhysMap := Bitmap.setAt s.memPhysMap i })
        (fun b hb => hl b (List.mem_cons_of_mem _ hb))
      refine ⟨s', ?_, ?_⟩
      · rw [List.foldlM_cons, memPhysFree_eq s hi]
        exact hs'
      · intro k hk
        have hset : PhysMem.isFree { s with memPhysMap := Bitmap.setAt s.memPhysMap i } k
            = (s.isFree k || decide (k = i)) :=
          Bitmap.bitAt_setAt s.memPhysMap (show i < 8 * (pmmSectors / 8) from hi) k
        have hsame : sectorAddr s.memPhysStart k = sectorAddr s.memPhysStart i ↔ k = i :=
          ⟨fun h => sectorAddr_inj hk hi h, fun h => by rw [h]⟩
        rw [hbits k hk, hset, Bool.or_assoc, ← Bool.decide_or]
        simp only [List.mem_cons, hsame]

/-- **What was taken can be given back.** The sectors of an answered range, freed one by one in any order,
    leave the map as it was before the range was taken. -/
theorem memPhysFree_restores {s s' : PhysMem} {n p : UInt32}
    (h : memPhysAllocSectors s n = .ok (s', p)) (hp : p ≠ 0) {l : List UInt32}
    (hl : l.Perm ((List.range n.toNat).map fun k => p + UInt32.ofNat (pmmSectorSize * k))) :
    ∃ s'', l.foldlM memPhysFree s' = .ok s'' ∧ s''.memPhysMap = s.memPhysMap := by
  rcases memPhysAllocSectors_cases h with ⟨-, -, rfl⟩ | ⟨-, i, -, hrun, -, rfl, rfl⟩ | ⟨-, -, -, -, rfl⟩
  · exact absurd rfl hp
  · have hmem : ∀ a, a ∈ l ↔ ∃ t < n.toNat, a = sectorAddr s.memPhysStart (i + t) := by
      intro a
      rw [hl.mem_iff, List.mem_map]
      constructor
      · rintro ⟨t, ht, rfl⟩
        exact ⟨t, List.mem_range.mp ht, by rw [sectorAddr, add_ofNat_add, ← Nat.mul_add, sectorAddr]⟩
      · rintro ⟨t, ht, rfl⟩
        exact ⟨t, List.mem_range.mpr ht, by rw [sectorAddr, add_ofNat_add, ← Nat.mul_add, sectorAddr]⟩
    have hlt : ∀ t < n.toNat, i + t < pmmSectors := fun t ht => PhysMem.isFree_lt (hrun t ht)
    obtain ⟨s'', hs'', hbits⟩ := memPhysFree_all (s := s.clearRun i n.toNat) (l := l) (by
      intro a ha
      obtain ⟨t, ht, rfl⟩ := (hmem a).mp ha
      exact ⟨i + t, hlt t ht, rfl⟩)
    refine ⟨s'', hs'', Bitmap.ext_bitAt ?_⟩
    intro k hk
    have hk' : k < pmmSectors := hk
    show s''.isFree k = s.isFree k
    have hin : sectorAddr s.memPhysStart k ∈ l ↔ i ≤ k ∧ k < i + n.toNat := by
      rw [hmem]
      constructor
      · rintro ⟨t, ht, heq⟩
        have := sectorAddr_inj hk' (hlt t ht) heq
        omega
      · rintro ⟨h1, h2⟩
        exact ⟨k - i, by omega, by rw [Nat.add_sub_cancel' h1]⟩
    have hstart : (s.clearRun i n.toNat).memPhysStart = s.memPhysStart := rfl
    rw [hbits k hk', hstart, PhysMem.isFree_clearRun]
    by_cases hrange : i ≤ k ∧ k < i + n.toNat
    · have hfree := hrun (k - i) (by omega)
      rw [Nat.add_sub_cancel' hrange.1] at hfree
      simp [hin, hrange, hfree]
    · have hout : k < i ∨ i + n.toNat ≤ k := by omega
      simp only [hin, hrange, hout, decide_true, decide_false, Bool.and_true, Bool.or_false]
  · exact absurd rfl hp

/-- **The allocator's books.** In every history of an allocator whose map covers the managed memory and has
    no sector at the null address: the set bits and the outstanding sectors are as many as the map has
    sectors; a failing call leaves the map as it was; `memPhysAllocSectors` always returns; and the
    sectors of the range it answers, freed in any order, give the map back bit for bit. -/
theorem sectors_accounted (start total : UInt32) (hcap : total.toNat ≤ pmmSectors * pmmSectorSize)
    (hnull : NoNullSector start) {vis : List (PhysConfig × PhysCall × UInt32)} {c : PhysConfig}
    (hrun : Run PhysStep (PhysConfig.init start total) vis c) :
    c.phys.freeSectors + c.outstanding.length = pmmSectors ∧
    (∀ s', memPhysAlloc c.phys = (s', 0) → s'.memPhysMap = c.phys.memPhysMap) ∧
    (∀ n s', memPhysAllocSectors c.phys n = .ok (s', 0) → s'.memPhysMap = c.phys.memPhysMap) ∧
    (∀ n, ∃ s' p, memPhysAllocSectors c.phys n = .ok (s', p) ∧
      (p ≠ 0 → ∀ l : List UInt32,
        l.Perm ((List.range n.toNat).map fun k => p + UInt32.ofNat (pmmSectorSize * k)) →
        ∃ s'', l.foldlM memPhysFree s' = .ok s'' ∧ s''.memPhysMap = c.phys.memPhysMap)) := by
  have hstep : ∀ ⦃d l d'⦄, d.Balanced ∧ d.Spans start total → PhysStep d l d' →
      d'.Balanced ∧ d'.Spans start total := by
    rintro d l d' ⟨hbal, hspans⟩ hcall
    exact ⟨hcall.balanced (by rw [hspans.start_eq]; exact hnull) hbal, hcall.spans hspans⟩
  obtain ⟨hbal, hspans⟩ := hrun.invariant hstep ⟨balanced_init start total, spans_init start total⟩
  have hnull' : NoNullSector c.phys.memPhysStart := by rw [hspans.start_eq]; exact hnull
  refine ⟨hbal.count, ?_, ?_, ?_⟩
  · intro s' h
    rw [memPhysAlloc_fail hnull' h]
  · intro n s' h
    rw [memPhysAllocSectors_fail hnull' h]
  · intro n
    obtain ⟨s', p, h⟩ := memPhysAllocSectors_total (hspans.capacity hcap) n
    exact ⟨s', p, h, fun hp l hl => memPhysFree_restores h hp hl⟩

/-- A map that starts above the null page and ends below `2^32` has no sector at the null address. -/
theorem noNullSector_of_le {start : UInt32} (hpos : 0 < start.toNat)
    (hend : start.toNat + pmmSectors * pmmSectorSize ≤ 2 ^ 32) : NoNullSector start := by
  intro k hk h
  have haddr : (sectorAddr start k).toNat = start.toNat + pmmSectorSize * k := by
    unfold pmmSectors pmmSectorSize at *
    unfold sectorAddr
    exact toNat_add_ofNat (by unfold pmmSectorSize; omega)
  rw [h, UInt32.toNat_zero] at haddr
  omega

theorem sectors_accounted_pair : ∃ vis c,
    Run PhysStep (PhysConfig.init 0x100000 0x200000) vis c ∧ c.outstanding.length = 2 ∧
      c.phys.freeSectors + 2 = pmmSectors := by
  obtain ⟨vis, c, hrun, -, hout⟩ := pair_run
  have hlen : c.outstanding.length = 2 := by rw [hout]; rfl
  have h := (sectors_accounted 0x100000 0x200000 (by decide)
    (noNullSector_of_le (by decide) (by decide)) hrun).1
  rw [hlen] at h
  exact ⟨vis, c, hrun, hlen, h⟩

/-- An allocator that starts at address 0 answers its first call with the null address and takes the
    sector. -/
theorem alloc_null_takes : ∃ vis c, Run PhysStep (PhysConfig.init 0 0x200000) vis c ∧
    (memPhysAlloc c.phys).2 = 0 ∧ (memPhysAlloc c.phys).1.memPhysMap ≠ c.phys.memPhysMap := by
  have hfirst := memPhysAlloc_first (s := memPhysInit 0 0x200000) (k := 0)
    (memPhysInit_isFree (by decide)) (fun j hj => absurd hj (by omega))
  refine ⟨[], _, .nil, ?_, ?_⟩
  · show (memPhysAlloc (memPhysInit 0 0x200000)).2 = 0
    rw [hfirst]
    decide
  · show (memPhysAlloc (memPhysInit 0 0x200000)).1.memPhysMap ≠ (memPhysInit 0 0x200000).memPhysMap
    rw [hfirst]
    intro hsame
    have hfree : (memPhysInit 0 0x200000).isFree 0 = true := memPhysInit_isFree (by decide)
    have htaken := PhysMem.isFree_clear (memPhysInit 0 0x200000) 0 0
    rw [PhysMem.isFree, hsame] at htaken
    rw [PhysMem.isFree, htaken] at hfree
    simp at hfree

end Drupe
