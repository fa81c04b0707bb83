import Mathlib.Order.Bounds.Basic
import Mathlib.Order.Lattice.Nat
import Drupe.Memory.Physical

/-!
# `Memory.Correctness.FirstFit` — which sectors an allocator picks

The two allocators search in different ways: `memPhysAllocSectors` runs along the managed sectors,
`memPhysAlloc` goes through the bytes of the map and skips the empty ones. What either finds is a least
element: of the free runs that fit the managed memory (`memPhysAllocSectors_leastRun`), or of the free
sectors of the map (`memPhysAlloc_leastFree`). A run of one sector is a free sector, so with a managed
sector free they agree (`memPhysAlloc_eq_allocSectors`).

A run scan returns exactly when it finds a run or is stopped inside the map (`ScanInside`), which it
always is in a map that covers the managed memory.
-/

namespace Drupe

open Lib

/-- The first sectors of the runs of `n` managed sectors that are all free. -/
def PhysMem.runs (s : PhysMem) (n : Nat) : Set Nat := {i | i + n ≤ s.memPhysSectors.toNat ∧ s.FreeRun i n}

/-- The free sectors of the map, managed or not. -/
def PhysMem.freeSet (s : PhysMem) : Set Nat := {k | s.isFree k = true}

/-- What marking the run `i`, …, `i + n - 1` as taken does: its bits are cleared, and nothing else changes. -/
structure PhysMem.Takes (s s' : PhysMem) (i n : Nat) : Prop where
  start_eq : s'.memPhysStart = s.memPhysStart
  sectors_eq : s'.memPhysSectors = s.memPhysSectors
  taken : ∀ k, i ≤ k → k < i + n → s'.isFree k = false
  others : ∀ k, k < i ∨ i + n ≤ k → s'.isFree k = s.isFree k

theorem PhysMem.takes_clearRun (s : PhysMem) (i n : Nat) : s.Takes (s.clearRun i n) i n where
  start_eq := rfl
  sectors_eq := rfl
  taken := by
    intro k hk hlt
    rw [PhysMem.isFree_clearRun, decide_eq_false (by omega), Bool.and_false]
  others := by
    intro k hk
    rw [PhysMem.isFree_clearRun, decide_eq_true hk, Bool.and_true]

/-- The sectors that were taken are those that were free before and are not now: there is one such run. -/
theorem PhysMem.Takes.unique {s s' : PhysMem} {i n j l : Nat} (h : s.Takes s' i n) (h' : s.Takes s' j l)
    (hfree : s.FreeRun i n) (hfree' : s.FreeRun j l) (hn : 0 < n) (hl : 0 < l) : i = j ∧ n = l := by
  have hsub : ∀ {i n j l : Nat}, s.Takes s' i n → s.Takes s' j l → s.FreeRun i n →
      ∀ k, i ≤ k → k < i + n → j ≤ k ∧ k < j + l := by
    intro i n j l h h' hfree k hk hlt
    by_contra hout
    have hsame := h'.others k (by omega)
    have hwas := hfree (k - i) (by omega)
    rw [Nat.add_sub_cancel' hk] at hwas
    rw [h.taken k hk hlt, hwas] at hsame
    exact Bool.noConfusion hsame
  have hfirst := hsub h h' hfree i (Nat.le_refl i) (by omega)
  have hlast := hsub h h' hfree (i + n - 1) (by omega) (by omega)
  have hfirst' := hsub h' h hfree' j (Nat.le_refl j) (by omega)
  have hlast' := hsub h' h hfree' (j + l - 1) (by omega) (by omega)
  omega

theorem exists_isLeast {S : Set Nat} (h : S.Nonempty) : ∃ i, IsLeast S i :=
  ⟨sInf S, Nat.sInf_mem h, fun _ hi => Nat.sInf_le hi⟩

/-! ## When the run scan returns -/

/-- **When the run scan stays inside.** The request is refused at once, or a free run fits it, or a sector
    of the map is taken among those from the last possible start of a run on. -/
def ScanInside (s : PhysMem) (n : UInt32) : Prop :=
  n = 0 ∨ s.memPhysSectors < n ∨ (s.runs n.toNat).Nonempty ∨
  ∃ k < pmmSectors, s.memPhysSectors.toNat - n.toNat ≤ k ∧ s.isFree k = false

section Scan

variable {s : PhysMem}

/-- A run of sectors of the map is free or blocked. -/
theorem PhysMem.freeRun_or_blocked {i n : Nat} (h : i + n ≤ pmmSectors) : s.FreeRun i n ∨ s.Blocked i n := by
  by_cases hfree : s.FreeRun i n
  · exact .inl hfree
  · unfold PhysMem.FreeRun at hfree
    push Not at hfree
    obtain ⟨t, ht, htaken⟩ := hfree
    exact .inr ⟨t, ht, by omega, by simpa using htaken⟩

/-- A check returns when it comes to a taken sector of the map, or to the end of a free run. -/
theorem checkRun_returns {i fuel j : Nat}
    (h : (∀ t, j ≤ t → t < j + fuel → s.isFree (i + t) = true) ∨
      ∃ t, j ≤ t ∧ t < j + fuel ∧ i + t < pmmSectors ∧ s.isFree (i + t) = false) :
    ∃ r, checkRun s.memPhysMap i fuel j = .ok r := by
  induction fuel generalizing j with
  | zero => exact ⟨j, rfl⟩
  | succ fuel ih =>
      have hin : i + j < pmmSectors := by
        rcases h with hfree | ⟨t, hle, -, hlt, -⟩
        · exact PhysMem.isFree_lt (hfree j (Nat.le_refl j) (by omega))
        · omega
      rw [checkRun, readBit_of_lt hin]
      cases hbit : s.isFree (i + j) with
      | false => exact ⟨j, rfl⟩
      | true =>
          apply ih
          rcases h with hfree | ⟨t, hle, hlt, hmap, htaken⟩
          · exact .inl fun t hjt ht => hfree t (by omega) (by omega)
          · right
            rcases Nat.eq_or_lt_of_le hle with rfl | hgt
            · rw [hbit] at htaken
              exact Bool.noConfusion htaken
            · exact ⟨t, hgt, by omega, hmap, htaken⟩

/-- A scan returns when each run before the first free one is blocked. -/
theorem findRun_returns {num fuel i : Nat}
    (h : ∀ j, i ≤ j → j < i + fuel → (∀ k, i ≤ k → k < j → ¬ s.FreeRun k num) →
      s.FreeRun j num ∨ s.Blocked j num) : ∃ r, findRun s.memPhysMap num fuel i = .ok r := by
  induction fuel generalizing i with
  | zero => exact ⟨none, rfl⟩
  | succ fuel ih =>
      have hfirst := h i (Nat.le_refl i) (by omega) fun k hik hki => absurd hik (by omega)
      obtain ⟨r, hr⟩ : ∃ r, checkRun s.memPhysMap i num 0 = .ok r := by
        apply checkRun_returns
        rcases hfirst with hfree | ⟨t, ht, hmap, htaken⟩
        · exact .inl fun t _ ht => hfree t (by omega)
        · exact .inr ⟨t, Nat.zero_le t, by omega, hmap, htaken⟩
      rw [findRun, hr]
      simp only
      rcases checkRun_zero hr with ⟨hnum, -⟩ | ⟨hnum, hblocked⟩
      · rw [if_pos hnum]
        exact ⟨some i, rfl⟩
      · rw [if_neg hnum]
        refine ih fun j hij hj hbefore => h j (by omega) (by omega) fun k hik hkj => ?_
        rcases Nat.eq_or_lt_of_le hik with rfl | hgt
        · exact hblocked.not_freeRun
        · exact hbefore k hgt hkj

/-- In such a state, each run that the scan comes to is free or blocked. -/
theorem ScanInside.freeRun_or_blocked {n : UInt32} (h : ScanInside s n) (hn : n ≠ 0)
    (hle : n ≤ s.memPhysSectors) {j : Nat} (hj : j ≤ s.memPhysSectors.toNat - n.toNat)
    (hbefore : ∀ i < j, ¬ s.FreeRun i n.toNat) : s.FreeRun j n.toNat ∨ s.Blocked j n.toNat := by
  have hfits := UInt32.le_iff_toNat_le.mp hle
  have hpos : 0 < n.toNat := toNat_pos hn
  rcases h with h0 | hgt | ⟨i, hfit, hrun⟩ | ⟨k, hk, hlast, htaken⟩
  · exact absurd h0 hn
  · exact absurd hle (UInt32.not_le.mpr hgt)
  · rcases Nat.lt_or_ge i j with hlt | hge
    · exact absurd hrun (hbefore i hlt)
    · have hend := PhysMem.isFree_lt (hrun (n.toNat - 1) (by omega))
      exact PhysMem.freeRun_or_blocked (by omega)
  · rcases Nat.lt_or_ge k (j + n.toNat) with hin | hpast
    · refine .inr ⟨k - j, by omega, by omega, ?_⟩
      rw [Nat.add_sub_cancel' (by omega)]
      exact htaken
    · exact PhysMem.freeRun_or_blocked (by omega)

theorem memPhysAllocSectors_returns_iff {n : UInt32} :
    (∃ r, memPhysAllocSectors s n = .ok r) ↔ ScanInside s n := by
  constructor
  · rintro ⟨⟨s', p⟩, h⟩
    rcases memPhysAllocSectors_cases h with ⟨hguard, -, -⟩ | ⟨-, i, hfit, hrun, -⟩ | ⟨hpos, hle, hno, -, -⟩
    · exact or_assoc.mp (.inl hguard)
    · exact .inr (.inr (.inl ⟨i, hfit, hrun⟩))
    -- the last run that fits is blocked too
    · have hle' := UInt32.le_iff_toNat_le.mp hle
      obtain ⟨t, ht, hmap, htaken⟩ := hno (s.memPhysSectors.toNat - n.toNat) (by omega)
      exact .inr (.inr (.inr ⟨_, hmap, Nat.le_add_right _ t, htaken⟩))
  · intro h
    unfold memPhysAllocSectors
    by_cases hguard : n = 0 ∨ n > s.memPhysSectors
    · rw [if_pos hguard]
      exact ⟨_, rfl⟩
    rw [if_neg hguard]
    rw [not_or, UInt32.not_lt] at hguard
    obtain ⟨r, hr⟩ : ∃ r, findRun s.memPhysMap n.toNat (s.memPhysSectors.toNat - n.toNat + 1) 0 = .ok r := by
      apply findRun_returns
      intro j _ hj hbefore
      exact h.freeRun_or_blocked hguard.1 hguard.2 (by omega) fun i hi => hbefore i (Nat.zero_le i) hi
    simp only [hr]
    cases r with
    | some i => exact ⟨_, rfl⟩
    | none => exact ⟨_, rfl⟩

/-- A map that covers the managed memory is never left. -/
theorem scanInside_of_capacity (hcap : s.memPhysSectors.toNat ≤ pmmSectors) (n : UInt32) : ScanInside s n := by
  obtain ⟨s', p, h⟩ := memPhysAllocSectors_total hcap n
  exact memPhysAllocSectors_returns_iff.mp ⟨_, h⟩

/-! ## The run scan -/

variable {n : UInt32}

/-- **The least run is taken.** -/
theorem memPhysAllocSectors_leastRun (hn : n ≠ 0) {i : Nat} (hi : IsLeast (s.runs n.toNat) i) :
    memPhysAllocSectors s n = .ok (s.clearRun i n.toNat, sectorAddr s.memPhysStart i) := by
  obtain ⟨⟨s', p⟩, hret⟩ := memPhysAllocSectors_returns_iff.mpr (.inr (.inr (.inl ⟨i, hi.1⟩)))
  rw [hret]
  rcases memPhysAllocSectors_cases hret with ⟨hguard, -⟩ | ⟨-, k, hfit, hrun, hlow, rfl, rfl⟩ | ⟨-, -, hno, -⟩
  · have hfit := hi.1.1
    rcases hguard with h0 | hlt
    · exact absurd h0 hn
    · have := UInt32.lt_iff_toNat_lt.mp hlt
      omega
  -- every run before the one that is taken is blocked
  · have hk : IsLeast (s.runs n.toNat) k := by
      refine ⟨⟨hfit, hrun⟩, fun j hj => ?_⟩
      by_contra hlt
      exact absurd hj.2 (hlow j (Nat.not_le.mp hlt)).not_freeRun
    rw [hk.unique hi]
  · exact absurd hi.1.2 (hno i hi.1.1).not_freeRun

/-- **Without a run the request fails**, and nothing is taken. -/
theorem memPhysAllocSectors_noRun (hscan : ScanInside s n) (h : n = 0 ∨ s.runs n.toNat = ∅) :
    memPhysAllocSectors s n = .ok (s, 0) := by
  obtain ⟨⟨s', p⟩, hret⟩ := memPhysAllocSectors_returns_iff.mpr hscan
  rcases memPhysAllocSectors_cases hret with ⟨-, rfl, rfl⟩ | ⟨hpos, i, hfit, hrun, -, -, -⟩ | ⟨-, -, -, rfl, rfl⟩
  · exact hret
  · rcases h with rfl | hempty
    · exact absurd hpos (by decide)
    · have hmem : i ∈ s.runs n.toNat := ⟨hfit, hrun⟩
      rw [hempty] at hmem
      exact absurd hmem (Set.notMem_empty i)
  · exact hret

end Scan

/-- **First fit.** For every map, start and number of managed sectors that the map can hold, and every
    request: it fails and takes nothing when it is empty or no run of free managed sectors fits it;
    otherwise it takes the lowest such run and answers its address. So the answer is 0 in the first case,
    and when the lowest run is at address 0. -/
theorem memPhysAllocSectors_firstFit (s : PhysMem) (hcap : s.memPhysSectors.toNat ≤ pmmSectors) (n : UInt32) :
    ∃ s' p, memPhysAllocSectors s n = .ok (s', p) ∧
      (n = 0 ∨ s.runs n.toNat = ∅ → s' = s ∧ p = 0) ∧
      (¬ (n = 0 ∨ s.runs n.toNat = ∅) →
        ∃ i, IsLeast (s.runs n.toNat) i ∧ p = sectorAddr s.memPhysStart i ∧ s.Takes s' i n.toNat) ∧
      (p = 0 ↔ n = 0 ∨ s.runs n.toNat = ∅ ∨
        ∃ i, IsLeast (s.runs n.toNat) i ∧ sectorAddr s.memPhysStart i = 0) := by
  by_cases hnone : n = 0 ∨ s.runs n.toNat = ∅
  · have hfails := memPhysAllocSectors_noRun (scanInside_of_capacity hcap n) hnone
    refine ⟨s, 0, hfails, fun _ => ⟨rfl, rfl⟩, fun h => absurd hnone h, ?_⟩
    exact iff_of_true rfl (or_assoc.mp (.inl hnone))
  · have hsome := not_or.mp hnone
    obtain ⟨i, hi⟩ := exists_isLeast (Set.nonempty_iff_ne_empty.mpr hsome.2)
    refine ⟨_, _, memPhysAllocSectors_leastRun hsome.1 hi, fun h => absurd h hnone,
      fun _ => ⟨i, hi, rfl, s.takes_clearRun i n.toNat⟩, ?_⟩
    rw [← or_assoc, or_iff_right hnone]
    constructor
    · intro h0
      exact ⟨i, hi, h0⟩
    · rintro ⟨j, hj, h0⟩
      rw [hi.unique hj]
      exact h0

/-- Four managed sectors, the first one taken. -/
def firstTaken : PhysMem := (memPhysInit 0x100000 0x8000).clear 0

theorem firstTaken_isFree {k : Nat} (hk : k < pmmSectors) : firstTaken.isFree k = decide (k ≠ 0) := by
  rw [firstTaken, PhysMem.isFree_clear, memPhysInit_isFree hk, Bool.true_and]

theorem firstTaken_leastRun : IsLeast (firstTaken.runs 2) 1 := by
  refine ⟨⟨by decide, fun t ht => ?_⟩, fun i hi => ?_⟩
  · rw [firstTaken_isFree (by unfold pmmSectors; omega), decide_eq_true (by omega)]
  · by_contra hlt
    obtain rfl : i = 0 := by omega
    have hfirst := hi.2 0 Nat.two_pos
    rw [firstTaken_isFree (by decide)] at hfirst
    exact absurd hfirst (by decide)

theorem memPhysAllocSectors_firstFit_pair : ∃ s', memPhysAllocSectors firstTaken 2 = .ok (s', 0x102000) ∧
    firstTaken.Takes s' 1 2 := by
  obtain ⟨s', p, hret, -, hmet, -⟩ := memPhysAllocSectors_firstFit firstTaken (by decide) 2
  have hrun : ¬ ((2 : UInt32) = 0 ∨ firstTaken.runs (2 : UInt32).toNat = ∅) := by
    rintro (h | h)
    · exact absurd h (by decide)
    · exact Set.nonempty_iff_ne_empty.mp ⟨1, firstTaken_leastRun.1⟩ h
  obtain ⟨i, hi, rfl, htakes⟩ := hmet hrun
  obtain rfl : i = 1 := hi.unique firstTaken_leastRun
  exact ⟨s', hret, htakes⟩

/-- The one sector of an allocator that starts at address 0 is taken, and the answer is 0. -/
theorem allocSectors_null_takes : ∃ s', memPhysAllocSectors (memPhysInit 0 0x2000) 1 = .ok (s', 0) ∧
    (memPhysInit 0 0x2000).runs 1 ≠ ∅ ∧ s'.memPhysMap ≠ (memPhysInit 0 0x2000).memPhysMap := by
  have hrun : IsLeast ((memPhysInit 0 0x2000).runs (1 : UInt32).toNat) 0 := by
    refine ⟨⟨by decide, fun t ht => ?_⟩, fun i _ => Nat.zero_le i⟩
    have hone : (1 : UInt32).toNat = 1 := rfl
    exact memPhysInit_isFree (by unfold pmmSectors; omega)
  have halloc := memPhysAllocSectors_leastRun (by decide) hrun
  refine ⟨_, halloc, Set.nonempty_iff_ne_empty.mp ⟨0, hrun.1⟩, fun hsame => ?_⟩
  have htaken := ((memPhysInit 0 0x2000).takes_clearRun 0 1).taken 0 (by decide) (by decide)
  have hfree : (memPhysInit 0 0x2000).isFree 0 = true := memPhysInit_isFree (by decide)
  rw [PhysMem.isFree, ← hsame] at hfree
  rw [PhysMem.isFree] at htaken
  exact Bool.noConfusion (hfree.symm.trans htaken)

/-! ## The byte scan -/

/-- **The least free sector is taken**, wherever it is in the map. -/
theorem memPhysAlloc_leastFree {s : PhysMem} {k : Nat} (hk : IsLeast s.freeSet k) :
    memPhysAlloc s = (s.clear k, sectorAddr s.memPhysStart k) := by
  refine memPhysAlloc_first hk.1 fun j hj => ?_
  cases hfree : s.isFree j with
  | false => rfl
  | true => exact absurd (hk.2 hfree) (Nat.not_le.mpr hj)

/-- A run of one sector is a free managed sector. -/
theorem PhysMem.mem_runs_one {s : PhysMem} {k : Nat} :
    k ∈ s.runs 1 ↔ k < s.memPhysSectors.toNat ∧ s.isFree k = true := by
  refine and_congr Nat.succ_le_iff ?_
  constructor
  · intro hrun
    exact hrun 0 Nat.one_pos
  · intro hfree t ht
    obtain rfl : t = 0 := by omega
    exact hfree

/-- With a managed sector free, the least free sector of the map is the least run of one sector. -/
theorem PhysMem.isLeast_runs_one {s : PhysMem} (h : ∃ k < s.memPhysSectors.toNat, s.isFree k = true) {k : Nat}
    (hk : IsLeast s.freeSet k) : IsLeast (s.runs 1) k := by
  obtain ⟨j, hj, hfree⟩ := h
  have hle : k ≤ j := hk.2 hfree
  exact ⟨mem_runs_one.mpr ⟨by omega, hk.1⟩, fun i hi => hk.2 (mem_runs_one.mp hi).2⟩

/-- **The two searches agree.** For every map, start and number of managed sectors, with a managed sector
    free: both allocators take the lowest free sector, which is a managed one, and answer its address. -/
theorem memPhysAlloc_eq_allocSectors (s : PhysMem)
    (h : ∃ k < s.memPhysSectors.toNat, s.isFree k = true) :
    memPhysAllocSectors s 1 = .ok (memPhysAlloc s) ∧
    ∃ k, IsLeast s.freeSet k ∧ k < s.memPhysSectors.toNat ∧
      memPhysAlloc s = (s.clear k, sectorAddr s.memPhysStart k) := by
  obtain ⟨j, hj, hfree⟩ := h
  obtain ⟨k, hk⟩ := exists_isLeast ⟨j, show j ∈ s.freeSet from hfree⟩
  have hone := PhysMem.isLeast_runs_one ⟨j, hj, hfree⟩ hk
  have halloc := memPhysAlloc_leastFree hk
  refine ⟨?_, k, hk, (PhysMem.mem_runs_one.mp hone.1).1, halloc⟩
  rw [halloc]
  -- clearing a run of one sector is clearing the sector
  exact memPhysAllocSectors_leastRun (by decide) hone

theorem memPhysAlloc_eq_allocSectors_firstTaken :
    memPhysAllocSectors firstTaken 1 = .ok (memPhysAlloc firstTaken) :=
  (memPhysAlloc_eq_allocSectors firstTaken ⟨1, by decide, by rw [firstTaken_isFree (by decide)]; decide⟩).1

end Drupe
