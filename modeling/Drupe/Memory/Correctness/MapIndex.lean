import Drupe.Memory.Correctness.Exclusive
import Drupe.Memory.Correctness.FirstFit
import Drupe.Memory.Correctness.Managed

/-!
# `Memory.Correctness.MapIndex` — the indexes into the map

`mem_phys_map` has `pmmSectors / 8` bytes, whatever the amount of memory is. `PhysMem.mapIndexes` lists
the indexes that a call uses. `memPhysAlloc` counts the bytes of the map and `memPhysFree` finds the
sector that was handed out, so both stay inside; `memPhysAllocSectors` counts the managed sectors, and
stays inside exactly when `ScanInside`.
-/

namespace Drupe

open Lib

/-- The indexes of the check loop. After one past the end of the array there are none: what the source
    reads there is not in the map. -/
def checkRunIndexes (m : Bitmap (pmmSectors / 8)) (i : Nat) : (fuel j : Nat) → List Nat
  | 0, _ => []
  | fuel + 1, j =>
    (i + j) / 8 ::
      match readBit m (i + j) with
      | .ok true => checkRunIndexes m i fuel (j + 1)
      | _ => []

/-- The indexes of the loop over the first sector of the run, and of the one that marks the run it finds. -/
def findRunIndexes (m : Bitmap (pmmSectors / 8)) (numSectors : Nat) : (fuel i : Nat) → List Nat
  | 0, _ => []
  | fuel + 1, i =>
    checkRunIndexes m i numSectors 0 ++
      match checkRun m i numSectors 0 with
      | .ok j =>
        if j = numSectors then (List.range numSectors).map fun j => (i + j) / 8
        else findRunIndexes m numSectors fuel (i + 1)
      | .error _ => []

/-- The indexes into `mem_phys_map` that a call uses, in order. -/
def PhysMem.mapIndexes (s : PhysMem) : PhysCall → List Nat
  | .alloc =>
    match firstFree s.memPhysMap with
    | some k => List.range (k / 8 + 1) ++ [k / 8]
    | none => List.range (pmmSectors / 8)
  | .allocSectors n =>
    if n = 0 ∨ n > s.memPhysSectors then []
    else findRunIndexes s.memPhysMap n.toNat (s.memPhysSectors.toNat - n.toNat + 1) 0
  | .free a => [((a - s.memPhysStart) / UInt32.ofNat pmmSectorSize).toNat / 8]

/-- **What a call owes the map.** -/
def IndexesInside (s : PhysMem) (call : PhysCall) : Prop := ∀ k ∈ s.mapIndexes call, k < pmmSectors / 8

/-- The calls that keep to the map: all but the scans that leave it. -/
def KeepsInside (s : PhysMem) : PhysCall → Prop
  | .allocSectors n => ScanInside s n
  | _ => True

/-! ## The scan returns exactly when its indexes are inside -/

section Scan

variable {s : PhysMem}

theorem checkRun_ok_iff {i fuel j : Nat} :
    (∃ r, checkRun s.memPhysMap i fuel j = .ok r) ↔
      ∀ k ∈ checkRunIndexes s.memPhysMap i fuel j, k < pmmSectors / 8 := by
  induction fuel generalizing j with
  | zero => exact iff_of_true ⟨j, rfl⟩ fun k hk => absurd hk (by simp [checkRunIndexes])
  | succ fuel ih =>
      rw [checkRun, checkRunIndexes, List.forall_mem_cons]
      unfold readBit
      by_cases hin : (i + j) / 8 < pmmSectors / 8
      · rw [if_pos hin, and_iff_right hin]
        cases Bitmap.bitAt s.memPhysMap (i + j) with
        | true => exact ih
        | false => exact iff_of_true ⟨j, rfl⟩ fun k hk => absurd hk (by simp)
      · rw [if_neg hin]
        refine iff_of_false ?_ fun h => hin h.1
        rintro ⟨r, hr⟩
        cases hr

theorem findRun_ok_iff {num fuel i : Nat} :
    (∃ r, findRun s.memPhysMap num fuel i = .ok r) ↔
      ∀ k ∈ findRunIndexes s.memPhysMap num fuel i, k < pmmSectors / 8 := by
  induction fuel generalizing i with
  | zero => exact iff_of_true ⟨none, rfl⟩ fun k hk => absurd hk (by simp [findRunIndexes])
  | succ fuel ih =>
      rw [findRun, findRunIndexes, List.forall_mem_append]
      have hcheck := @checkRun_ok_iff s i num 0
      cases hc : checkRun s.memPhysMap i num 0 with
      | error e =>
          rw [hc] at hcheck
          refine iff_of_false ?_ fun h => ?_
          · rintro ⟨r, hr⟩
            cases hr
          · obtain ⟨r, hr⟩ := hcheck.mpr h.1
            cases hr
      | ok r =>
          rw [hc] at hcheck
          rw [and_iff_right (hcheck.mp ⟨r, rfl⟩)]
          by_cases hfound : r = num
          -- the sectors that are marked were found free, so they are sectors of the map
          · simp only [if_pos hfound]
            refine iff_of_true ⟨_, rfl⟩ fun k hk => ?_
            obtain ⟨j, hj, rfl⟩ := List.mem_map.mp hk
            rcases checkRun_zero hc with ⟨-, hrun⟩ | ⟨hne, -⟩
            · have hlt := PhysMem.isFree_lt (hrun j (List.mem_range.mp hj))
              unfold pmmSectors at hlt ⊢
              omega
            · exact absurd hfound hne
          · simp only [if_neg hfound]
            exact ih

theorem memPhysAllocSectors_ok_iff {n : UInt32} :
    (∃ r, memPhysAllocSectors s n = .ok r) ↔ IndexesInside s (.allocSectors n) := by
  unfold memPhysAllocSectors IndexesInside PhysMem.mapIndexes
  by_cases hguard : n = 0 ∨ n > s.memPhysSectors
  · simp only [if_pos hguard]
    exact iff_of_true ⟨_, rfl⟩ fun k hk => absurd hk (by simp)
  · simp only [if_neg hguard]
    rw [← findRun_ok_iff]
    cases findRun s.memPhysMap n.toNat (s.memPhysSectors.toNat - n.toNat + 1) 0 with
    | error e => simp
    | ok r => cases r <;> simp

end Scan

/-! ## Every call -/

theorem indexesInside_alloc (s : PhysMem) : IndexesInside s .alloc := by
  unfold IndexesInside PhysMem.mapIndexes
  cases hfirst : firstFree s.memPhysMap with
  | none => exact fun k hk => List.mem_range.mp hk
  | some k =>
      have hlt := PhysMem.isFree_lt (firstFree_eq_some hfirst).1
      intro j hj
      rw [List.mem_append, List.mem_range, List.mem_singleton] at hj
      unfold pmmSectors at hlt ⊢
      omega

/-- A sector that was handed out is a sector of the map. -/
theorem indexesInside_free {c : PhysConfig} (hc : c.Exclusive) {a : UInt32} (ha : a ∈ c.outstanding) :
    IndexesInside c.phys (.free a) := by
  obtain ⟨p, hR, -⟩ := hc
  rw [hR.held] at ha
  obtain ⟨k, -, rfl⟩ := List.mem_map.mp ha
  intro j hj
  have hk := k.isLt
  rw [PhysMem.mapIndexes, List.mem_singleton, addrOf, offset_sectorAddr _ hk] at hj
  unfold pmmSectors at hk ⊢
  omega

/-- **One call**, by a caller that frees only what it holds. -/
theorem indexesInside_iff {c : PhysConfig} (hc : c.Exclusive) {call : PhysCall}
    (hfree : ∀ a, call = .free a → a ∈ c.outstanding) :
    IndexesInside c.phys call ↔ KeepsInside c.phys call := by
  cases call with
  | alloc => exact iff_of_true (indexesInside_alloc c.phys) trivial
  | allocSectors n => exact memPhysAllocSectors_ok_iff.symm.trans memPhysAllocSectors_returns_iff
  | free a => exact iff_of_true (indexesInside_free hc (hfree a rfl)) trivial

theorem PhysStep.frees_held {c c' : PhysConfig} {l : PhysCall × UInt32} (h : PhysStep c l c') :
    ∀ a, l.1 = .free a → a ∈ c.outstanding := by
  cases h with
  | alloc _ => intro a ha; cases ha
  | allocSectors _ => intro a ha; cases ha
  | free hmem _ => intro a ha; cases ha; exact hmem

/-- **The indexes of a history.** For every start and every amount of memory, in a history and one further
    call (which may leave the map), every index of every call is inside the map exactly when each
    `memPhysAllocSectors` meets `ScanInside`. -/
theorem run_indexesInside_iff (start total : UInt32) {vis : List (PhysConfig × PhysCall × UInt32)}
    {c : PhysConfig}
    (hrun : Run PhysStep (PhysConfig.init start total) vis c) (call : PhysCall)
    (hfree : ∀ a, call = .free a → a ∈ c.outstanding) :
    ((∀ x ∈ vis, IndexesInside x.1.phys x.2.1) ∧ IndexesInside c.phys call) ↔
      (∀ x ∈ vis, KeepsInside x.1.phys x.2.1) ∧ KeepsInside c.phys call := by
  have hstep : ∀ ⦃d l d'⦄, PhysConfig.Exclusive d → PhysStep d l d' → d'.Exclusive :=
    fun _ _ _ hd h => h.exclusive hd
  have hend := hrun.invariant hstep (exclusive_init start total)
  refine and_congr (forall₂_congr fun x hx => ?_) (indexesInside_iff hend hfree)
  obtain ⟨hxs, t, ht⟩ := hrun.visited_invariant hstep (exclusive_init start total) x hx
  exact indexesInside_iff hxs ht.frees_held

theorem run_indexesInside_iff_oneSector : IndexesInside oneSector (.allocSectors 1) := by
  have hcap : oneSector.memPhysSectors.toNat ≤ pmmSectors := by decide
  refine ((run_indexesInside_iff 0x100000 0x2000 oneSector_run (.allocSectors 1)
    (fun a ha => by cases ha)).mpr ⟨?_, scanInside_of_capacity hcap 1⟩).2
  intro x hx
  obtain rfl := List.mem_singleton.mp hx
  trivial

/-! ## A memory larger than the map -/

/-- The scan of a fresh map leaves it when it is to find more sectors than the map has. -/
theorem memPhysInit_scanInside_iff {start total n : UInt32} (hn : n ≠ 0) :
    ScanInside (memPhysInit start total) n ↔
      total.toNat / pmmSectorSize < n.toNat ∨ n.toNat ≤ pmmSectors := by
  have hsectors := memPhysInit_sectors start total
  constructor
  · rintro (h0 | hlt | ⟨i, -, hrun⟩ | ⟨k, hk, -, htaken⟩)
    · exact absurd h0 hn
    · exact .inl (hsectors ▸ UInt32.lt_iff_toNat_lt.mp hlt)
    · right
      by_contra hgt
      have hlast := PhysMem.isFree_lt (hrun (n.toNat - 1) (by omega))
      omega
    · rw [memPhysInit_isFree hk] at htaken
      exact Bool.noConfusion htaken
  · rintro (hlt | hle)
    · exact .inr (.inl (UInt32.lt_iff_toNat_lt.mpr (hsectors ▸ hlt)))
    · rcases UInt32.lt_or_le (memPhysInit start total).memPhysSectors n with hlt | hfit
      · exact .inr (.inl hlt)
      · refine .inr (.inr (.inl ⟨0, ?_, fun t ht => memPhysInit_isFree (by omega)⟩))
        rw [Nat.zero_add]
        exact UInt32.le_iff_toNat_le.mp hfit

/-- On a machine with 1 GiB a request for 65537 sectors, the first of a history, leaves the map. -/
theorem allocSectors_leaves_map : ∃ vis c, Run PhysStep (PhysConfig.init 0x100000 0x3FF00000) vis c ∧
    ∃ k ∈ c.phys.mapIndexes (.allocSectors 65537), pmmSectors / 8 ≤ k := by
  refine ⟨[], _, .nil, ?_⟩
  by_contra hnone
  push Not at hnone
  have hscan : ScanInside (memPhysInit 0x100000 0x3FF00000) 65537 :=
    memPhysAllocSectors_returns_iff.mp (memPhysAllocSectors_ok_iff.mpr hnone)
  rw [memPhysInit_scanInside_iff (by decide)] at hscan
  exact absurd hscan (by decide)

end Drupe
