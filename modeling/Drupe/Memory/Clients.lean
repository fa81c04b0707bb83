import Mathlib.Data.Fintype.Basic
import Mathlib.Order.CompletePartialOrder
import Mathlib.Order.Interval.Set.Disjoint
import Drupe.Lib.Run
import Drupe.Lib.Pool
import Drupe.Memory.Physical

/-!
# `Memory.Clients` — the allocator together with what its callers hold

A caller that gets a non-null answer holds the sectors of the range and may give them back one by one, in
any order. `PhysStep` is one call of the allocator by a caller that frees only what is held; a run of it
is a history of the allocator.

The abstract side is a `Lib.Pool` of sector numbers. `Abstracts` relates the two and `PhysStep.simulates`
is the forward simulation: the histories of the bitmap are histories of the pool.
-/

namespace Drupe

open Lib

/-- A call of the allocator. -/
inductive PhysCall
  | alloc
  | allocSectors (numSectors : UInt32)
  | free (addr : UInt32)
deriving DecidableEq

/-- The number of sectors a call asks for. -/
def PhysCall.sectors : PhysCall → Nat
  | .alloc => 1
  | .allocSectors n => n.toNat
  | .free _ => 0

/-- The sectors of the range of `n` sectors at `p`, by address; none for a null answer. -/
def handedOut (p : UInt32) (n : Nat) : List UInt32 :=
  if p = 0 then [] else (List.range n).map fun k => p + UInt32.ofNat (pmmSectorSize * k)

/-- The allocator, and the addresses of the sectors that are handed out and not given back. -/
structure PhysConfig where
  phys : PhysMem
  outstanding : List UInt32

/-- A freshly initialised allocator. -/
def PhysConfig.init (start totalSize : UInt32) : PhysConfig := ⟨memPhysInit start totalSize, []⟩

/-- One call and its answer. Callers free only what they hold. -/
inductive PhysStep : PhysConfig → PhysCall × UInt32 → PhysConfig → Prop
  | alloc {c s' p} (h : memPhysAlloc c.phys = (s', p)) :
      PhysStep c (.alloc, p) ⟨s', handedOut p 1 ++ c.outstanding⟩
  | allocSectors {c n s' p} (h : memPhysAllocSectors c.phys n = .ok (s', p)) :
      PhysStep c (.allocSectors n, p) ⟨s', handedOut p n.toNat ++ c.outstanding⟩
  | free {c a s'} (hmem : a ∈ c.outstanding) (h : memPhysFree c.phys a = .ok s') :
      PhysStep c (.free a, 0) ⟨s', c.outstanding.erase a⟩

/-- The byte ranges of the sectors at `a` and `b` do not meet. -/
def SectorDisjoint (a b : UInt32) : Prop :=
  Disjoint (Set.Ico a.toNat (a.toNat + pmmSectorSize)) (Set.Ico b.toNat (b.toNat + pmmSectorSize))

/-! ## The pool of sector numbers -/

/-- The address of a sector of the map. -/
def addrOf (s : PhysMem) (k : Fin pmmSectors) : UInt32 := sectorAddr s.memPhysStart k

theorem addrOf_injective (s : PhysMem) : Function.Injective (addrOf s) :=
  fun i j h => Fin.ext (sectorAddr_inj i.isLt j.isLt h)

/-- **The simulation relation.** The free units are the set bits, and the held ones are the outstanding
    sectors, named by their addresses. -/
structure Abstracts (c : PhysConfig) (p : Pool (Fin pmmSectors)) : Prop where
  free : ∀ k : Fin pmmSectors, k ∈ p.free ↔ c.phys.isFree k = true
  held : c.outstanding = p.held.map (addrOf c.phys)

theorem abstracts_init (start total : UInt32) :
    Abstracts (PhysConfig.init start total) (Pool.full Finset.univ) where
  free := fun k => by simp [Pool.full, PhysConfig.init, memPhysInit_isFree k.isLt]
  held := rfl

/-- The sector numbers `i`, …, `i + n - 1`. -/
def runOf (i n : Nat) (h : ∀ t < n, i + t < pmmSectors) : List (Fin pmmSectors) :=
  (List.finRange n).map fun t : Fin n => ⟨i + t.val, h t.val t.isLt⟩

theorem mem_runOf {i n : Nat} {h : ∀ t < n, i + t < pmmSectors} {k : Fin pmmSectors} :
    k ∈ runOf i n h ↔ i ≤ k.val ∧ k.val < i + n := by
  unfold runOf
  rw [List.mem_map]
  constructor
  · rintro ⟨t, -, rfl⟩
    have := t.isLt
    exact ⟨Nat.le_add_right i t, by show i + t.val < i + n; omega⟩
  · rintro ⟨h1, h2⟩
    exact ⟨⟨k.val - i, by omega⟩, List.mem_finRange _, Fin.ext (by show i + (k.val - i) = k.val; omega)⟩

theorem runOf_nodup {i n : Nat} {h : ∀ t < n, i + t < pmmSectors} : (runOf i n h).Nodup := by
  refine (List.nodup_finRange n).map ?_
  intro a b hab
  have : i + a.val = i + b.val := congrArg Fin.val hab
  exact Fin.ext (by omega)

/-- The range answered for a run is the run, sector by sector. -/
theorem runOf_addr (s : PhysMem) {i n : Nat} {h : ∀ t < n, i + t < pmmSectors} :
    (List.range n).map (fun k => sectorAddr s.memPhysStart i + UInt32.ofNat (pmmSectorSize * k))
      = (runOf i n h).map (addrOf s) := by
  rw [← List.map_coe_finRange_eq_range, runOf, List.map_map, List.map_map]
  apply List.map_congr_left
  intro t _
  show sectorAddr s.memPhysStart i + UInt32.ofNat (pmmSectorSize * t)
    = sectorAddr s.memPhysStart (i + t)
  rw [sectorAddr, add_ofNat_add, ← Nat.mul_add, sectorAddr]

/-- The free units after a run is marked as taken. -/
theorem Abstracts.free_clearRun {c : PhysConfig} {p : Pool (Fin pmmSectors)} (hR : Abstracts c p)
    {i n : Nat} (hlt : ∀ t < n, i + t < pmmSectors) (k : Fin pmmSectors) :
    k ∈ p.free \ (runOf i n hlt).toFinset ↔ (c.phys.clearRun i n).isFree k = true := by
  rw [Finset.mem_sdiff, List.mem_toFinset, mem_runOf, hR.free, PhysMem.isFree_clearRun,
    Bool.and_eq_true, decide_eq_true_eq]
  refine and_congr_right (fun _ => ?_)
  omega

/-- Handing out a free run at a non-null address is a `take` of the pool. -/
theorem Abstracts.take_run {c : PhysConfig} {p : Pool (Fin pmmSectors)} (hR : Abstracts c p) {i n : Nat}
    (hrun : c.phys.FreeRun i n) (hnull : sectorAddr c.phys.memPhysStart i ≠ 0) :
    ∃ xs : List (Fin pmmSectors), xs.Nodup ∧ (∀ x ∈ xs, x ∈ p.free) ∧ Abstracts
      ⟨c.phys.clearRun i n, handedOut (sectorAddr c.phys.memPhysStart i) n ++ c.outstanding⟩
      ⟨p.free \ xs.toFinset, xs ++ p.held⟩ := by
  have hlt : ∀ t < n, i + t < pmmSectors := fun t ht => PhysMem.isFree_lt (hrun t ht)
  refine ⟨runOf i n hlt, runOf_nodup, ?_, hR.free_clearRun hlt, ?_⟩
  · intro k hk
    obtain ⟨h1, h2⟩ := mem_runOf.mp hk
    rw [hR.free]
    have := hrun (k.val - i) (by omega)
    rwa [Nat.add_sub_cancel' h1] at this
  · show handedOut (sectorAddr c.phys.memPhysStart i) n ++ c.outstanding = _
    rw [handedOut, if_neg hnull, hR.held, List.map_append, runOf_addr c.phys (h := hlt)]
    rfl

/-- Handing out a free run at the null address is a `lose`: the caller takes null for a failure and holds
    nothing. -/
theorem Abstracts.lose_run {c : PhysConfig} {p : Pool (Fin pmmSectors)} (hR : Abstracts c p) {i n : Nat}
    (hrun : c.phys.FreeRun i n) (hnull : sectorAddr c.phys.memPhysStart i = 0) :
    ∃ xs : List (Fin pmmSectors), Abstracts
      ⟨c.phys.clearRun i n, handedOut (sectorAddr c.phys.memPhysStart i) n ++ c.outstanding⟩
      ⟨p.free \ xs.toFinset, p.held⟩ := by
  have hlt : ∀ t < n, i + t < pmmSectors := fun t ht => PhysMem.isFree_lt (hrun t ht)
  refine ⟨runOf i n hlt, hR.free_clearRun hlt, ?_⟩
  show handedOut (sectorAddr c.phys.memPhysStart i) n ++ c.outstanding = _
  rw [handedOut, if_pos hnull, List.nil_append]
  exact hR.held

/-- Handing out a free run is one move of the pool, whatever its address. -/
theorem Abstracts.step_run {c : PhysConfig} {p : Pool (Fin pmmSectors)} (hR : Abstracts c p) {i n : Nat}
    (hrun : c.phys.FreeRun i n) :
    ∃ q, Pool.Step p q ∧ Abstracts
      ⟨c.phys.clearRun i n, handedOut (sectorAddr c.phys.memPhysStart i) n ++ c.outstanding⟩ q := by
  by_cases hnull : sectorAddr c.phys.memPhysStart i = 0
  · obtain ⟨xs, hq⟩ := hR.lose_run hrun hnull
    exact ⟨_, .lose xs, hq⟩
  · obtain ⟨xs, hnd, hfree, hq⟩ := hR.take_run hrun hnull
    exact ⟨_, .take hnd hfree, hq⟩

/-- Giving back a held sector is a `give` of the pool. -/
theorem Abstracts.give {c : PhysConfig} {p : Pool (Fin pmmSectors)} (hR : Abstracts c p) {a : UInt32}
    (ha : a ∈ c.outstanding) :
    ∃ s' k, memPhysFree c.phys a = .ok s' ∧ k ∈ p.held ∧
      Abstracts ⟨s', c.outstanding.erase a⟩ ⟨insert k p.free, p.held.erase k⟩ := by
  rw [hR.held] at ha
  obtain ⟨k, hk, rfl⟩ := List.mem_map.mp ha
  refine ⟨_, k, memPhysFree_eq c.phys k.isLt, hk, ?_, ?_⟩
  · intro i
    have hbit := Bitmap.bitAt_setAt c.phys.memPhysMap
      (show k.val < 8 * (pmmSectors / 8) from k.isLt) i.val
    show i ∈ insert k p.free ↔ Bitmap.bitAt (Bitmap.setAt c.phys.memPhysMap k.val) i.val = true
    rw [hbit, Bool.or_eq_true, decide_eq_true_eq, Finset.mem_insert, hR.free, or_comm, Fin.ext_iff]
    rfl
  · show c.outstanding.erase (addrOf c.phys k) = (p.held.erase k).map (addrOf c.phys)
    rw [hR.held, List.map_erase (addrOf_injective c.phys)]

/-- **All a call can do to the configuration**: nothing, mark a free run and hand it out, or give back an
    outstanding sector. A call that hands out answers with the address of the run; one that does nothing
    answers null. -/
theorem PhysStep.cases {c c' : PhysConfig} {l : PhysCall × UInt32} (h : PhysStep c l c') :
    (c' = c ∧ l.2 = 0) ∨
    (∃ i n, c.phys.FreeRun i n ∧ l.2 = sectorAddr c.phys.memPhysStart i ∧
      c' = ⟨c.phys.clearRun i n, handedOut (sectorAddr c.phys.memPhysStart i) n ++ c.outstanding⟩) ∨
    (∃ a s', l.1 = .free a ∧ a ∈ c.outstanding ∧ memPhysFree c.phys a = .ok s' ∧
      c' = ⟨s', c.outstanding.erase a⟩) := by
  cases h with
  | alloc h =>
      rcases memPhysAlloc_cases c.phys with ⟨k, hk, -, heq⟩ | ⟨-, heq⟩
      · obtain ⟨rfl, rfl⟩ := Prod.mk.inj (h.symm.trans heq)
        -- one sector is a run of length 1
        have hrun : c.phys.FreeRun k 1 := by
          intro t ht
          obtain rfl : t = 0 := by omega
          exact hk
        exact .inr (.inl ⟨k, 1, hrun, rfl, rfl⟩)
      · obtain ⟨rfl, rfl⟩ := Prod.mk.inj (h.symm.trans heq)
        exact .inl ⟨rfl, rfl⟩
  | @allocSectors n s' p h =>
      rcases memPhysAllocSectors_cases h with ⟨-, rfl, rfl⟩ | ⟨-, i, -, hrun, -, rfl, rfl⟩ |
        ⟨-, -, -, rfl, rfl⟩
      · exact .inl ⟨rfl, rfl⟩
      · exact .inr (.inl ⟨i, n.toNat, hrun, rfl, rfl⟩)
      · exact .inl ⟨rfl, rfl⟩
  | free hmem h => exact .inr (.inr ⟨_, _, rfl, hmem, h, rfl⟩)

/-- **Forward simulation.** Every call is some moves of the pool. -/
theorem PhysStep.simulates {c c' : PhysConfig} {l : PhysCall × UInt32} {p : Pool (Fin pmmSectors)}
    (hR : Abstracts c p) (h : PhysStep c l c') :
    ∃ q, Relation.ReflTransGen Pool.Step p q ∧ Abstracts c' q := by
  rcases h.cases with ⟨rfl, -⟩ | ⟨i, n, hrun, -, rfl⟩ | ⟨a, s', -, hmem, hs', rfl⟩
  · exact ⟨p, .refl, hR⟩
  · obtain ⟨q, hstep, hq⟩ := hR.step_run hrun
    exact ⟨q, .single hstep, hq⟩
  · obtain ⟨s'', k, heq, hk, hq⟩ := hR.give hmem
    obtain rfl := Except.ok.inj (hs'.symm.trans heq)
    exact ⟨_, .single (.give hk), hq⟩

/-! ## The invariant of the histories -/

/-- The configuration is the image of a pool that hands out nothing twice. -/
def PhysConfig.Exclusive (c : PhysConfig) : Prop := ∃ p, Abstracts c p ∧ p.Ok

theorem exclusive_init (start total : UInt32) : (PhysConfig.init start total).Exclusive :=
  ⟨_, abstracts_init start total, Pool.full_ok _⟩

theorem PhysStep.exclusive {c c' : PhysConfig} {l : PhysCall × UInt32} (hc : c.Exclusive)
    (h : PhysStep c l c') : c'.Exclusive := by
  obtain ⟨p, hR, hok⟩ := hc
  obtain ⟨q, hpq, hq⟩ := h.simulates hR
  exact ⟨q, hq, Pool.ok_of_steps hpq hok⟩

/-- No call moves the managed memory. -/
theorem PhysStep.frame {c c' : PhysConfig} {l : PhysCall × UInt32} (h : PhysStep c l c') :
    c'.phys.memPhysStart = c.phys.memPhysStart ∧ c'.phys.memPhysSectors = c.phys.memPhysSectors := by
  rcases h.cases with ⟨rfl, -⟩ | ⟨i, n, -, -, rfl⟩ | ⟨a, s', -, -, hs', rfl⟩
  · exact ⟨rfl, rfl⟩
  · exact ⟨rfl, rfl⟩
  · obtain ⟨k, -, rfl⟩ := memPhysFree_cases hs'
    exact ⟨rfl, rfl⟩

/-- The managed memory is the one a history began with. -/
structure PhysConfig.Spans (start total : UInt32) (c : PhysConfig) : Prop where
  start_eq : c.phys.memPhysStart = start
  sectors_eq : c.phys.memPhysSectors = total / UInt32.ofNat pmmSectorSize

theorem spans_init (start total : UInt32) : (PhysConfig.init start total).Spans start total :=
  ⟨rfl, rfl⟩

theorem PhysStep.spans {start total : UInt32} {c c' : PhysConfig} {l : PhysCall × UInt32}
    (hc : c.Spans start total) (h : PhysStep c l c') : c'.Spans start total :=
  ⟨h.frame.1.trans hc.start_eq, h.frame.2.trans hc.sectors_eq⟩

/-- A managed memory no larger than the map has as many sectors as the map, or fewer. -/
theorem PhysConfig.Spans.capacity {start total : UInt32} {c : PhysConfig} (h : c.Spans start total)
    (hcap : total.toNat ≤ pmmSectors * pmmSectorSize) : c.phys.memPhysSectors.toNat ≤ pmmSectors := by
  have hdiv : c.phys.memPhysSectors.toNat = total.toNat / pmmSectorSize := by
    rw [h.sectors_eq]; rfl
  unfold pmmSectors pmmSectorSize at *
  omega

end Drupe
