import Drupe.Memory.Clients

/-!
# `Memory.Correctness.Exclusive` — no sector is handed out twice

In every history of an allocator whose managed memory the bitmap can hold, the outstanding sectors are
pairwise disjoint as byte ranges, and each new range avoids all that is outstanding when it is answered.
The pool (`Memory.Clients`) gives distinct sector numbers; here they become disjoint ranges, which needs
the sectors of the map to lie below `2^32`.
-/

namespace Drupe

open Lib

/-- Distinct sectors of a map that ends below `2^32` are disjoint byte ranges. -/
theorem sectorDisjoint_of_ne {s : PhysMem}
    (hstart : s.memPhysStart.toNat + pmmSectors * pmmSectorSize ≤ 2 ^ 32)
    {i j : Fin pmmSectors} (hne : i ≠ j) : SectorDisjoint (addrOf s i) (addrOf s j) := by
  have haddr : ∀ k : Fin pmmSectors,
      (addrOf s k).toNat = s.memPhysStart.toNat + pmmSectorSize * k.val := by
    intro k
    have := k.isLt
    unfold pmmSectors pmmSectorSize at *
    show (s.memPhysStart + UInt32.ofNat (8192 * k.val)).toNat = s.memPhysStart.toNat + 8192 * k.val
    exact toNat_add_ofNat (by omega)
  have hij : i.val ≠ j.val := fun h => hne (Fin.ext h)
  unfold SectorDisjoint
  rw [Set.Ico_disjoint_Ico, haddr i, haddr j]
  unfold pmmSectorSize
  omega

theorem PhysConfig.Exclusive.pairwise {c : PhysConfig} (h : c.Exclusive)
    (hstart : c.phys.memPhysStart.toNat + pmmSectors * pmmSectorSize ≤ 2 ^ 32) :
    c.outstanding.Pairwise SectorDisjoint := by
  obtain ⟨p, hR, hok⟩ := h
  rw [hR.held, List.pairwise_map]
  exact hok.nodup.imp fun hne => sectorDisjoint_of_ne hstart hne

/-- What a call answers with is put in front of what was outstanding. -/
theorem PhysStep.outstanding_eq {c c' : PhysConfig} {l : PhysCall × UInt32} (h : PhysStep c l c') :
    c'.outstanding = handedOut l.2 l.1.sectors ++ c.outstanding ∨ handedOut l.2 l.1.sectors = [] := by
  cases h with
  | alloc _ => exact .inl rfl
  | allocSectors _ => exact .inl rfl
  | free _ _ => exact .inr (by simp [handedOut])

/-- The invariant of a history that starts with `start` and `total`. -/
structure PhysConfig.Sound (start total : UInt32) (c : PhysConfig) : Prop where
  exclusive : c.Exclusive
  spans : c.Spans start total

theorem sound_init (start total : UInt32) : (PhysConfig.init start total).Sound start total :=
  ⟨exclusive_init start total, spans_init start total⟩

theorem PhysStep.sound {start total : UInt32} {c c' : PhysConfig} {l : PhysCall × UInt32}
    (hc : c.Sound start total) (h : PhysStep c l c') : c'.Sound start total :=
  ⟨h.exclusive hc.exclusive, h.spans hc.spans⟩

/-- Every call a caller may make returns: the scans stay inside the map. -/
theorem PhysConfig.Sound.progress {start total : UInt32} {c : PhysConfig} (h : c.Sound start total)
    (hcap : total.toNat ≤ pmmSectors * pmmSectorSize) (call : PhysCall)
    (hfree : ∀ a, call = .free a → a ∈ c.outstanding) : ∃ p c', PhysStep c (call, p) c' := by
  cases call with
  | alloc => exact ⟨_, _, .alloc rfl⟩
  | allocSectors n =>
      obtain ⟨s', p, hn⟩ := memPhysAllocSectors_total (h.spans.capacity hcap) n
      exact ⟨p, _, .allocSectors hn⟩
  | free a =>
      obtain ⟨pool, hR, -⟩ := h.exclusive
      obtain ⟨s', -, heq, -, -⟩ := hR.give (hfree a rfl)
      exact ⟨0, _, .free (hfree a rfl) heq⟩

/-- **Exclusivity of the allocator.** In every history of an allocator whose map covers the managed memory:
    the outstanding sectors are pairwise disjoint; no answered range meets a sector that was outstanding
    at the time; and every further call returns. -/
theorem outstanding_exclusive (start total : UInt32)
    (hcap : total.toNat ≤ pmmSectors * pmmSectorSize)
    (hstart : start.toNat + pmmSectors * pmmSectorSize ≤ 2 ^ 32)
    {vis : List (PhysConfig × PhysCall × UInt32)} {c : PhysConfig}
    (hrun : Run PhysStep (PhysConfig.init start total) vis c) :
    c.outstanding.Pairwise SectorDisjoint ∧
    (∀ x ∈ vis, ∀ q ∈ handedOut x.2.2 x.2.1.sectors, ∀ a ∈ x.1.outstanding, SectorDisjoint q a) ∧
    (∀ call, (∀ a, call = .free a → a ∈ c.outstanding) → ∃ p c', PhysStep c (call, p) c') := by
  have hpair : ∀ {d : PhysConfig}, d.Sound start total → d.outstanding.Pairwise SectorDisjoint :=
    fun hd => hd.exclusive.pairwise (by rw [hd.spans.start_eq]; exact hstart)
  have hend : c.Sound start total :=
    hrun.invariant (fun _ _ _ hd hstep => hstep.sound hd) (sound_init start total)
  refine ⟨hpair hend, ?_, hend.progress hcap⟩
  intro x hx q hq a ha
  obtain ⟨hxs, t, hstep⟩ :=
    hrun.visited_invariant (fun _ _ _ hd hstep => hstep.sound hd) (sound_init start total) x hx
  rcases hstep.outstanding_eq with heq | hnil
  · have hpw := hpair (hstep.sound hxs)
    rw [heq, List.pairwise_append] at hpw
    exact hpw.2.2 q hq a ha
  · rw [hnil] at hq
    exact absurd hq (by simp)

/-- A history: `alloc`, `allocSectors 2`, then a free of the second sector of the pair. -/
theorem pair_run : ∃ vis c, Run PhysStep (PhysConfig.init 0x100000 0x200000) vis c ∧ vis.length = 3 ∧
    c.outstanding = [0x102000, 0x100000] := by
  have hone := memPhysAlloc_first (s := memPhysInit 0x100000 0x200000) (k := 0)
    (memPhysInit_isFree (by decide)) (fun j hj => absurd hj (by omega))
  have hpair := memPhysAllocSectors_first (s := (memPhysInit 0x100000 0x200000).clear 0) (n := 2)
    (i := 1) (by decide) (by decide) (by decide)
    (by
      intro t ht
      have ht2 : t < 2 := ht
      rw [PhysMem.isFree_clear, memPhysInit_isFree (by unfold pmmSectors; omega)]
      simp)
    (by
      intro j hj hfree
      obtain rfl : j = 0 := by omega
      have h0 := hfree 0 (by decide)
      rw [PhysMem.isFree_clear] at h0
      simp at h0)
  have hgive := memPhysFree_eq (((memPhysInit 0x100000 0x200000).clear 0).clearRun 1 2) (k := 2)
    (by decide)
  exact ⟨_, _, .cons (.alloc hone) (.cons (.allocSectors hpair) (.cons (.free (by decide) hgive) .nil)),
    rfl, by decide⟩

theorem outstanding_exclusive_pair : ∃ vis c,
    Run PhysStep (PhysConfig.init 0x100000 0x200000) vis c ∧ vis.length = 3 ∧
      c.outstanding = [0x102000, 0x100000] ∧ c.outstanding.Pairwise SectorDisjoint := by
  obtain ⟨vis, c, hrun, hlen, hout⟩ := pair_run
  exact ⟨vis, c, hrun, hlen, hout,
    (outstanding_exclusive 0x100000 0x200000 (by decide) (by decide) hrun).1⟩

end Drupe
