import Drupe.Memory.Clients

/-!
# `Memory.Correctness.Managed` — which answers lie in the managed memory

The managed memory is the `memPhysSectors` sectors from `memPhysStart` on. `memPhysAllocSectors` looks at
those sectors only. `memPhysAlloc` looks at the whole map, so it goes on handing out sectors past the end
of the managed memory once the managed ones are taken. `meetsBound_iff` says exactly when a call stays
within its bound.
-/

namespace Drupe

open Lib

/-- Address `a` is one of the `memPhysSectors * pmmSectorSize` bytes from `memPhysStart` on. -/
def PhysMem.Managed (s : PhysMem) (a : UInt32) : Prop :=
  (a - s.memPhysStart).toNat < s.memPhysSectors.toNat * pmmSectorSize

/-- For a managed memory that does not wrap around the address space this is the usual interval. -/
theorem PhysMem.managed_iff {s : PhysMem}
    (hwrap : s.memPhysStart.toNat + s.memPhysSectors.toNat * pmmSectorSize ≤ 2 ^ 32) (a : UInt32) :
    s.Managed a ↔ s.memPhysStart.toNat ≤ a.toNat ∧
      a.toNat < s.memPhysStart.toNat + s.memPhysSectors.toNat * pmmSectorSize := by
  have ha := a.toNat_lt
  have hs := s.memPhysStart.toNat_lt
  unfold PhysMem.Managed
  rw [UInt32.toNat_sub]
  omega

/-- No managed sector is free. -/
def PhysMem.Exhausted (s : PhysMem) : Prop := ∀ k < s.memPhysSectors.toNat, s.isFree k = false

theorem PhysMem.not_exhausted {s : PhysMem} (h : ¬ s.Exhausted) :
    ∃ k < s.memPhysSectors.toNat, s.isFree k = true := by
  unfold PhysMem.Exhausted at h
  push Not at h
  obtain ⟨k, hk, hfree⟩ := h
  exact ⟨k, hk, by simpa using hfree⟩

/-- The answer of an allocating call. -/
def PhysMem.answer? (s : PhysMem) : PhysCall → Option (Except Fault (PhysMem × UInt32))
  | .alloc => some (.ok (memPhysAlloc s))
  | .allocSectors n => some (memPhysAllocSectors s n)
  | .free _ => none

/-- **What a call owes the managed memory**: a non-null range lies wholly inside, and with no managed
    sector free the answer is 0 and nothing is taken. -/
def MeetsBound (s : PhysMem) (call : PhysCall) : Prop :=
  ∀ r, s.answer? call = some r →
    (∀ s' p, r = .ok (s', p) → p ≠ 0 →
      ∀ d < call.sectors * pmmSectorSize, s.Managed (p + UInt32.ofNat d)) ∧
    (s.Exhausted → r = .ok (s, 0))

/-- **When a call meets its bound.** `memPhysAlloc` finds a managed sector free, or no bit set at all.
    `memPhysAllocSectors` does in every state of an allocator whose map covers the managed memory; past
    that capacity, an exhausted scan must end before it runs out of the map. -/
def WithinManaged (s : PhysMem) : PhysCall → Prop
  | .alloc => ¬ s.Exhausted ∨ ∀ k, s.isFree k = false
  | .allocSectors n => ¬ s.Exhausted ∨ n = 0 ∨ s.memPhysSectors < n ∨
      s.memPhysSectors.toNat - n.toNat < pmmSectors
  | .free _ => True

/-- The range of a run of the map that lies in the first `memPhysSectors` sectors is managed. -/
theorem managed_of_run {s : PhysMem} {i n d : Nat} (hfit : i + n ≤ s.memPhysSectors.toNat)
    (hd : d < n * pmmSectorSize) :
    s.Managed (sectorAddr s.memPhysStart i + UInt32.ofNat d) := by
  unfold pmmSectorSize at *
  have hdiff : sectorAddr s.memPhysStart i + UInt32.ofNat d - s.memPhysStart
      = UInt32.ofNat (8192 * i + d) := by
    rw [sectorAddr, add_ofNat_add]
    grind
  unfold PhysMem.Managed
  rw [hdiff, UInt32.toNat_ofNat', pmmSectorSize]
  omega

theorem meetsBound_alloc (s : PhysMem) : MeetsBound s .alloc ↔ WithinManaged s .alloc := by
  constructor
  · intro h
    obtain ⟨-, hnull⟩ := h _ rfl
    by_cases hex : s.Exhausted
    · right
      rcases memPhysAlloc_cases s with ⟨k, hk, -, heq⟩ | ⟨hnone, -⟩
      -- a sector past the managed ones was taken, so the map has changed
      · have hsame : s.clear k = s :=
          congrArg Prod.fst (heq.symm.trans (Except.ok.inj (hnull hex)))
        have hbit := PhysMem.isFree_clear s k k
        rw [hsame, hk] at hbit
        simp at hbit
      · exact hnone
    · exact .inl hex
  · rintro h r hr
    obtain rfl := Option.some.inj hr
    rcases memPhysAlloc_cases s with ⟨k, hk, hlow, heq⟩ | ⟨hnone, heq⟩
    -- the lowest free sector is no higher than a managed one that is free
    · have hlt : k < s.memPhysSectors.toNat := by
        rcases h with h | h
        · obtain ⟨j, hj, hfree⟩ := PhysMem.not_exhausted h
          by_contra hge
          rw [hlow j (by omega)] at hfree
          exact Bool.noConfusion hfree
        · rw [h k] at hk
          exact Bool.noConfusion hk
      rw [heq]
      refine ⟨?_, fun hex => ?_⟩
      · intro s' p hsp _ d hd
        obtain ⟨-, rfl⟩ := Prod.mk.inj (Except.ok.inj hsp)
        exact managed_of_run (n := 1) (by omega) hd
      · rw [hex k hlt] at hk
        exact Bool.noConfusion hk
    · rw [heq]
      refine ⟨?_, fun _ => rfl⟩
      intro s' p hsp hp
      exact absurd (congrArg Prod.snd (Except.ok.inj hsp)).symm hp

/-- **An exhausted memory** makes the scan go through all of its starting sectors: it answers null when
    they are sectors of the map, and when there is no scan. -/
theorem memPhysAllocSectors_exhausted {s : PhysMem} (hex : s.Exhausted) (n : UInt32) :
    memPhysAllocSectors s n = .ok (s, 0) ↔
      n = 0 ∨ s.memPhysSectors < n ∨ s.memPhysSectors.toNat - n.toNat < pmmSectors := by
  unfold memPhysAllocSectors
  by_cases hguard : n = 0 ∨ n > s.memPhysSectors
  · rw [if_pos hguard]
    exact iff_of_true rfl (or_assoc.mp (.inl hguard))
  have hle := hguard
  rw [not_or, UInt32.not_lt] at hle
  have hfit := UInt32.le_iff_toNat_le.mp hle.2
  have hpos : 0 < n.toNat := toNat_pos hle.1
  rw [if_neg hguard, ← or_assoc, or_iff_right hguard]
  simp only
  rw [findRun_of_taken hpos (Nat.zero_le _) (fun k _ hk => hex k (by omega))]
  by_cases hcap : s.memPhysSectors.toNat - n.toNat < pmmSectors
  · rw [if_pos (by omega)]
    exact iff_of_true rfl hcap
  · rw [if_neg (by omega)]
    exact iff_of_false (fun h => by cases h) hcap

theorem meetsBound_allocSectors (s : PhysMem) (n : UInt32) :
    MeetsBound s (.allocSectors n) ↔ WithinManaged s (.allocSectors n) := by
  constructor
  · intro h
    obtain ⟨-, hnull⟩ := h _ rfl
    by_cases hex : s.Exhausted
    · exact .inr ((memPhysAllocSectors_exhausted hex n).mp (hnull hex))
    · exact .inl hex
  · rintro h r hr
    obtain rfl := Option.some.inj hr
    refine ⟨?_, fun hex => ?_⟩
    · intro s' p hsp hp d hd
      rcases memPhysAllocSectors_cases hsp with ⟨-, -, rfl⟩ | ⟨-, i, hfit, -, -, -, rfl⟩ |
        ⟨-, -, -, -, rfl⟩
      · exact absurd rfl hp
      · exact managed_of_run hfit hd
      · exact absurd rfl hp
    · exact (memPhysAllocSectors_exhausted hex n).mpr (h.resolve_left fun hnot => hnot hex)

/-- **One call**: it meets its bound exactly when `WithinManaged` holds before it. -/
theorem meetsBound_iff (s : PhysMem) (call : PhysCall) : MeetsBound s call ↔ WithinManaged s call := by
  cases call with
  | alloc => exact meetsBound_alloc s
  | allocSectors n => exact meetsBound_allocSectors s n
  | free a =>
      constructor
      · intro _; trivial
      · intro _ r hr; exact absurd hr (by simp [PhysMem.answer?])

/-- **Runs.** In a history and one further call (which may run out of the map), the managed memory stays
    what it was at the start, and every call meets its bound exactly when every call finds the allocator
    `WithinManaged`. -/
theorem run_meetsBound_iff (start total : UInt32) {vis : List (PhysConfig × PhysCall × UInt32)}
    {c : PhysConfig} (hrun : Run PhysStep (PhysConfig.init start total) vis c) (call : PhysCall) :
    (c.phys.memPhysStart = start ∧ c.phys.memPhysSectors = total / UInt32.ofNat pmmSectorSize ∧
      ∀ x ∈ vis, x.1.phys.memPhysStart = start ∧
        x.1.phys.memPhysSectors = total / UInt32.ofNat pmmSectorSize) ∧
    (((∀ x ∈ vis, MeetsBound x.1.phys x.2.1) ∧ MeetsBound c.phys call) ↔
      (∀ x ∈ vis, WithinManaged x.1.phys x.2.1) ∧ WithinManaged c.phys call) := by
  have hstep : ∀ ⦃d l d'⦄, d.Spans start total → PhysStep d l d' → d'.Spans start total :=
    fun _ _ _ hd h => h.spans hd
  have hend : c.Spans start total := hrun.invariant hstep (spans_init start total)
  have hvis : (∀ x ∈ vis, MeetsBound x.1.phys x.2.1) ↔ ∀ x ∈ vis, WithinManaged x.1.phys x.2.1 :=
    forall₂_congr fun x _ => meetsBound_iff x.1.phys x.2.1
  refine ⟨⟨hend.start_eq, hend.sectors_eq, ?_⟩, by rw [hvis, meetsBound_iff]⟩
  intro x hx
  obtain ⟨hxs, -⟩ := hrun.visited_invariant hstep (spans_init start total) x hx
  exact ⟨hxs.start_eq, hxs.sectors_eq⟩

/-! ## A memory of one sector -/

/-- The allocator of a one-sector memory after its first `memPhysAlloc`. -/
def oneSector : PhysMem := (memPhysInit 0x100000 0x2000).clear 0

theorem oneSector_run : Run PhysStep (PhysConfig.init 0x100000 0x2000)
    [(PhysConfig.init 0x100000 0x2000, (.alloc, sectorAddr 0x100000 0))]
    ⟨oneSector, handedOut (sectorAddr 0x100000 0) 1 ++ []⟩ :=
  .cons (.alloc (memPhysAlloc_first (k := 0) (memPhysInit_isFree (by decide))
    (fun j hj => absurd hj (by omega)))) .nil

theorem oneSector_exhausted : oneSector.Exhausted := by
  intro k hk
  have hone : oneSector.memPhysSectors.toNat = 1 := by decide
  obtain rfl : k = 0 := by omega
  rw [oneSector, PhysMem.isFree_clear]
  simp

/-- The map still has a set bit: that of the sector after the managed one. -/
theorem oneSector_free : oneSector.isFree 1 = true := by
  rw [oneSector, PhysMem.isFree_clear, memPhysInit_isFree (by decide)]
  decide

theorem oneSector_not_managed : ¬ oneSector.Managed 0x102000 := by
  unfold PhysMem.Managed
  decide

theorem oneSector_alloc : (memPhysAlloc oneSector).2 = 0x102000 := by
  rw [memPhysAlloc_first oneSector_free]
  · decide
  · intro j hj
    obtain rfl : j = 0 := by omega
    exact oneSector_exhausted 0 (by decide)

theorem run_meetsBound_iff_oneSector : MeetsBound (memPhysInit 0x100000 0x2000) .alloc ∧
    ¬ MeetsBound oneSector .alloc := by
  obtain ⟨-, hiff⟩ := run_meetsBound_iff 0x100000 0x2000 oneSector_run .alloc
  obtain ⟨-, hfirst⟩ := run_meetsBound_iff 0x100000 0x2000 .nil .alloc
  have hinit : WithinManaged (memPhysInit 0x100000 0x2000) .alloc := by
    refine .inl (fun h => ?_)
    have h0 := h 0 (by decide)
    rw [memPhysInit_isFree (by decide)] at h0
    exact Bool.noConfusion h0
  have hlast : ¬ WithinManaged oneSector .alloc := by
    rintro (h | h)
    · exact h oneSector_exhausted
    · have h1 := h 1
      rw [oneSector_free] at h1
      exact Bool.noConfusion h1
  have hmeets : MeetsBound (memPhysInit 0x100000 0x2000) .alloc :=
    (hfirst.mpr ⟨fun x hx => absurd hx (by simp), hinit⟩).2
  refine ⟨hmeets, fun h => hlast (hiff.mp ⟨?_, h⟩).2⟩
  intro x hx
  obtain rfl := List.mem_singleton.mp hx
  exact hmeets

/-- With no managed sector free, `memPhysAlloc` answers a sector past the end of the managed memory. -/
theorem alloc_leaves_managed :
    ∃ vis c, Run PhysStep (PhysConfig.init 0x100000 0x2000) vis c ∧ c.phys.Exhausted ∧
      (memPhysAlloc c.phys).2 = 0x102000 ∧ ¬ c.phys.Managed 0x102000 ∧
      ¬ MeetsBound c.phys .alloc := by
  refine ⟨_, _, oneSector_run, oneSector_exhausted, oneSector_alloc, oneSector_not_managed, ?_⟩
  intro h
  obtain ⟨-, hnull⟩ := h _ rfl
  have hzero : (memPhysAlloc oneSector).2 = 0 :=
    congrArg Prod.snd (Except.ok.inj (hnull oneSector_exhausted))
  rw [oneSector_alloc] at hzero
  exact absurd hzero (by decide)

end Drupe
