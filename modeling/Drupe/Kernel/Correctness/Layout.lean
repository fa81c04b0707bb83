import Drupe.Interrupts.Syscalls
import Drupe.Kernel.Entry
import Drupe.Memory.Clients

/-!
# `Kernel.Correctness.Layout` — where the first allocation goes

`kernel_entry` starts the managed memory at `0x100000`, and `linker.ld` places the kernel there. The
allocators are first fit, so the first request that is met, whatever it asks for, is met at `0x100000`: on
the kernel. Only a history in which every request is refused keeps clear of it (`run_keepsClear_iff`).
-/

namespace Drupe

open Lib

/-- A call of the allocator, directly or through `kpmalloc`. -/
inductive KernelCall
  | phys (call : PhysCall)
  | kpmalloc (size : UInt32)
deriving DecidableEq

/-- One call and its answer, with the number of sectors it asked for. -/
inductive KernelStep : PhysConfig → KernelCall × Nat × UInt32 → PhysConfig → Prop
  | phys {c call p c'} (h : PhysStep c (call, p) c') : KernelStep c (.phys call, call.sectors, p) c'
  | kpmalloc {c size n s' p} (hn : kpmallocSectors size 524288 1 = .ok n)
      (h : kpmalloc c.phys size = .ok (s', p)) :
      KernelStep c (.kpmalloc size, n.toNat, p) ⟨s', handedOut p n.toNat ++ c.outstanding⟩

/-- The sector at `a` does not meet `[lo, hi)`. -/
def SectorAvoids (a : UInt32) (lo hi : Nat) : Prop :=
  Disjoint (Set.Ico a.toNat (a.toNat + pmmSectorSize)) (Set.Ico lo hi)

/-- No sector of an answer meets the kernel, which ends at `kernelEnd`, or the user window. -/
def KeepsClear (kernelEnd : Nat) (l : KernelCall × Nat × UInt32) : Prop :=
  ∀ a ∈ handedOut l.2.2 l.2.1,
    SectorAvoids a kernelBase.toNat kernelEnd ∧
      SectorAvoids a userWindowStart.toNat userWindowEnd.toNat

/-- **The requests that are never met**, with `managed` sectors of managed memory. There is none for
    `memPhysAlloc`, which looks past the managed memory. A `free` asks for nothing. -/
def Refused (managed : Nat) : KernelCall → Prop
  | .phys .alloc => False
  | .phys (.allocSectors n) => n = 0 ∨ managed < n.toNat
  | .phys (.free _) => True
  | .kpmalloc size => managed = 0 ∨ managed * pmmSectorSize < size.toNat

/-- The fresh allocator of the kernel. -/
abbrev bootPhys (total : UInt32) : PhysConfig := PhysConfig.init kernelBase total

/-- In a fresh map no run is blocked, so the first one fits. -/
theorem bootPhys_not_blocked {total : UInt32} {i n : Nat} : ¬ (bootPhys total).phys.Blocked i n := by
  rintro ⟨t, -, hin, htaken⟩
  have hfree : (bootPhys total).phys.isFree (i + t) = true := memPhysInit_isFree hin
  rw [hfree] at htaken
  exact Bool.noConfusion htaken

/-- **The first request** of a run of sectors: refused, or met at `kernelBase`. -/
theorem bootPhys_allocSectors {total n p : UInt32} {s' : PhysMem}
    (h : memPhysAllocSectors (bootPhys total).phys n = .ok (s', p)) :
    ((n = 0 ∨ total.toNat / pmmSectorSize < n.toNat) ∧ s' = (bootPhys total).phys ∧ p = 0) ∨
    (¬ (n = 0 ∨ total.toNat / pmmSectorSize < n.toNat) ∧ 0 < n.toNat ∧ p = kernelBase) := by
  have hsectors : (bootPhys total).phys.memPhysSectors.toNat = total.toNat / pmmSectorSize :=
    memPhysInit_sectors kernelBase total
  rcases memPhysAllocSectors_cases h with ⟨hguard, rfl, rfl⟩ | ⟨hpos, i, hfit, hrun, hbefore, rfl, rfl⟩ |
    ⟨hpos, hle, hno, -, -⟩
  · refine .inl ⟨?_, rfl, rfl⟩
    rcases hguard with h0 | hlt
    · exact .inl h0
    · right
      rw [← hsectors]
      exact UInt32.lt_iff_toNat_lt.mp hlt
  -- the run that is found is the first one: no run of a fresh map is blocked
  · have hi : i = 0 := by
      by_contra hne
      exact bootPhys_not_blocked (hbefore 0 (by omega))
    refine .inr ⟨?_, hpos, ?_⟩
    · rintro (rfl | hlt)
      · exact absurd hpos (by decide)
      · omega
    · rw [hi]
      rfl
  · have hle' := UInt32.le_iff_toNat_le.mp hle
    exact absurd (hno 0 (by omega)) bootPhys_not_blocked

/-- **The first call** of a history: refused, and then nothing has changed; or met at `kernelBase`. -/
theorem bootPhys_step {total : UInt32} {l : KernelCall × Nat × UInt32} {c : PhysConfig}
    (h : KernelStep (bootPhys total) l c) :
    (Refused (total.toNat / pmmSectorSize) l.1 ∧ c = bootPhys total ∧ handedOut l.2.2 l.2.1 = []) ∨
    (¬ Refused (total.toNat / pmmSectorSize) l.1 ∧ 0 < l.2.1 ∧ l.2.2 = kernelBase) := by
  cases h with
  | phys h =>
      cases h with
      | alloc h =>
          have hfirst := memPhysAlloc_first (s := (bootPhys total).phys) (k := 0)
            (memPhysInit_isFree (by decide)) (fun j hj => absurd hj (by omega))
          obtain ⟨-, rfl⟩ := Prod.mk.inj (h.symm.trans hfirst)
          exact .inr ⟨id, Nat.one_pos, rfl⟩
      | allocSectors h =>
          rcases bootPhys_allocSectors h with ⟨hrefused, rfl, rfl⟩ | ⟨hmet, hpos, rfl⟩
          · exact .inl ⟨hrefused, rfl, rfl⟩
          · exact .inr ⟨hmet, hpos, rfl⟩
      | free hmem _ => exact absurd hmem (by simp [PhysConfig.init])
  | @kpmalloc size n s' p hn h =>
      obtain ⟨n', hn', halloc⟩ := kpmalloc_eq_ok h
      obtain rfl : n = n' := Except.ok.inj (hn.symm.trans hn')
      have hgt := kpmallocSectors_gt_iff hn (total.toNat / pmmSectorSize)
      have hnz : n ≠ 0 := by
        rintro rfl
        exact absurd (kpmallocSectors_eq_ok (by decide) hn).1 (by decide)
      rcases bootPhys_allocSectors halloc with ⟨hrefused, rfl, rfl⟩ | ⟨hmet, hpos, rfl⟩
      · exact .inl ⟨hgt.mp (hrefused.resolve_left hnz), rfl, rfl⟩
      · exact .inr ⟨fun hrefused => hmet (.inr (hgt.mpr hrefused)), hpos, rfl⟩

/-- The sector at `kernelBase` is where the kernel is. -/
theorem not_keepsClear {kernelEnd : Nat} (hend : kernelBase.toNat < kernelEnd)
    {l : KernelCall × Nat × UInt32} (hpos : 0 < l.2.1) (hp : l.2.2 = kernelBase) :
    ¬ KeepsClear kernelEnd l := by
  intro hclear
  have hmem : kernelBase ∈ handedOut l.2.2 l.2.1 := by
    rw [hp, handedOut, if_neg (by decide), List.mem_map]
    exact ⟨0, List.mem_range.mpr hpos, by decide⟩
  have hdisj := (hclear kernelBase hmem).1
  unfold SectorAvoids at hdisj
  rw [Set.Ico_disjoint_Ico] at hdisj
  unfold pmmSectorSize at hdisj
  omega

/-- **When the kernel keeps clear of itself and of user memory.** For every memory size and every end of the
    kernel image, in a history of the allocator as `kernel_entry` sets it up, no sector handed out meets
    `[0x100000, kernelEnd)` or the user window exactly when every request of the history is refused. -/
theorem run_keepsClear_iff (total : UInt32) {kernelEnd : Nat} (hend : kernelBase.toNat < kernelEnd)
    {vis : List (PhysConfig × KernelCall × Nat × UInt32)} {c : PhysConfig}
    (hrun : Run KernelStep (bootPhys total) vis c) :
    (∀ x ∈ vis, KeepsClear kernelEnd x.2) ↔
      ∀ x ∈ vis, Refused (total.toNat / pmmSectorSize) x.2.1 := by
  generalize hc : bootPhys total = c₀ at hrun
  induction hrun with
  | nil => simp
  | @cons c l c' vis c'' hstep _ ih =>
      subst hc
      rw [List.forall_mem_cons, List.forall_mem_cons]
      rcases bootPhys_step hstep with ⟨hrefused, rfl, hnone⟩ | ⟨hmet, hpos, hp⟩
      -- a refused request answers nothing and leaves the fresh allocator
      · have hclear : KeepsClear kernelEnd l := by
          intro a ha
          rw [hnone] at ha
          exact absurd ha (by simp)
        rw [ih rfl]
        exact and_congr_left fun _ => ⟨fun _ => hrefused, fun _ => hclear⟩
      -- the first request that is met
      · constructor
        · rintro ⟨hclear, -⟩
          exact absurd hclear (not_keepsClear hend hpos hp)
        · rintro ⟨hrefused, -⟩
          exact absurd hrefused hmet

/-- A history of one `memPhysAlloc`. -/
theorem first_alloc_run : Run KernelStep (bootPhys 0x200000)
    [(bootPhys 0x200000, .phys .alloc, 1, kernelBase)]
    ⟨(bootPhys 0x200000).phys.clear 0, handedOut kernelBase 1 ++ []⟩ :=
  .cons (.phys (.alloc (memPhysAlloc_first (k := 0) (memPhysInit_isFree (by decide))
    (fun j hj => absurd hj (by omega))))) .nil

/-- A machine with 3 MiB of memory, and a kernel of 64 KiB. -/
theorem run_keepsClear_iff_first :
    ¬ KeepsClear 0x110000 (.phys .alloc, 1, kernelBase) := by
  intro hclear
  have hend : kernelBase.toNat < 0x110000 := by decide
  have hrefused := (run_keepsClear_iff 0x200000 hend first_alloc_run).mp
    (fun x hx => by obtain rfl := List.mem_singleton.mp hx; exact hclear)
  exact hrefused _ List.mem_cons_self

/-- The first sector that is handed out is the first sector of the kernel. -/
theorem first_alloc_on_kernel : ∃ vis c, Run KernelStep (bootPhys 0x200000) vis c ∧
    c.outstanding = [kernelBase] ∧ ∃ x ∈ vis, ¬ KeepsClear 0x110000 x.2 :=
  ⟨_, _, first_alloc_run, by decide, _, List.mem_cons_self, not_keepsClear (by decide) Nat.one_pos rfl⟩

end Drupe
