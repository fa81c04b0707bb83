import Drupe.Boot.Multiboot
import Drupe.Kernel.Correctness.UserEntry

/-!
# `Kernel.Correctness.ManagedSize` — how much memory the kernel manages

`kernel_entry` takes the memory below `kernelBase` off what the boot loader reports, in 64 bits, and cuts
the difference to a `size_t`. The cut only makes it smaller. The subtraction wraps when less is reported
than is taken off, as it is when the boot loader is not known or reports no memory map: then the kernel
manages almost 4 GiB (`setupKernel_within_iff`).
-/

namespace Drupe

/-- **What the kernel owes the machine**: the managed memory is no more than what is reported above
    `kernelBase`. -/
def ManagedWithin (s : PhysMem) (total : UInt64) : Prop :=
  ((s.memPhysSectors.toNat * pmmSectorSize : Nat) : Int) ≤ max 0 ((total.toNat : Int) - kernelBase.toNat)

/-- `pmm_total_size` -/
theorem pmmTotalSize_toNat (total : UInt64) :
    (total - kernelBase.toUInt64).toUInt32.toNat
      = if kernelBase.toNat ≤ total.toNat then (total.toNat - kernelBase.toNat) % 2 ^ 32
        else 2 ^ 32 + total.toNat - kernelBase.toNat := by
  have hbase : kernelBase.toUInt64.toNat = 0x100000 := rfl
  have hbase' : kernelBase.toNat = 0x100000 := rfl
  have hlt := total.toNat_lt
  rw [UInt64.toNat_toUInt32, UInt64.toNat_sub, hbase, hbase']
  split <;> omega

theorem memPhysInit_within_iff (total : UInt64) :
    ManagedWithin (memPhysInit kernelBase (total - kernelBase.toUInt64).toUInt32) total ↔
      kernelBase.toNat ≤ total.toNat := by
  have hsize := pmmTotalSize_toNat total
  have hbase : kernelBase.toNat = 0x100000 := rfl
  unfold ManagedWithin
  rw [memPhysInit_sectors, hsize, hbase]
  unfold pmmSectorSize
  by_cases hle : 0x100000 ≤ total.toNat
  -- whole sectors of a difference that the cut leaves or makes smaller
  · rw [if_pos hle]
    have hcut := Nat.mod_le (total.toNat - 0x100000) (2 ^ 32)
    have hwhole := Nat.div_mul_le_self ((total.toNat - 0x100000) % 2 ^ 32) 8192
    exact iff_of_true (by omega) hle
  · rw [if_neg hle]
    exact iff_of_false (by omega) hle

/-- **When the kernel manages no more than there is.** For every boot, with the amount of memory that
    `mb2GetMemory` answers for any magic number and any memory: once the descriptor tables are ready,
    exactly when the memory below `kernelBase` was reported too. Of a boot loader that is not known, it
    never is. -/
theorem setupKernel_within_iff (b : BootInput) (hgdt : b.gdtReady = true) (hidt : b.idtReady = true)
    {magic addr : UInt32} (hmem : mb2GetMemory b.mem magic addr = .ok b.totalMemoryBytes) :
    ∃ k, setupKernel b = .ok (k, true) ∧
      (ManagedWithin k.phys b.totalMemoryBytes ↔ kernelBase.toNat ≤ b.totalMemoryBytes.toNat) ∧
      (magic ≠ multiboot2Magic → ¬ ManagedWithin k.phys b.totalMemoryBytes) := by
  obtain ⟨k, heq, hready⟩ := setupKernel_eq b
  obtain ⟨-, -, hphys⟩ := hready hgdt hidt
  rw [hgdt, hidt] at heq
  have hiff : ManagedWithin k.phys b.totalMemoryBytes ↔ kernelBase.toNat ≤ b.totalMemoryBytes.toNat := by
    rw [hphys]
    exact memPhysInit_within_iff b.totalMemoryBytes
  refine ⟨k, heq, hiff, fun hmagic hwithin => ?_⟩
  have hzero : (0 : UInt64) = b.totalMemoryBytes := by
    rw [mb2GetMemory, if_pos hmagic] at hmem
    exact Except.ok.inj hmem
  have hle := hiff.mp hwithin
  rw [← hzero] at hle
  exact absurd hle (by decide)

/-- A machine whose boot loader is not a multiboot 2 one. -/
def unknownLoader : BootInput := { noProgramBoot with totalMemoryBytes := 0 }

theorem setupKernel_within_iff_unknown : ∃ k, setupKernel unknownLoader = .ok (k, true) ∧
    ¬ ManagedWithin k.phys 0 := by
  obtain ⟨k, heq, -, hnot⟩ := @setupKernel_within_iff unknownLoader rfl rfl 0 0 rfl
  exact ⟨k, heq, hnot (by decide)⟩

/-- No memory is reported, and 524160 sectors are managed. -/
theorem unknownLoader_manages : mb2GetMemory unknownLoader.mem 0 0 = .ok unknownLoader.totalMemoryBytes ∧
    ∃ k, setupKernel unknownLoader = .ok (k, true) ∧ k.phys.memPhysSectors = 524160 ∧
      ¬ ManagedWithin k.phys unknownLoader.totalMemoryBytes := by
  obtain ⟨k, heq, hready⟩ := setupKernel_eq unknownLoader
  obtain ⟨-, -, hphys⟩ := hready rfl rfl
  refine ⟨rfl, k, heq, ?_, ?_⟩
  · rw [hphys]
    decide
  · rw [hphys, memPhysInit_within_iff]
    decide

end Drupe
