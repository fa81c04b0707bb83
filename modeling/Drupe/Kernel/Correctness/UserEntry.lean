import Drupe.Filesystem.Correctness.Mount
import Drupe.Kernel.Entry
import Drupe.Usermode.Correctness.Setup

/-!
# `Kernel.Correctness.UserEntry` — when the kernel enters user mode

`um_setup_env` has no result, and `kernel_entry` goes on to `um_switch` after it whatever happened. So
user mode is entered only with a program and a kernel stack (`EntersReady`) exactly when nothing can go
wrong in `um_setup_env` (`MayEnter`), short of a division by zero, which halts the kernel before.
-/

namespace Drupe

open Lib

/-- **What entering user mode requires**: `um_setup_env` came to its end, past the reading of all `i_size_lo`
    bytes of the program, and the process it created has a kernel stack. -/
def Ready (k : KernelState) (setup : SetupReturn) : Prop :=
  setup = .complete ∧
    ∃ pid, k.procs.currentProcess = some pid ∧ (k.procs.proc pid).kernelStackTop ≠ 0

/-- A boot that enters user mode is ready. -/
def EntersReady (r : Except Fault (KernelState × BootEnd)) : Prop :=
  ∀ k setup, r = .ok (k, .userMode setup) → Ready k setup

/-- A sector is free, and the first one that is free is not at address 0. -/
def HasSector (s : PhysMem) : Prop :=
  ∃ i, s.isFree i = true ∧ (∀ j < i, s.isFree j = false) ∧ sectorAddr s.memPhysStart i ≠ 0

/-- The program is in the root directory, and its blocks are direct blocks, whose number does not wrap. -/
def HasProgram (m : Mem) (fs : Ext2Fs) (programName : List UInt8) : Prop :=
  ∃ inode, programInode m fs programName = some inode ∧
    (inode.iSizeLo.toNat = 0 ∨ inode.iSizeLo.toNat ≤ 12 * fs.blockSize.toNat ∧
      inode.iSizeLo.toNat + fs.blockSize.toNat ≤ 2 ^ 32)

/-- **Nothing goes wrong**: there is a process slot, and there are a kernel stack and a program unless the
    search for the program divides by zero. -/
def MayEnter (m : Mem) (s : PhysMem) (t : ProcTable) (fs : Ext2Fs) (programName : List UInt8) : Prop :=
  (∃ pid, t.Unused pid) ∧ (fs.Divisible → HasSector s ∧ HasProgram m fs programName)

/-- Nothing goes wrong if the image is mounted. -/
def MountedMayEnter (m : Mem) (s : PhysMem) (t : ProcTable) (diskImg : UInt32)
    (programName : List UInt8) : Prop :=
  ∀ m' s' fs, ext2Mount m s diskImg = .ok (m', s', some fs) → MayEnter m' s' t fs programName

theorem memPhysAlloc_ne_zero_iff (s : PhysMem) : (memPhysAlloc s).2 ≠ 0 ↔ HasSector s := by
  constructor
  · intro hne
    rcases memPhysAlloc_cases s with ⟨k, hk, hlow, heq⟩ | ⟨-, heq⟩
    · rw [heq] at hne
      exact ⟨k, hk, hlow, hne⟩
    · rw [heq] at hne
      exact absurd rfl hne
  · rintro ⟨i, hi, hlow, hne⟩
    rw [memPhysAlloc_first hi hlow]
    exact hne

/-- All of a program is read when its blocks are direct blocks and their number does not wrap. -/
theorem loadCount_eq_size_iff {fs : Ext2Fs} (hbs : 0 < fs.blockSize.toNat) (inode : Inode) :
    loadCount fs inode = inode.iSizeLo.toNat ↔
      inode.iSizeLo.toNat = 0 ∨ inode.iSizeLo.toNat ≤ 12 * fs.blockSize.toNat ∧
        inode.iSizeLo.toNat + fs.blockSize.toNat ≤ 2 ^ 32 := by
  have hlt := fs.blockSize.toNat_lt
  unfold loadCount
  split <;> omega

/-- **`umSetupEnv`** leaves a kernel that is ready exactly when nothing goes wrong. -/
theorem umSetupEnv_ready_iff (k : KernelState) (fs : Ext2Fs) (programName : List UInt8) :
    (∀ k' setup, umSetupEnv k fs programName = .ok (k', setup) → Ready k' setup) ↔
      MayEnter k.mem k.phys k.procs fs programName := by
  unfold MayEnter
  rcases umSetupEnv_cases k fs programName with ⟨hno, shell, heq⟩ | ⟨hslot, hndiv, heq⟩ |
      ⟨hslot, hdiv, hnone, k', heq, -, -⟩ | ⟨hslot, hdiv, inode, k', hsome, heq, -, hnew⟩
  -- no slot: the boot goes on without a process
  · refine iff_of_false (fun h => ?_) (fun h => not_exists.mpr hno h.1)
    exact absurd (h _ _ heq).1 (by decide)
  -- a division by zero: the boot stops
  · refine iff_of_true (fun k' setup h => ?_) ⟨hslot, fun hdiv => absurd hdiv hndiv⟩
    rw [heq] at h
    exact absurd h (by simp)
  -- no program: the boot goes on with what is at the user code base
  · refine iff_of_false (fun h => ?_) ?_
    · exact absurd (h _ _ heq).1 (by decide)
    · rintro ⟨-, h⟩
      obtain ⟨-, inode, hsome, -⟩ := h hdiv
      rw [hnone] at hsome
      exact absurd hsome (by simp)
  -- a program that is read, in full or not, for a process with or without a stack
  · obtain ⟨pid, hcurrent, hstack⟩ := hnew
    constructor
    · intro h
      obtain ⟨hcomplete, pid', hcurrent', htop⟩ := h _ _ heq
      obtain rfl : pid = pid' := Option.some.inj (hcurrent.symm.trans hcurrent')
      rw [hstack, memPhysAlloc_ne_zero_iff] at htop
      refine ⟨hslot, fun _ => ⟨htop, inode, hsome, ?_⟩⟩
      rw [← loadCount_eq_size_iff hdiv.blockSize_pos]
      by_contra hshort
      rw [if_neg hshort] at hcomplete
      exact absurd hcomplete (by decide)
    · rintro ⟨-, h⟩ k'' setup heq'
      obtain ⟨hsector, inode', hsome', hsize⟩ := h hdiv
      obtain rfl : inode = inode' := Option.some.inj (hsome.symm.trans hsome')
      rw [heq, if_pos ((loadCount_eq_size_iff hdiv.blockSize_pos inode).mpr hsize)] at heq'
      obtain ⟨rfl, rfl⟩ := Prod.mk.inj (Except.ok.inj heq')
      refine ⟨rfl, pid, hcurrent, ?_⟩
      rw [hstack]
      exact (memPhysAlloc_ne_zero_iff k.phys).mpr hsector

/-- A mounted image is set up for user mode, and user mode is entered if that returns. -/
theorem mountAndSwitch_mounted {k : KernelState} {diskImg : UInt32} (programName : List UInt8) {m : Mem}
    {s : PhysMem} {fs : Ext2Fs} (hmount : ext2Mount k.mem k.phys diskImg = .ok (m, s, some fs)) :
    ∃ shell, mountAndSwitch k diskImg programName =
      umSetupEnv { k with mem := m, phys := s, shell } fs programName >>=
        fun r => .ok (r.1, .userMode r.2) := by
  have hfits : formatFits (literal "EXT2 filesystem mounted successfully! Block size: %d bytes\r\n")
      [.word] = true := formatFits_ofList (by decide)
  obtain ⟨shell, hprint⟩ := shPrintf_total k.shell hfits [.word fs.blockSize] rfl
  refine ⟨shell, ?_⟩
  unfold mountAndSwitch
  rw [hmount, ok_bind]
  simp only [hprint, ok_bind]
  rfl

/-- Without a mounted image user mode is not entered. -/
theorem mountAndSwitch_notMounted {k k' : KernelState} {diskImg : UInt32} {programName : List UInt8}
    {setup : SetupReturn} (h : mountAndSwitch k diskImg programName = .ok (k', .userMode setup)) :
    ∃ m s fs, ext2Mount k.mem k.phys diskImg = .ok (m, s, some fs) := by
  unfold mountAndSwitch at h
  obtain ⟨⟨m, s, mounted⟩, hmount, hrest⟩ := bind_eq_ok.mp h
  cases mounted with
  | some fs => exact ⟨m, s, fs, hmount⟩
  | none =>
      have hend := congrArg Prod.snd (Except.ok.inj hrest)
      exact absurd hend (by simp)

/-- **From the mount on**, user mode is entered only by a kernel that is ready exactly when nothing goes wrong
    once the image is mounted. -/
theorem mountAndSwitch_iff (k : KernelState) (diskImg : UInt32) (programName : List UInt8) :
    EntersReady (mountAndSwitch k diskImg programName) ↔
      MountedMayEnter k.mem k.phys k.procs diskImg programName := by
  constructor
  · intro h m s fs hmount
    obtain ⟨shell, heq⟩ := mountAndSwitch_mounted programName hmount
    apply (umSetupEnv_ready_iff { k with mem := m, phys := s, shell } fs programName).mp
    intro k' setup hsetup
    apply h
    rw [heq, hsetup, ok_bind]
  · intro h k' setup heq'
    obtain ⟨m, s, fs, hmount⟩ := mountAndSwitch_notMounted heq'
    obtain ⟨shell, heq⟩ := mountAndSwitch_mounted programName hmount
    rw [heq] at heq'
    obtain ⟨r, hsetup, hr⟩ := bind_eq_ok.mp heq'
    obtain ⟨rfl, hend⟩ := Prod.mk.inj (Except.ok.inj hr)
    obtain rfl : r.2 = setup := BootEnd.userMode.inj hend
    exact (umSetupEnv_ready_iff { k with mem := m, phys := s, shell } fs programName).mpr
      (h m s fs hmount) r.1 r.2 hsetup

/-! ## The whole boot -/

/-- The kernel that is set up mounts the image with a fresh allocator and an empty process table; a descriptor
    table that is not ready stops it before. -/
theorem setupKernel_eq (b : BootInput) :
    ∃ k, setupKernel b = .ok (k, b.gdtReady && b.idtReady) ∧
      (b.gdtReady = true → b.idtReady = true → k.mem = b.mem ∧ k.procs = .zeroed ∧
        k.phys = memPhysInit kernelBase (b.totalMemoryBytes - kernelBase.toUInt64).toUInt32) := by
  have hfits : formatFits (literal "Booted with %d MB of Memory.\r\n") [.word] = true := formatFits_ofList (by decide)
  obtain ⟨ksh, hinit⟩ : ∃ ksh, shInit b.streamData b.videoMemory vgaWidth (vgaWidth * vgaHeight) = .ok ksh :=
    ⟨_, dif_neg (by decide)⟩
  unfold setupKernel
  rw [hinit, ok_bind]
  cases hgdt : b.gdtReady with
  | false => exact ⟨_, rfl, fun h => absurd h (by simp)⟩
  | true =>
      cases hidt : b.idtReady with
      | false => exact ⟨_, rfl, fun _ h => absurd h (by simp)⟩
      | true =>
          obtain ⟨shell, hprint⟩ := shPrintf_total ksh hfits
            [.word (b.totalMemoryBytes / (1024 * 1024)).toUInt32] rfl
          simp only [hprint, ok_bind]
          exact ⟨_, rfl, fun _ _ => ⟨rfl, rfl, rfl⟩⟩

/-- **When the kernel enters user mode ready.** From the mount on, for every memory, allocator, process table,
    image and program name: exactly when nothing goes wrong once the image is mounted. For the whole boot:
    exactly when that is so with the fresh allocator and the empty process table, for `example.bin`, unless a
    descriptor table stops it. -/
theorem enters_ready_iff (k : KernelState) (diskImg : UInt32) (programName : List UInt8) (b : BootInput) :
    (EntersReady (mountAndSwitch k diskImg programName) ↔
      MountedMayEnter k.mem k.phys k.procs diskImg programName) ∧
    (EntersReady (kernelEntry b) ↔ (b.gdtReady = true → b.idtReady = true →
      MountedMayEnter b.mem (memPhysInit kernelBase (b.totalMemoryBytes - kernelBase.toUInt64).toUInt32)
        .zeroed b.diskImg (text "example.bin"))) := by
  refine ⟨mountAndSwitch_iff k diskImg programName, ?_⟩
  obtain ⟨k, heq, hready⟩ := setupKernel_eq b
  unfold kernelEntry
  rw [heq, ok_bind]
  by_cases hboth : b.gdtReady = true ∧ b.idtReady = true
  · obtain ⟨hgdt, hidt⟩ := hboth
    obtain ⟨hmem, hprocs, hphys⟩ := hready hgdt hidt
    rw [hgdt, hidt]
    show EntersReady (mountAndSwitch k b.diskImg (text "example.bin")) ↔ _
    rw [mountAndSwitch_iff, hmem, hprocs, hphys]
    exact ⟨fun h _ _ => h, fun h => h rfl rfl⟩
  · have hstop : (b.gdtReady && b.idtReady) = false := by
      rw [← Bool.not_eq_true, Bool.and_eq_true]
      exact hboth
    rw [hstop]
    refine iff_of_true ?_ fun hgdt hidt => absurd ⟨hgdt, hidt⟩ hboth
    intro k' setup h
    exact absurd (congrArg Prod.snd (Except.ok.inj h)) (by simp)

/-! ## An image without the program -/

/-- A machine with 2 MiB of memory and this image. -/
def noProgramBoot : BootInput where
  mem := noProgramMem
  streamData := fun _ => Vector.replicate streamBufSize 0
  videoMemory := fun _ => ⟨0, 0⟩
  phys := memPhysInit 0 0
  gdtReady := true
  idtReady := true
  kernelStackTop := 0x120000
  totalMemoryBytes := 0x200000
  diskImg := 0x200000

theorem noProgram_programInode : programInode noProgramMounted smallFs (text "example.bin") = none := by
  have hrecord : findRecord noProgramMounted smallFs (text "example.bin") = none := by decide +kernel
  rw [programInode, hrecord]
  rfl

/-- User mode is entered, on an image without the program. -/
theorem enters_without_program :
    ∃ k, kernelEntry noProgramBoot = .ok (k, .userMode .notFound) ∧
      ¬ EntersReady (kernelEntry noProgramBoot) := by
  suffices hrun : ∃ k, kernelEntry noProgramBoot = .ok (k, .userMode .notFound) by
    obtain ⟨k, heq⟩ := hrun
    exact ⟨k, heq, fun h => absurd (h k .notFound heq).1 (by decide)⟩
  obtain ⟨k, heq, hready⟩ := setupKernel_eq noProgramBoot
  obtain ⟨hmem, hprocs, hphys⟩ := hready rfl rfl
  obtain ⟨s, hmount⟩ := noProgram_mount
  have hmounted : ext2Mount k.mem k.phys noProgramBoot.diskImg = .ok (noProgramMounted, s, some smallFs) := by
    rw [hmem, hphys]
    exact hmount
  have hslot : ∃ pid, k.procs.Unused pid := by
    rw [hprocs]
    exact ⟨0, zeroed_unused 0⟩
  obtain ⟨shell, hswitch⟩ := mountAndSwitch_mounted (text "example.bin") hmounted
  obtain ⟨k', hsetup⟩ := umSetupEnv_notFound (k := { k with mem := noProgramMounted, phys := s, shell })
    hslot ⟨by decide, by decide⟩ noProgram_programInode
  unfold kernelEntry
  rw [heq, ok_bind]
  show ∃ k', mountAndSwitch k noProgramBoot.diskImg (text "example.bin") = _
  rw [hswitch, hsetup]
  exact ⟨k', rfl⟩

end Drupe
