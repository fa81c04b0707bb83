import Drupe.Filesystem.Correctness.ReadFile
import Drupe.Kernel.Correctness.FindFile
import Drupe.Usermode.Usermode

/-!
# `Usermode.Correctness.Setup` — all that `umSetupEnv` can do

It has no slot, or divides by zero, or does not find the program, or reads it: as many bytes of it as the
direct blocks hold, or none when the number of blocks wraps (`loadCount`).
-/

namespace Drupe

open Lib

/-- The inode of the first live record of the root directory with the name of the program. -/
def programInode (m : Mem) (fs : Ext2Fs) (programName : List UInt8) : Option Inode :=
  (findRecord m fs programName).map fun r => Inode.read m (fs.inodeAddr m r.2)

/-- The number of bytes that are read of a program. -/
def loadCount (fs : Ext2Fs) (inode : Inode) : Nat :=
  if inode.iSizeLo.toNat + fs.blockSize.toNat ≤ 2 ^ 32 then
    min inode.iSizeLo.toNat (12 * fs.blockSize.toNat)
  else 0

/-- The current process of `k'` is new, with the answer of `memPhysAlloc` in `k` as its kernel stack top. -/
def NewProcess (k k' : KernelState) : Prop :=
  ∃ pid, k'.procs.currentProcess = some pid ∧
    (k'.procs.proc pid).kernelStackTop = (memPhysAlloc k.phys).2

theorem Ext2Fs.Divisible.blockSize_pos {fs : Ext2Fs} (h : fs.Divisible) : 0 < fs.blockSize.toNat := by
  apply toNat_pos
  intro hzero
  exact absurd (by rw [hzero]; rfl) h.blockSize

/-! ## Reading the program -/

/-- When the number of blocks wraps, it is 0: nothing is read. -/
theorem ext2ReadFile_wrap {fs : Ext2Fs} {inode : Inode} (m : Mem) (hbs : 0 < fs.blockSize.toNat)
    (hwrap : ¬ inode.iSizeLo.toNat + fs.blockSize.toNat ≤ 2 ^ 32) :
    ext2ReadFile m fs inode userCodeBase inode.iSizeLo 0 = .ok (m, 0) := by
  have hsize := inode.iSizeLo.toNat_lt
  have hlt := fs.blockSize.toNat_lt
  have hcut : (ReadFile.enter fs inode userCodeBase inode.iSizeLo 0).bufLen = inode.iSizeLo := by
    show (if 0 + inode.iSizeLo > inode.iSizeLo then _ else inode.iSizeLo) = inode.iSizeLo
    rw [UInt32.zero_add, if_neg (UInt32.lt_irrefl _)]
  apply ext2ReadFile_noBlock m hbs
  rw [enter_blocksToRead userCodeBase hbs, hcut, UInt32.zero_add]
  -- `size + block_size - 1` wraps to less than a block
  rw [Nat.div_eq_of_lt (by omega)]
  exact Nat.zero_le _

/-- **The read of a whole file** to the user code base. -/
theorem ext2ReadFile_whole {fs : Ext2Fs} (hbs : 0 < fs.blockSize.toNat) (m : Mem) (inode : Inode) :
    ∃ n : UInt32, n.toNat = loadCount fs inode ∧
      ext2ReadFile m fs inode userCodeBase inode.iSizeLo 0
        = .ok (fileStore fs inode userCodeBase 0 (loadCount fs inode) m, n) := by
  unfold loadCount
  by_cases hfits : inode.iSizeLo.toNat + fs.blockSize.toNat ≤ 2 ^ 32
  · rw [if_pos hfits]
    have hzero : (0 : UInt32).toNat = 0 := rfl
    have hnull : userCodeBase = 0 → readCount fs inode inode.iSizeLo.toNat (0 : UInt32).toNat = 0 :=
      fun h => absurd h (by decide)
    have hcount : readCount fs inode inode.iSizeLo.toNat 0
        = min inode.iSizeLo.toNat (12 * fs.blockSize.toNat) := by
      unfold readCount
      omega
    obtain ⟨n, hn, hread⟩ := ext2ReadFile_eq m hnull (ReadFits.cut ⟨hbs, by omega⟩ inode)
    rw [hzero, hcount] at hn hread
    exact ⟨n, hn, hread⟩
  · rw [if_neg hfits]
    exact ⟨0, rfl, ext2ReadFile_wrap m hbs hfits⟩

theorem umReadProgram_eq {fs : Ext2Fs} (hbs : 0 < fs.blockSize.toNat) (k : KernelState) (inode : Inode) :
    ∃ shell, umReadProgram k fs inode = .ok
      ({ k with
          mem := fileStore fs inode userCodeBase 0 (loadCount fs inode) k.mem
          shell },
        if loadCount fs inode = inode.iSizeLo.toNat then .complete else .shortRead) := by
  have hfits : formatFits (literal "Failed to read complete program (read %d of %d bytes)\r\n")
      [.word, .word] = true := formatFits_ofList (by decide)
  obtain ⟨n, hn, hread⟩ := ext2ReadFile_whole hbs k.mem inode
  have hfull : loadCount fs inode = inode.iSizeLo.toNat ↔ n = inode.iSizeLo := by
    rw [← hn, UInt32.toNat_inj]
  unfold umReadProgram
  rw [hread]
  -- the check of `bytes_read` against the size
  by_cases hn' : n = inode.iSizeLo
  · rw [if_pos (hfull.mpr hn')]
    refine ⟨k.shell, ?_⟩
    show (if n ≠ inode.iSizeLo then _ else _) = _
    rw [if_neg (not_not.mpr hn')]
    rfl
  · obtain ⟨shell, hprint⟩ := shPrintf_total k.shell hfits [.word n, .word inode.iSizeLo] rfl
    rw [if_neg (fun hc => hn' (hfull.mp hc))]
    refine ⟨shell, ?_⟩
    show (if n ≠ inode.iSizeLo then _ else _) = _
    rw [if_pos hn']
    simp only [hprint]
    rfl

theorem umFindProgram_eq {fs : Ext2Fs} (h : fs.Divisible) (k : KernelState) (programName : List UInt8) :
    (programInode k.mem fs programName = none ∧
      ∃ shell, umFindProgram k fs programName = .ok ({ k with shell }, .notFound)) ∨
    ∃ inode shell, programInode k.mem fs programName = some inode ∧
      umFindProgram k fs programName = umReadProgram { k with shell } fs inode := by
  have hfits : formatFits (literal "Failed to find program: %s\r\n") [.str] = true := formatFits_ofList (by decide)
  obtain ⟨shell, hfind⟩ := ext2FindFileInodeByName_eq h k.shell k.mem programName
  unfold umFindProgram programInode
  rw [hfind, ok_bind]
  cases hrecord : findRecord k.mem fs programName with
  | none =>
      obtain ⟨shell', hprint⟩ := shPrintf_total shell hfits [.str (some programName)] rfl
      refine .inl ⟨rfl, shell', ?_⟩
      simp only [Option.map_none, Option.getD_none, if_true, pure_bind, hprint, ok_bind]
      rfl
  | some r =>
      refine .inr ⟨_, shell, rfl, ?_⟩
      -- a live record has an inode number that is read
      have hlive := findRecord_live hrecord
      simp only [Option.map_some, Option.getD_some, if_neg hlive, ext2ReadInode_eq h k.mem hlive, ok_bind]

/-- Without a slot, `umSetupEnv` returns at once. -/
theorem umSetupEnv_noSlot {k : KernelState} (hno : ∀ pid, ¬ k.procs.Unused pid) (fs : Ext2Fs)
    (programName : List UInt8) :
    ∃ shell, umSetupEnv k fs programName = .ok ({ k with shell }, .noProcess) := by
  rcases procCreate_cases k.phys k.procs with ⟨-, heq⟩ | ⟨pid, -, hunused, -⟩
  · refine ⟨shPuts k.shell (text "Failed to create process\r\n"), ?_⟩
    unfold umSetupEnv
    rw [heq]
  · exact absurd hunused (hno pid)

/-- With a slot, it goes on to look for the program, in the same memory, with a new process. -/
theorem umSetupEnv_slot {k : KernelState} (hslot : ∃ pid, k.procs.Unused pid) (fs : Ext2Fs)
    (programName : List UInt8) :
    ∃ k₁, umSetupEnv k fs programName = umFindProgram k₁ fs programName ∧ k₁.mem = k.mem ∧
      NewProcess k k₁ := by
  obtain ⟨pid, hpid⟩ := hslot
  rcases procCreate_cases k.phys k.procs with ⟨hno, -⟩ | ⟨pid, procs, -, -, heq, hproc, -, hcurrent⟩
  · exact absurd hpid (hno pid)
  · refine ⟨tssSetKernelStack { k with phys := (memPhysAlloc k.phys).1, procs }
      (procs.proc pid).kernelStackTop, ?_, rfl, pid, hcurrent, by rw [tssSetKernelStack, hproc]⟩
    unfold umSetupEnv
    rw [heq]

/-- With a slot, it does not find a program that the root directory does not have. -/
theorem umSetupEnv_notFound {k : KernelState} {fs : Ext2Fs} {programName : List UInt8}
    (hslot : ∃ pid, k.procs.Unused pid) (hdiv : fs.Divisible)
    (hnone : programInode k.mem fs programName = none) :
    ∃ k', umSetupEnv k fs programName = .ok (k', .notFound) := by
  obtain ⟨k₁, heq, hmem, -⟩ := umSetupEnv_slot hslot fs programName
  rcases umFindProgram_eq hdiv k₁ programName with ⟨-, shell, hfind⟩ | ⟨inode, -, hsome, -⟩
  · exact ⟨{ k₁ with shell }, heq.trans hfind⟩
  · rw [hmem, hnone] at hsome
    exact absurd hsome (by simp)

/-- **All `umSetupEnv` can do.** -/
theorem umSetupEnv_cases (k : KernelState) (fs : Ext2Fs) (programName : List UInt8) :
    ((∀ pid, ¬ k.procs.Unused pid) ∧
      ∃ shell, umSetupEnv k fs programName = .ok ({ k with shell }, .noProcess)) ∨
    ((∃ pid, k.procs.Unused pid) ∧ ¬ fs.Divisible ∧
      umSetupEnv k fs programName = .error .divideError) ∨
    ((∃ pid, k.procs.Unused pid) ∧ fs.Divisible ∧ programInode k.mem fs programName = none ∧
      ∃ k', umSetupEnv k fs programName = .ok (k', .notFound) ∧ k'.mem = k.mem ∧ NewProcess k k') ∨
    ((∃ pid, k.procs.Unused pid) ∧ fs.Divisible ∧
      ∃ inode k', programInode k.mem fs programName = some inode ∧
        umSetupEnv k fs programName
          = .ok (k', if loadCount fs inode = inode.iSizeLo.toNat then .complete else .shortRead) ∧
        k'.mem = fileStore fs inode userCodeBase 0 (loadCount fs inode) k.mem ∧ NewProcess k k') := by
  by_cases hslot : ∃ pid, k.procs.Unused pid
  · obtain ⟨k₁, heq, hmem, hnew⟩ := umSetupEnv_slot hslot fs programName
    rw [heq, ← hmem]
    by_cases hdiv : fs.Divisible
    · refine .inr (.inr ?_)
      rcases umFindProgram_eq hdiv k₁ programName with
        ⟨hnone, shell, hfind⟩ | ⟨inode, shell, hsome, hfind⟩
      · exact .inl ⟨hslot, hdiv, hnone, { k₁ with shell }, hfind, rfl, hnew⟩
      · obtain ⟨shell', hread⟩ := umReadProgram_eq hdiv.blockSize_pos { k₁ with shell } inode
        exact .inr ⟨hslot, hdiv, inode, _, hsome, hfind.trans hread, rfl, hnew⟩
    · refine .inr (.inl ⟨hslot, hdiv, ?_⟩)
      unfold umFindProgram
      rw [ext2FindFileInodeByName_error hdiv]
      rfl
  · have hno : ∀ pid, ¬ k.procs.Unused pid := not_exists.mp hslot
    exact .inl ⟨hno, umSetupEnv_noSlot hno fs programName⟩

end Drupe
