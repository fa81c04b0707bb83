import Drupe.Usermode.Correctness.Setup

/-!
# `Usermode.Correctness.Load` — loading a program over the disk image

The linker script places the disk image right after the kernel, so it starts below 4 MiB, and at 20 MiB it
covers `userCodeBase` (`userCodeBase_inImage`): `umSetupEnv` loads the program *into the image it reads it
from*. What it owes (`LoadedRight`) then depends on what the image holds where the program goes
(`load_iff`).
-/

namespace Drupe

open Lib

/-- `genext2fs -b 20480`: the image has 20480 blocks of 1 KiB. -/
def diskImgSize : Nat := 20480 * 1024

/-- **What loading owes**: the file is at the user code base as it was in the image, and the image is as it
    was. -/
def LoadedRight (m m' : Mem) (fs : Ext2Fs) (inode : Inode) : Prop :=
  (∀ j < inode.iSizeLo.toNat, m' (userCodeBase + UInt32.ofNat j) = fileByte m fs inode j) ∧
  ∀ a, fs.InImage diskImgSize a → m' a = m a

/-- The search of the root directory finds the program, with this inode. -/
def Finds (k : KernelState) (fs : Ext2Fs) (programName : List UInt8) (inode : Inode) : Prop :=
  ∃ shell inodeNum, ext2FindFileInodeByName k.shell k.mem fs programName = .ok (shell, inodeNum) ∧
    inodeNum ≠ 0 ∧ ext2ReadInode k.mem fs inodeNum = .ok (some inode)

theorem finds_iff {k : KernelState} {fs : Ext2Fs} {programName : List UInt8} {inode : Inode} :
    Finds k fs programName inode ↔ fs.Divisible ∧ programInode k.mem fs programName = some inode := by
  constructor
  · rintro ⟨shell, inodeNum, hfind, hne, hread⟩
    by_cases hdiv : fs.Divisible
    · refine ⟨hdiv, ?_⟩
      obtain ⟨shell', heq⟩ := ext2FindFileInodeByName_eq hdiv k.shell k.mem programName
      have hno := congrArg Prod.snd (Except.ok.inj (heq.symm.trans hfind))
      unfold programInode
      cases hrecord : findRecord k.mem fs programName with
      | none =>
          rw [hrecord] at hno
          exact absurd hno.symm hne
      | some r =>
          rw [hrecord] at hno
          have hr : r.2 = inodeNum := hno
          rw [ext2ReadInode_eq hdiv k.mem hne] at hread
          rw [Option.map_some, hr]
          exact Except.ok.inj hread
    · rw [ext2FindFileInodeByName_error hdiv] at hfind
      exact absurd hfind (by simp)
  · rintro ⟨hdiv, hsome⟩
    obtain ⟨shell, heq⟩ := ext2FindFileInodeByName_eq hdiv k.shell k.mem programName
    obtain ⟨r, hrecord, rfl⟩ := Option.map_eq_some_iff.mp hsome
    rw [hrecord] at heq
    exact ⟨shell, r.2, heq, findRecord_live hrecord, ext2ReadInode_eq hdiv k.mem (findRecord_live hrecord)⟩

/-- Every byte of the program is where it goes. -/
def AlreadyLoaded (m : Mem) (fs : Ext2Fs) (inode : Inode) : Prop :=
  ∀ j < inode.iSizeLo.toNat, m (userCodeBase + UInt32.ofNat j) = fileByte m fs inode j

/-- **When loading is right**: the program is there already; or a process slot is unused, the number of blocks
    does not wrap, and the copy neither changes the image nor overwrites a byte of the program that it reads
    later. -/
def LoadsRight (k : KernelState) (fs : Ext2Fs) (inode : Inode) : Prop :=
  AlreadyLoaded k.mem fs inode ∨
  ((∃ pid, k.procs.Unused pid) ∧ inode.iSizeLo.toNat + fs.blockSize.toNat ≤ 2 ^ 32 ∧
    FileUndisturbed fs inode userCodeBase 0 k.mem inode.iSizeLo.toNat ∧
    Harmless fs inode userCodeBase 0 diskImgSize k.mem inode.iSizeLo.toNat)

theorem AlreadyLoaded.undisturbed {m : Mem} {fs : Ext2Fs} {inode : Inode} (h : AlreadyLoaded m fs inode) :
    FileUndisturbed fs inode userCodeBase 0 m inode.iSizeLo.toNat := by
  intro k hk j hj hsrc
  -- byte `k` is read from where byte `j` goes, which holds byte `j`
  have hheld := h j (by omega)
  rw [hsrc]
  show fetch 0 (fileSrc fs inode (0 + j)) m = m (userCodeBase + UInt32.ofNat j)
  rw [← fileByte_eq_fetch, Nat.zero_add, hheld]

theorem AlreadyLoaded.harmless {m : Mem} {fs : Ext2Fs} {inode : Inode} (h : AlreadyLoaded m fs inode) :
    Harmless fs inode userCodeBase 0 diskImgSize m inode.iSizeLo.toNat := by
  intro j hj _
  rw [Nat.zero_add]
  exact h j hj

/-- A load that changes nothing is right when the program is there already. -/
theorem loadedRight_self {m : Mem} {fs : Ext2Fs} {inode : Inode} :
    LoadedRight m m fs inode ↔ AlreadyLoaded m fs inode :=
  ⟨fun h => h.1, fun h => ⟨h, fun _ _ => rfl⟩⟩

/-- A load that copies the whole program is right when the copy does no harm. -/
theorem loadedRight_fileStore {m : Mem} {fs : Ext2Fs} {inode : Inode} :
    LoadedRight m (fileStore fs inode userCodeBase 0 inode.iSizeLo.toNat m) fs inode ↔
      FileUndisturbed fs inode userCodeBase 0 m inode.iSizeLo.toNat ∧
        Harmless fs inode userCodeBase 0 diskImgSize m inode.iSizeLo.toNat := by
  have hsize := inode.iSizeLo.toNat_lt
  have htrans : FileTransferred fs inode userCodeBase 0 m _ _ ↔ _ :=
    fileStore_transferred_iff (Nat.le_of_lt hsize)
  constructor
  · rintro ⟨hfile, himage⟩
    constructor
    · apply htrans.mp
      refine ⟨fun j hj => ?_, fun a ha => ?_⟩
      · rw [Nat.zero_add]
        exact hfile j hj
      · exact store_frame fun t ht => by rw [Nat.zero_add]; exact ha t ht
    · intro j hj hin
      rw [← himage _ hin, Nat.zero_add]
      exact hfile j hj
  · rintro ⟨hundisturbed, hharm⟩
    have h := htrans.mpr hundisturbed
    constructor
    · intro j hj
      have hj' := h.written j hj
      rwa [Nat.zero_add] at hj'
    · exact h.stable hharm

/-- With a slot, a program that is found is read: as many bytes of it as `loadCount` says. -/
theorem umSetupEnv_found {k : KernelState} {fs : Ext2Fs} {programName : List UInt8} {inode : Inode}
    (hslot : ∃ pid, k.procs.Unused pid) (hfound : Finds k fs programName inode) :
    ∃ k' r, umSetupEnv k fs programName = .ok (k', r) ∧
      k'.mem = fileStore fs inode userCodeBase 0 (loadCount fs inode) k.mem := by
  obtain ⟨hdiv, hsome⟩ := finds_iff.mp hfound
  rcases umSetupEnv_cases k fs programName with ⟨hno, -⟩ | ⟨-, hndiv, -⟩ | ⟨-, -, hnone, -⟩ |
      ⟨-, -, inode', k', hsome', heq, hmem, -⟩
  · obtain ⟨pid, hpid⟩ := hslot
    exact absurd hpid (hno pid)
  · exact absurd hdiv hndiv
  · rw [hnone] at hsome
    exact absurd hsome (by simp)
  · obtain rfl : inode' = inode := Option.some.inj (hsome'.symm.trans hsome)
    exact ⟨k', _, heq, hmem⟩

/-- **Loading.** For every state of the kernel, wherever the image is and whatever it holds, and every program
    that is found in the root directory and has at most 12 blocks: `umSetupEnv` returns, and has loaded the
    program right exactly when `LoadsRight`. -/
theorem load_iff (k : KernelState) (fs : Ext2Fs) (programName : List UInt8) {inode : Inode}
    (hfound : Finds k fs programName inode)
    (hsize : inode.iSizeLo.toNat ≤ 12 * fs.blockSize.toNat) :
    ∃ k' r, umSetupEnv k fs programName = .ok (k', r) ∧
      (LoadedRight k.mem k'.mem fs inode ↔ LoadsRight k fs inode) := by
  by_cases hslot : ∃ pid, k.procs.Unused pid
  · obtain ⟨k', r, heq, hmem⟩ := umSetupEnv_found hslot hfound
    refine ⟨k', r, heq, ?_⟩
    rw [hmem]
    unfold loadCount
    by_cases hfits : inode.iSizeLo.toNat + fs.blockSize.toNat ≤ 2 ^ 32
    · rw [if_pos hfits, Nat.min_eq_left hsize]
      refine loadedRight_fileStore.trans ⟨fun h => .inr ⟨hslot, hfits, h⟩, ?_⟩
      rintro (h | ⟨-, -, h⟩)
      · exact ⟨h.undisturbed, h.harmless⟩
      · exact h
    -- the number of blocks wraps: nothing is read
    · rw [if_neg hfits]
      refine loadedRight_self.trans ⟨.inl, ?_⟩
      rintro (h | ⟨-, hfits', -⟩)
      · exact h
      · exact absurd hfits' hfits
  -- without a slot the search is not reached
  · obtain ⟨shell, heq⟩ := umSetupEnv_noSlot (not_exists.mp hslot) fs programName
    refine ⟨_, _, heq, loadedRight_self.trans ⟨.inl, ?_⟩⟩
    rintro (h | ⟨h, -⟩)
    · exact h
    · exact absurd h hslot

/-- Where the linker script and the image size put it, the image covers the user code base. -/
theorem userCodeBase_inImage {fs : Ext2Fs} (hlow : 0x100000 ≤ fs.image.toNat)
    (hhigh : fs.image.toNat ≤ 0x400000) : fs.InImage diskImgSize userCodeBase := by
  have hbase : userCodeBase.toNat = 0x400000 := rfl
  unfold Ext2Fs.InImage diskImgSize
  omega

/-! ## A program of one byte -/

/-- The image of `smallFs` with a program `a` of one byte: inode 3, whose block is block 1. The root directory
    is in block 3, the inodes from block 5 on. -/
def oneByteMem : Mem := fun a =>
  (([(0x100008, 5), (0x200400, 33), (0x200C00, 3), (0x200C05, 4), (0x200C06, 1), (0x200C08, 97), (0x20149C, 2),
    (0x2014A8, 3), (0x201504, 1), (0x201528, 1)] : List (UInt32 × UInt8)).lookup a).getD 0

/-- The kernel with this image, before it runs the program. -/
def oneByteState : KernelState := ⟨oneByteMem, memPhysInit 0x100000 0x100000, .zeroed, 0, bootShell⟩

def oneByteInode : Inode := Inode.read oneByteMem (smallFs.inodeAddr oneByteMem 3)

theorem oneByte_size : oneByteInode.iSizeLo.toNat = 1 := by decide +kernel

theorem oneByte_found : Finds oneByteState smallFs (text "a") oneByteInode := by
  have hrecord : findRecord oneByteMem smallFs (text "a") = some (text "a", 3) := by decide +kernel
  rw [finds_iff]
  refine ⟨⟨by decide, by decide⟩, ?_⟩
  show programInode oneByteMem smallFs (text "a") = _
  rw [programInode, hrecord]
  rfl

/-- The byte of the program is not where it goes, in the image. -/
theorem oneByte_not_harmless :
    ¬ Harmless smallFs oneByteInode userCodeBase 0 diskImgSize oneByteMem oneByteInode.iSizeLo.toNat := by
  intro h
  have hin : smallFs.InImage diskImgSize userCodeBase := userCodeBase_inImage (by decide) (by decide)
  have hheld := h 0 (by rw [oneByte_size]; decide) hin
  exact absurd hheld (by decide +kernel)

theorem load_iff_oneByte :
    ∃ k' r, umSetupEnv oneByteState smallFs (text "a") = .ok (k', r) ∧
      ¬ LoadedRight oneByteMem k'.mem smallFs oneByteInode := by
  obtain ⟨k', r, heq, hiff⟩ := load_iff oneByteState smallFs (text "a") oneByte_found
    (by rw [oneByte_size]; decide)
  refine ⟨k', r, heq, fun hright => oneByte_not_harmless ?_⟩
  rcases hiff.mp hright with hthere | ⟨-, -, -, hharm⟩
  · exact hthere.harmless
  · exact hharm

/-- Loading the one byte changes the image, which starts at 2 MiB. -/
theorem load_over_image :
    smallFs.image = 0x200000 ∧ Finds oneByteState smallFs (text "a") oneByteInode ∧
    oneByteInode.iSizeLo.toNat ≤ 12 * smallFs.blockSize.toNat ∧
    ∃ k' r, umSetupEnv oneByteState smallFs (text "a") = .ok (k', r) ∧
      ¬ LoadedRight oneByteState.mem k'.mem smallFs oneByteInode := by
  refine ⟨rfl, oneByte_found, by rw [oneByte_size]; decide, ?_⟩
  obtain ⟨k', r, heq, hmem⟩ := umSetupEnv_found ⟨0, zeroed_unused 0⟩ oneByte_found
  have hcount : loadCount smallFs oneByteInode = oneByteInode.iSizeLo.toNat := by
    unfold loadCount
    rw [oneByte_size]
    decide
  refine ⟨k', r, heq, fun hright => oneByte_not_harmless ?_⟩
  rw [hmem, hcount] at hright
  exact (loadedRight_fileStore.mp hright).2

end Drupe
