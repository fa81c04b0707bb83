import Drupe.Filesystem.Correctness.DirLayout
import Drupe.Filesystem.Correctness.ReadFile
import Drupe.Kernel.Correctness.FindFile

/-!
# `Kernel.Correctness.RootDirectory` — the search for a name is a search of the records

For a root directory laid out as lists of records, `ext2FindFileInodeByName` finds the first live record with
exactly the name that is looked for.
-/

namespace Drupe

/-- The first live record with a name, in block and record order. -/
def firstNamed (blocks : List (List DirRecord)) (filename : List UInt8) : Option DirRecord :=
  blocks.flatten.find? fun r => r.inode ≠ 0 ∧ r.name = filename

/-- The search of the shown records is the search of the records. -/
theorem find_liveRecords (rs : List DirRecord) {filename : List UInt8} (hname : 0 ∉ filename) :
    (liveRecords rs).find? (fun r => cString r.1 = cString filename)
      = (rs.find? fun r => r.inode ≠ 0 ∧ r.name = filename).map DirRecord.shown := by
  unfold liveRecords
  rw [List.find?_map, List.find?_filter]
  congr 2
  funext r
  simp only [Function.comp, DirRecord.shown, cString_eq_self r.name_noNul, cString_eq_self hname,
    Bool.decide_and, Bool.decide_coe]

/-- A root inode that can be read is the inode at its address, and nothing is divided by zero. -/
theorem root_read {m : Mem} {fs : Ext2Fs} {root : Inode} {k : Nat} (hsize : fs.BlockSized k)
    (hroot : ext2ReadInode m fs ext2RootIno = .ok (some root)) :
    fs.Divisible ∧ 512 ≤ fs.blockSize.toNat ∧ root = Inode.read m (fs.inodeAddr m ext2RootIno) := by
  have hbig : 1024 ≤ fs.blockSize.toNat := by
    rw [hsize]
    exact Nat.le_mul_of_pos_right 1024 (Nat.two_pow_pos k)
  have hdivisible : fs.Divisible := by
    refine ⟨?_, ?_⟩
    · intro hzero
      rw [ext2ReadInode_cases, if_neg (by decide), if_pos (.inl hzero)] at hroot
      exact absurd hroot (by simp)
    · rw [Ne, ← UInt32.toNat_inj, UInt32.toNat_div]
      show ¬ fs.blockSize.toNat / 512 = 0
      omega
  rw [ext2ReadInode_eq hdivisible m (by decide)] at hroot
  exact ⟨hdivisible, by omega, (Option.some.inj (Except.ok.inj hroot)).symm⟩

/-- **A name is looked up in the records of the root directory.** For every root directory whose blocks are
    filled with records, and every name without NULs: the answer is the inode number of the first live
    record with that name, and 0 exactly when there is none. -/
theorem ext2FindFileInodeByName_laid {m : Mem} {fs : Ext2Fs} {root : Inode} {k : Nat}
    {blocks : List (List DirRecord)} (hsize : fs.BlockSized k)
    (hroot : ext2ReadInode m fs ext2RootIno = .ok (some root)) (hlaid : DirLaid m fs root blocks)
    (sh : Shell) {filename : List UInt8} (hname : 0 ∉ filename) :
    ∃ sh' inode, ext2FindFileInodeByName sh m fs filename = .ok (sh', inode) ∧
      inode = ((firstNamed blocks filename).map DirRecord.inode).getD 0 ∧
      (inode = 0 ↔ ∀ r ∈ blocks.flatten, r.inode ≠ 0 → r.name ≠ filename) := by
  obtain ⟨hdivisible, h512, rfl⟩ := root_read hsize hroot
  obtain ⟨sh', hfind⟩ := ext2FindFileInodeByName_eq hdivisible sh m filename
  have hrecord : findRecord m fs filename = (firstNamed blocks filename).map DirRecord.shown := by
    unfold findRecord rootRecords
    rw [hlaid.dirRecords_eq h512, find_liveRecords _ hname]
    rfl
  rw [hrecord, Option.map_map] at hfind
  refine ⟨sh', _, hfind, rfl, ?_⟩
  cases hfirst : firstNamed blocks filename with
  | none =>
      rw [firstNamed, List.find?_eq_none] at hfirst
      simp only [Option.map_none, Option.getD_none, true_iff]
      intro r hr hlive heq
      exact hfirst r hr (by simpa using ⟨hlive, heq⟩)
  | some r =>
      have hlive : r.inode ≠ 0 ∧ r.name = filename := by
        simpa using List.find?_some hfirst
      simp only [Option.map_some, Option.getD_some]
      refine iff_of_false hlive.1 fun hnone => ?_
      exact hnone r (List.mem_of_find?_eq_some hfirst) hlive.1 hlive.2

/-! ## A directory of three records -/

/-- An image at 2 MiB. The block of its root directory holds a deleted record `a`, then `ab` and `a`. -/
def threeRecordsMem : Mem := fun a =>
  (([(0x100008, 2), (0x20089C, 2), (0x2008A8, 5), (0x201404, 12), (0x201406, 1), (0x201408, 97),
    (0x20140C, 13), (0x201410, 12), (0x201412, 2), (0x201414, 97), (0x201415, 98), (0x201418, 14),
    (0x20141C, 0xE8), (0x20141D, 3), (0x20141E, 1), (0x201420, 97)] :
    List (UInt32 × UInt8)).lookup a).getD 0

def threeRecords : List DirRecord :=
  [⟨0, 12, [97], by decide, by decide⟩, ⟨13, 12, [97, 98], by decide, by decide⟩,
    ⟨14, 1000, [97], by decide, by decide⟩]

def threeRecordsRoot : Inode := Inode.read threeRecordsMem (smallFs.inodeAddr threeRecordsMem ext2RootIno)

theorem threeRecords_at : RecordsAt threeRecordsMem 0x201400 1024 0 threeRecords :=
  ⟨⟨by decide +kernel, by decide +kernel, by decide +kernel, by decide +kernel⟩,
    ⟨by decide +kernel, by decide +kernel, by decide +kernel, by decide +kernel⟩,
    ⟨by decide +kernel, by decide +kernel, by decide +kernel, by decide +kernel⟩, rfl⟩

theorem threeRecords_laid : DirLaid threeRecordsMem smallFs threeRecordsRoot [threeRecords] where
  direct := by decide
  iBlocks_eq := by decide +kernel
  used := by decide +kernel
  unused := by decide +kernel
  laid := by
    intro b hb
    obtain rfl : b = 0 := by simpa using hb
    have hblock : smallFs.image + threeRecordsRoot.iBlock 0 * smallFs.blockSize = 0x201400 := by
      decide +kernel
    rw [hblock]
    exact threeRecords_at

theorem ext2FindFileInodeByName_laid_a : ∃ sh',
    ext2FindFileInodeByName bootShell threeRecordsMem smallFs [97] = .ok (sh', 14) := by
  obtain ⟨sh', inode, hfind, hinode, -⟩ := ext2FindFileInodeByName_laid smallFs_blockSized
    (ext2ReadInode_eq ⟨by decide, by decide⟩ threeRecordsMem (by decide)) threeRecords_laid bootShell
    (show 0 ∉ [97] by decide)
  have h14 : inode = 14 := hinode.trans (by decide)
  exact ⟨sh', by rw [hfind, h14]⟩

end Drupe
