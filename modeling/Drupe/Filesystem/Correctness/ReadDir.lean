import Drupe.Filesystem.Ext2
import Drupe.Lib.Visit

/-!
# `Filesystem.Correctness.ReadDir` — the records of a directory

`dirRecords` lists the live records that the walk of `ext2ReadDir` comes to, each with its name and its inode
number; the callback is then shown that list (`ext2ReadDir_eq`).

A file system whose superblock and block size make no division by zero is `Divisible`. On such a one an inode
number other than 0 has an inode (`ext2ReadInode_eq`), and a directory can be walked.
-/

namespace Drupe

open Lib

/-- The divisors of `ext2ReadInode` and `ext2ReadDir` are not zero. -/
structure Ext2Fs.Divisible (fs : Ext2Fs) : Prop where
  inodesPerGroup : fs.sb.sInodesPerGroup ≠ 0
  blockSize : fs.blockSize / 512 ≠ 0

/-- The address of inode `inodeNo`. -/
def Ext2Fs.inodeAddr (fs : Ext2Fs) (m : Mem) (inodeNo : UInt32) : UInt32 :=
  let group := (inodeNo - 1) / fs.sb.sInodesPerGroup
  let index := (inodeNo - 1) % fs.sb.sInodesPerGroup
  let inodesPerBlock := fs.blockSize / UInt32.ofNat inodeSize
  fs.image + ((m.read32 (fs.bgdt + group * groupDescSize + 8) + index / inodesPerBlock) * fs.blockSize
    + index % inodesPerBlock * UInt32.ofNat inodeSize)

theorem Ext2Fs.Divisible.inodesPerBlock {fs : Ext2Fs} (h : fs.Divisible) :
    fs.blockSize / UInt32.ofNat inodeSize ≠ 0 := by
  intro hzero
  apply h.blockSize
  have hnat := congrArg UInt32.toNat hzero
  rw [UInt32.toNat_div] at hnat
  have h128 : fs.blockSize.toNat / 128 = 0 := hnat
  rw [← UInt32.toNat_inj, UInt32.toNat_div]
  show fs.blockSize.toNat / 512 = 0
  omega

/-- **All `ext2ReadInode` can do**: refuse inode 0, divide by zero, or read the inode at its address. -/
theorem ext2ReadInode_cases (m : Mem) (fs : Ext2Fs) (inodeNo : UInt32) :
    ext2ReadInode m fs inodeNo =
      if inodeNo = 0 then .ok none
      else if fs.sb.sInodesPerGroup = 0 ∨ fs.blockSize / UInt32.ofNat inodeSize = 0 then
        .error .divideError
      else .ok (some (Inode.read m (fs.inodeAddr m inodeNo))) := by
  unfold ext2ReadInode
  by_cases hno : inodeNo = 0
  · rw [if_pos hno, if_pos hno]
    rfl
  by_cases hgroup : fs.sb.sInodesPerGroup = 0
  · have hdiv : fs.sb.sInodesPerGroup = 0 ∨ fs.blockSize / UInt32.ofNat inodeSize = 0 := .inl hgroup
    rw [if_neg hno, if_neg hno, if_pos hgroup, if_pos hdiv]
    rfl
  by_cases hblock : fs.blockSize / UInt32.ofNat inodeSize = 0
  · have hdiv : fs.sb.sInodesPerGroup = 0 ∨ fs.blockSize / UInt32.ofNat inodeSize = 0 := .inr hblock
    rw [if_neg hno, if_neg hno, if_neg hgroup, if_pos hblock, if_pos hdiv]
    rfl
  · rw [if_neg hno, if_neg hno, if_neg hgroup, if_neg hblock, if_neg (not_or.mpr ⟨hgroup, hblock⟩)]
    rfl

/-- `ext2ReadInode` refuses only inode 0. -/
theorem ext2ReadInode_eq {fs : Ext2Fs} (h : fs.Divisible) (m : Mem) {inodeNo : UInt32} (hno : inodeNo ≠ 0) :
    ext2ReadInode m fs inodeNo = .ok (some (Inode.read m (fs.inodeAddr m inodeNo))) := by
  rw [ext2ReadInode_cases, if_neg hno, if_neg (not_or.mpr ⟨h.inodesPerGroup, h.inodesPerBlock⟩)]

/-! ## The walk -/

/-- The live records that the walk through one block comes to. -/
def blockRecords (m : Mem) (fs : Ext2Fs) (block : UInt32) :
    (fuel : Nat) → (offset : UInt32) → List (List UInt8 × UInt32)
  | 0, _ => []
  | fuel + 1, offset =>
    if offset < fs.blockSize then
      let de := block + offset
      let here := if m.read32 de ≠ 0 then [(direntName m de, m.read32 de)] else []
      here ++ if m.read16 (de + 4) = 0 then []
        else blockRecords m fs block fuel (offset + m.read16 (de + 4))
    else []

/-- The live records of the direct blocks `b`, …, `b + fuel - 1`. -/
def blocksRecords (m : Mem) (fs : Ext2Fs) (dir : Inode) (blkCount : UInt32) :
    (fuel b : Nat) → List (List UInt8 × UInt32)
  | 0, _ => []
  | fuel + 1, b =>
    if b < blkCount.toNat then
      (if dir.iBlock b = 0 then []
        else blockRecords m fs (fs.image + dir.iBlock b * fs.blockSize) fs.blockSize.toNat 0) ++
      blocksRecords m fs dir blkCount fuel (b + 1)
    else []

/-- The live records of a directory: name and inode number. -/
def dirRecords (m : Mem) (fs : Ext2Fs) (dir : Inode) : List (List UInt8 × UInt32) :=
  blocksRecords m fs dir (dir.iBlocks / (fs.blockSize / 512)) 12 0

/-- A callback, on records. -/
def DirentCb.onRecord {σ : Type} (cb : DirentCb σ) (ctx : σ) (r : List UInt8 × UInt32) :
    Except Fault (σ × Bool) := cb ctx r.1 r.2

section Walk

variable {σ : Type} {m : Mem} {fs : Ext2Fs} (cb : DirentCb σ)

theorem readDirBlock_eq (block : UInt32) (fuel : Nat) (offset : UInt32) (ctx : σ) :
    readDirBlock m fs block cb fuel offset ctx
      = visit cb.onRecord (blockRecords m fs block fuel offset) ctx := by
  induction fuel generalizing offset ctx with
  | zero => rfl
  | succ fuel ih =>
      rw [readDirBlock, blockRecords]
      by_cases hin : offset < fs.blockSize
      · rw [if_pos hin, if_pos hin, visit_append]
        -- the walk goes on in the same way after a live record and after a deleted one
        have hrest : ∀ ctx', (if m.read16 (block + offset + 4) = 0 then .ok (ctx', true)
            else readDirBlock m fs block cb fuel (offset + m.read16 (block + offset + 4)) ctx')
            = visit cb.onRecord (if m.read16 (block + offset + 4) = 0 then []
              else blockRecords m fs block fuel (offset + m.read16 (block + offset + 4))) ctx' := by
          intro ctx'
          by_cases hlen : m.read16 (block + offset + 4) = 0
          · rw [if_pos hlen, if_pos hlen]
            rfl
          · rw [if_neg hlen, if_neg hlen]
            exact ih _ ctx'
        by_cases hlive : m.read32 (block + offset) ≠ 0
        · rw [if_pos hlive, if_pos hlive, visit_cons, DirentCb.onRecord]
          rcases cb ctx (direntName m (block + offset)) (m.read32 (block + offset)) with e | ⟨ctx', goOn⟩
          · rfl
          · cases goOn with
            | false => rfl
            | true => exact hrest ctx'
        · rw [if_neg hlive, if_neg hlive]
          exact hrest ctx
      · rw [if_neg hin, if_neg hin]
        rfl

theorem readDirBlocks_eq (dir : Inode) (blkCount : UInt32) (fuel b : Nat) (ctx : σ) :
    readDirBlocks m fs dir blkCount cb fuel b ctx
      = (visit cb.onRecord (blocksRecords m fs dir blkCount fuel b) ctx).map Prod.fst := by
  induction fuel generalizing b ctx with
  | zero => rfl
  | succ fuel ih =>
      rw [readDirBlocks, blocksRecords]
      by_cases hin : b < blkCount.toNat
      · rw [if_pos hin, if_pos hin, visit_append]
        by_cases hhole : dir.iBlock b = 0
        · rw [if_pos hhole, if_pos hhole]
          exact ih (b + 1) ctx
        · rw [if_neg hhole, if_neg hhole]
          simp only [readDirBlock_eq]
          rcases visit _ _ ctx with e | ⟨ctx', goOn⟩
          · rfl
          · cases goOn with
            | false => rfl
            | true => exact ih (b + 1) ctx'
      · rw [if_neg hin, if_neg hin]
        rfl

end Walk

/-- All `ext2ReadDir` can do: divide by zero, or walk through the blocks. -/
theorem ext2ReadDir_cases {σ : Type} (m : Mem) (fs : Ext2Fs) (dir : Inode) (cb : DirentCb σ) (ctx : σ) :
    ext2ReadDir m fs dir cb ctx =
      if fs.blockSize / 512 = 0 then .error .divideError
      else readDirBlocks m fs dir (dir.iBlocks / (fs.blockSize / 512)) cb 12 0 ctx := by
  unfold ext2ReadDir
  by_cases hdiv : fs.blockSize / 512 = 0
  · rw [if_pos hdiv, if_pos hdiv]
    rfl
  · rw [if_neg hdiv, if_neg hdiv]

/-- **`ext2ReadDir`** shows the callback the records of the directory. -/
theorem ext2ReadDir_eq {σ : Type} {fs : Ext2Fs} (h : fs.Divisible) (m : Mem) (dir : Inode) (cb : DirentCb σ)
    (ctx : σ) : ext2ReadDir m fs dir cb ctx = (visit cb.onRecord (dirRecords m fs dir) ctx).map Prod.fst := by
  rw [ext2ReadDir_cases, if_neg h.blockSize, readDirBlocks_eq]
  rfl

/-! ## Live records -/

theorem blockRecords_live {m : Mem} {fs : Ext2Fs} {block : UInt32} {fuel : Nat} {offset : UInt32}
    {r : List UInt8 × UInt32} (h : r ∈ blockRecords m fs block fuel offset) : r.2 ≠ 0 := by
  induction fuel generalizing offset with
  | zero => exact absurd h (by simp [blockRecords])
  | succ fuel ih =>
      rw [blockRecords] at h
      split at h
      · rcases List.mem_append.mp h with hhere | hrest
        · split at hhere
          · rename_i hlive
            rw [List.mem_singleton.mp hhere]
            exact hlive
          · exact absurd hhere (by simp)
        · split at hrest
          · exact absurd hrest (by simp)
          · exact ih hrest
      · exact absurd h (by simp)

/-- The inode number of a record is not 0. -/
theorem dirRecords_live {m : Mem} {fs : Ext2Fs} {dir : Inode} {r : List UInt8 × UInt32}
    (h : r ∈ dirRecords m fs dir) : r.2 ≠ 0 := by
  suffices hblocks : ∀ fuel b, r ∈ blocksRecords m fs dir (dir.iBlocks / (fs.blockSize / 512)) fuel b →
      r.2 ≠ 0 from hblocks 12 0 h
  intro fuel
  induction fuel with
  | zero => exact fun b h => absurd h (by simp [blocksRecords])
  | succ fuel ih =>
      intro b h
      rw [blocksRecords] at h
      split at h
      · rcases List.mem_append.mp h with hhere | hrest
        · split at hhere
          · exact absurd hhere (by simp)
          · exact blockRecords_live hhere
        · exact ih (b + 1) hrest
      · exact absurd h (by simp)

end Drupe
