import Drupe.Filesystem.Correctness.DirLayout
import Drupe.Filesystem.Correctness.ReadFile

/-!
# `Filesystem.Correctness.DirHoles` — directories with holes

`ext2ReadDir` takes the number of blocks of a directory from `i_blocks`, which counts those that are
allocated, and uses it as a bound of the positions it looks at, holes among them. Where the allocated
blocks are not the first ones, the last of them lie past that bound: `DirSparse.dirRecords_eq` says which
are walked through, and `ext2ReadDir_holes_iff` when that is enough.
-/

namespace Drupe

open Lib

/-- The direct pointers that are not holes, in order. -/
def Inode.allocated (dir : Inode) : List Nat := (List.range 12).filter fun b => dir.iBlock b ≠ 0

/-- A directory with holes: the block at pointer `b`, where there is one, holds the records `blocks b`. -/
structure DirSparse (m : Mem) (fs : Ext2Fs) (dir : Inode) (blocks : Nat → List DirRecord) : Prop where
  iBlocks_eq : dir.iBlocks.toNat = fs.blockSize.toNat / 512 * dir.allocated.length
  laid : ∀ b ∈ dir.allocated, RecordsAt m (fs.image + dir.iBlock b * fs.blockSize) fs.blockSize.toNat 0 (blocks b)

/-- A callback that always answers `true`. -/
def DirentCb.always {σ : Type} (f : σ → List UInt8 → UInt32 → σ) : DirentCb σ :=
  fun ctx name inode => .ok (f ctx name inode, true)

/-- The callback is called for the records `rs`, once for each and in order, and for nothing else. -/
def ShowsExactly (m : Mem) (fs : Ext2Fs) (dir : Inode) (rs : List (List UInt8 × UInt32)) : Prop :=
  ∀ (σ : Type) (f : σ → List UInt8 → UInt32 → σ) (ctx : σ),
    ext2ReadDir m fs dir (.always f) ctx = .ok (rs.foldl (fun ctx r => f ctx r.1 r.2) ctx)

theorem Inode.mem_allocated {dir : Inode} {b : Nat} : b ∈ dir.allocated ↔ b < 12 ∧ dir.iBlock b ≠ 0 := by
  rw [Inode.allocated, List.mem_filter, List.mem_range, decide_eq_true_iff]

theorem Inode.allocated_length_le (dir : Inode) : dir.allocated.length ≤ 12 := by
  have hle := List.length_filter_le (fun b => decide (dir.iBlock b ≠ 0)) (List.range 12)
  rw [List.length_range] at hle
  exact hle

/-- A walk shows exactly the records it comes to. -/
theorem showsExactly_iff {m : Mem} {fs : Ext2Fs} {dir : Inode} {rs : List (List UInt8 × UInt32)} :
    ShowsExactly m fs dir rs ↔ 512 ≤ fs.blockSize.toNat ∧ dirRecords m fs dir = rs := by
  have hzero : fs.blockSize / 512 = 0 ↔ ¬ 512 ≤ fs.blockSize.toNat := by
    rw [← UInt32.toNat_inj, UInt32.toNat_div]
    show fs.blockSize.toNat / 512 = 0 ↔ _
    omega
  by_cases hdiv : fs.blockSize / 512 = 0
  · refine iff_of_false (fun h => ?_) fun h => hzero.mp hdiv h.1
    have hwalk := h Unit (fun _ _ _ => ()) ()
    rw [ext2ReadDir_cases, if_pos hdiv] at hwalk
    cases hwalk
  have hwalk : ∀ (σ : Type) (f : σ → List UInt8 → UInt32 → σ) (ctx : σ), ext2ReadDir m fs dir (.always f) ctx
      = .ok ((dirRecords m fs dir).foldl (fun ctx r => f ctx r.1 r.2) ctx) := by
    intro σ f ctx
    rw [ext2ReadDir_cases, if_neg hdiv, readDirBlocks_eq]
    exact congrArg (Except.map Prod.fst) (visit_always (fun ctx r => f ctx r.1 r.2) (dirRecords m fs dir) ctx)
  constructor
  · intro h
    -- a callback that keeps a log of its calls
    have hlog := h _ (fun log name inode => (name, inode) :: log) []
    rw [hwalk, Except.ok.injEq, List.foldl_flip_cons_eq_append, List.foldl_flip_cons_eq_append] at hlog
    refine ⟨not_not.mp (hzero.not.mp hdiv), ?_⟩
    simpa using hlog
  · rintro ⟨-, rfl⟩
    exact hwalk

section Sparse

variable {m : Mem} {fs : Ext2Fs} {dir : Inode} {blocks : Nat → List DirRecord}

/-- `blk_count` -/
theorem DirSparse.blkCount_eq (h : DirSparse m fs dir blocks) (hsize : 512 ≤ fs.blockSize.toNat) :
    (dir.iBlocks / (fs.blockSize / 512)).toNat = dir.allocated.length := by
  rw [UInt32.toNat_div, UInt32.toNat_div, h.iBlocks_eq]
  exact Nat.mul_div_cancel_left _ (Nat.div_pos hsize (by decide))

/-- The walk from position `b` on comes to the allocated blocks before the bound. -/
theorem DirSparse.blocksRecords_eq (h : DirSparse m fs dir blocks) (blkCount : UInt32) {fuel b : Nat}
    (hdirect : blkCount.toNat ≤ 12) (hfuel : b + fuel = 12) :
    blocksRecords m fs dir blkCount fuel b
      = ((List.range' b (blkCount.toNat - b)).filter fun b => dir.iBlock b ≠ 0).flatMap
        fun b => liveRecords (blocks b) := by
  induction fuel generalizing b with
  | zero =>
      rw [Nat.sub_eq_zero_of_le (by omega)]
      rfl
  | succ fuel ih =>
      rw [blocksRecords]
      by_cases hb : b < blkCount.toNat
      · have hrange : blkCount.toNat - b = blkCount.toNat - (b + 1) + 1 := by omega
        rw [if_pos hb, ih (by omega), hrange, List.range'_succ]
        by_cases hhole : dir.iBlock b = 0
        · rw [if_pos hhole, List.filter_cons_of_neg (by simpa using hhole)]
          rfl
        · have hlaid := h.laid b (Inode.mem_allocated.mpr ⟨by omega, hhole⟩)
          have hlen := hlaid.length_le
          have hblock := hlaid.blockRecords_eq (show (blocks b).length ≤ fs.blockSize.toNat by omega)
          rw [if_neg hhole, List.filter_cons_of_pos (by simpa using hhole), List.flatMap_cons]
          exact congrArg (· ++ _) hblock
      · rw [if_neg hb, Nat.sub_eq_zero_of_le (Nat.le_of_not_lt hb)]
        rfl

/-- The allocated blocks are those before the bound that `i_blocks` gives, then those from there on. -/
theorem Inode.allocated_split (dir : Inode) :
    dir.allocated = ((List.range' 0 dir.allocated.length).filter fun b => dir.iBlock b ≠ 0)
      ++ (List.range' dir.allocated.length (12 - dir.allocated.length)).filter fun b => dir.iBlock b ≠ 0 := by
  have hle := dir.allocated_length_le
  have hrange := @List.range'_append_1 0 dir.allocated.length (12 - dir.allocated.length)
  rw [Nat.zero_add, Nat.add_sub_cancel' hle] at hrange
  rw [← List.filter_append, hrange, ← List.range_eq_range', Inode.allocated]

/-- **The records that are shown** are those of the allocated blocks before the bound. -/
theorem DirSparse.dirRecords_eq (h : DirSparse m fs dir blocks) (hsize : 512 ≤ fs.blockSize.toNat) :
    dirRecords m fs dir = ((List.range' 0 dir.allocated.length).filter fun b => dir.iBlock b ≠ 0).flatMap
      fun b => liveRecords (blocks b) := by
  have hcount := h.blkCount_eq hsize
  have hle := dir.allocated_length_le
  unfold dirRecords
  rw [h.blocksRecords_eq _ (by omega) (by decide), hcount]
  rfl

theorem liveRecords_eq_nil {rs : List DirRecord} : liveRecords rs = [] ↔ ∀ r ∈ rs, r.inode = 0 := by
  unfold liveRecords
  rw [List.map_eq_nil_iff, List.filter_eq_nil_iff]
  simp

/-- **When holes do not matter.** For every directory of allocated blocks and holes, with `i_blocks`
    counting the allocated blocks, the callback is called for the live records of all its blocks exactly
    when a block holds 512 bytes or more and no allocated block lies at a position past their number with
    a live record in it. -/
theorem ext2ReadDir_holes_iff (h : DirSparse m fs dir blocks) :
    ShowsExactly m fs dir (dir.allocated.flatMap fun b => liveRecords (blocks b)) ↔
      512 ≤ fs.blockSize.toNat ∧
      ∀ b ∈ dir.allocated, dir.allocated.length ≤ b → ∀ r ∈ blocks b, r.inode = 0 := by
  rw [showsExactly_iff]
  refine and_congr_right fun hsize => ?_
  have hle := dir.allocated_length_le
  have hsplit := congrArg (List.flatMap fun b => liveRecords (blocks b)) dir.allocated_split
  rw [List.flatMap_append] at hsplit
  rw [h.dirRecords_eq hsize, hsplit, List.self_eq_append_right, List.flatMap_eq_nil_iff]
  constructor
  · intro hnil b hb hpast
    obtain ⟨hlt, hused⟩ := Inode.mem_allocated.mp hb
    refine liveRecords_eq_nil.mp (hnil b (List.mem_filter.mpr ⟨?_, decide_eq_true hused⟩))
    rw [List.mem_range'_1]
    omega
  · intro hdead b hb
    obtain ⟨hrange, hused⟩ := List.mem_filter.mp hb
    rw [List.mem_range'_1] at hrange
    have hmem := Inode.mem_allocated.mpr ⟨show b < 12 by omega, of_decide_eq_true hused⟩
    exact liveRecords_eq_nil.mpr (hdead b hmem hrange.1)

end Sparse

/-- Block 5 of an image at 2 MiB is one record, of a file `b`. -/
def oneRecordMem : Mem := fun a =>
  (([(0x201400, 11), (0x201405, 4), (0x201406, 1), (0x201408, 98)] : List (UInt32 × UInt8)).lookup a).getD 0

def oneRecord : List DirRecord := [⟨11, 1024, [98], by decide, by decide⟩]

/-- The block as the first one of a directory. -/
def firstBlockDir : Inode := ((Vector.replicate inodeSize 0).setIfInBounds 28 2).setIfInBounds 40 5

/-- The block as the second one of a directory, after a hole. -/
def secondBlockDir : Inode := ((Vector.replicate inodeSize 0).setIfInBounds 28 2).setIfInBounds 44 5

theorem oneRecord_at : RecordsAt oneRecordMem 0x201400 1024 0 oneRecord :=
  ⟨⟨by decide +kernel, by decide +kernel, by decide +kernel, by decide +kernel⟩, rfl⟩

theorem firstBlockDir_allocated : firstBlockDir.allocated = [0] := by decide +kernel

theorem secondBlockDir_allocated : secondBlockDir.allocated = [1] := by decide +kernel

/-- A directory whose one block is that block. -/
theorem oneRecord_sparse {dir : Inode} {b : Nat} (hblocks : dir.iBlocks = 2) (hused : dir.allocated = [b])
    (hblock : dir.iBlock b = 5) : DirSparse oneRecordMem smallFs dir fun _ => oneRecord where
  iBlocks_eq := by rw [hblocks, hused]; rfl
  laid := by
    intro b' hb
    rw [hused, List.mem_singleton] at hb
    rw [hb, hblock]
    exact oneRecord_at

theorem ext2ReadDir_holes_iff_first :
    ShowsExactly oneRecordMem smallFs firstBlockDir [([98], 11)] := by
  have hsparse := oneRecord_sparse (by decide +kernel) firstBlockDir_allocated (by decide +kernel)
  have hshows := (ext2ReadDir_holes_iff hsparse).mpr ⟨by decide, fun b hb hpast => by
    rw [firstBlockDir_allocated] at hb hpast
    rw [List.mem_singleton] at hb
    subst hb
    exact absurd hpast (by decide)⟩
  rw [firstBlockDir_allocated] at hshows
  exact hshows

/-- The record after a hole is not shown. -/
theorem secondBlockDir_notShown :
    DirSparse oneRecordMem smallFs secondBlockDir (fun _ => oneRecord) ∧
    secondBlockDir.allocated.flatMap (fun _ => liveRecords oneRecord) = [([98], 11)] ∧
    ¬ ShowsExactly oneRecordMem smallFs secondBlockDir
      (secondBlockDir.allocated.flatMap fun _ => liveRecords oneRecord) := by
  have hlist : secondBlockDir.allocated.flatMap (fun _ => liveRecords oneRecord) = [([98], 11)] := by
    rw [secondBlockDir_allocated]
    rfl
  have hsparse := oneRecord_sparse (by decide +kernel) secondBlockDir_allocated (by decide +kernel)
  refine ⟨hsparse, hlist, fun hshows => ?_⟩
  have hrecords := (showsExactly_iff.mp hshows).2
  rw [hlist] at hrecords
  have hnone : dirRecords oneRecordMem smallFs secondBlockDir = [] := by decide +kernel
  rw [hnone] at hrecords
  cases hrecords

end Drupe
