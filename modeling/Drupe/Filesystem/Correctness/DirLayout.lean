import Mathlib.Data.List.TakeWhile
import Drupe.Filesystem.Correctness.ReadDir

/-!
# `Filesystem.Correctness.DirLayout` — directories as lists of records

`DirLaid` is a directory whose blocks are lists of records, each block filled exactly. The walk of
`ext2ReadDir` comes to the live ones of them, in order (`DirLaid.dirRecords_eq`): no record is skipped or met
twice at the boundary of a record or of a block.
-/

namespace Drupe

/-- A record of a directory: the fields of `ext2_dir_entry_t`, and the name as its `name_len` bytes. -/
structure DirRecord where
  inode : UInt32
  recLen : Nat
  name : List UInt8
  recLen_ge : 8 + name.length ≤ recLen
  name_noNul : 0 ∉ name

/-- Record `r` is at address `de`. Its padding and its file type may be anything. -/
structure DirRecord.At (m : Mem) (de : UInt32) (r : DirRecord) : Prop where
  inode_eq : m.read32 de = r.inode
  recLen_eq : (m.read16 (de + 4)).toNat = r.recLen
  nameLen_eq : (m (de + 6)).toNat = r.name.length
  name_eq : ∀ i, (h : i < r.name.length) → m (de + 8 + UInt32.ofNat i) = r.name[i]

/-- The records of a block of `size` bytes, from `offset` on: one after the other, up to the end. -/
def RecordsAt (m : Mem) (block : UInt32) (size : Nat) : (offset : Nat) → List DirRecord → Prop
  | offset, [] => offset = size
  | offset, r :: rs =>
    r.At m (block + UInt32.ofNat offset) ∧ RecordsAt m block size (offset + r.recLen) rs

/-- A directory whose blocks hold the records `blocks`, block by block. -/
structure DirLaid (m : Mem) (fs : Ext2Fs) (dir : Inode) (blocks : List (List DirRecord)) : Prop where
  direct : blocks.length ≤ 12
  iBlocks_eq : dir.iBlocks.toNat = blocks.length * (fs.blockSize.toNat / 512)
  used : ∀ b < blocks.length, dir.iBlock b ≠ 0
  unused : ∀ b, blocks.length ≤ b → b < 12 → dir.iBlock b = 0
  laid : ∀ b, (h : b < blocks.length) →
    RecordsAt m (fs.image + dir.iBlock b * fs.blockSize) fs.blockSize.toNat 0 blocks[b]

/-- A record, as the callback of a walk is shown it. -/
def DirRecord.shown (r : DirRecord) : List UInt8 × UInt32 := (r.name, r.inode)

/-- The live records of a list, as they are shown. -/
def liveRecords (rs : List DirRecord) : List (List UInt8 × UInt32) :=
  (rs.filter fun r => r.inode ≠ 0).map DirRecord.shown

theorem liveRecords_append (rs rs' : List DirRecord) :
    liveRecords (rs ++ rs') = liveRecords rs ++ liveRecords rs' := by
  unfold liveRecords
  rw [List.filter_append, List.map_append]

/-- A name without NULs is the string it is copied to. -/
theorem cString_eq_self {s : List UInt8} (h : 0 ∉ s) : cString s = s := by
  unfold cString
  rw [List.takeWhile_eq_self_iff]
  intro c hc
  have hne : c ≠ 0 := fun h0 => h (h0 ▸ hc)
  simpa using hne

section Block

variable {m : Mem} {fs : Ext2Fs} {block de : UInt32}

theorem DirRecord.At.direntName_eq {r : DirRecord} (h : r.At m de) : direntName m de = r.name := by
  have hbytes : (List.range (m (de + 6)).toNat).map (fun i => m (de + 8 + UInt32.ofNat i)) = r.name := by
    rw [h.nameLen_eq]
    apply List.ext_getElem
    · rw [List.length_map, List.length_range]
    · intro i _ hi
      rw [List.getElem_map, List.getElem_range]
      exact h.name_eq i hi
  unfold direntName
  rw [hbytes, cString_eq_self r.name_noNul]

/-- The records end where the block does, and there are no more of them than bytes. -/
theorem RecordsAt.length_le {size offset : Nat} {rs : List DirRecord}
    (h : RecordsAt m block size offset rs) : offset + rs.length ≤ size := by
  induction rs generalizing offset with
  | nil => exact Nat.le_of_eq h
  | cons r rs ih =>
      have hrest := ih h.2
      have hlen := r.recLen_ge
      rw [List.length_cons]
      omega

/-- **One block.** The walk comes to the live records of the block. -/
theorem RecordsAt.blockRecords_eq {offset : Nat} {rs : List DirRecord}
    (h : RecordsAt m block fs.blockSize.toNat offset rs) {fuel : Nat} (hfuel : rs.length ≤ fuel) :
    blockRecords m fs block fuel (UInt32.ofNat offset) = liveRecords rs := by
  have hsize := fs.blockSize.toNat_lt
  induction rs generalizing offset fuel with
  | nil =>
      obtain rfl : offset = fs.blockSize.toNat := h
      cases fuel with
      | zero => rfl
      | succ fuel =>
          rw [blockRecords, UInt32.ofNat_toNat, if_neg (UInt32.lt_irrefl _)]
          rfl
  | cons r rs ih =>
      obtain ⟨hr, hrest⟩ := h
      have hend := hrest.length_le
      have hlen := r.recLen_ge
      obtain ⟨fuel, rfl⟩ : ∃ k, fuel = k + 1 := ⟨fuel - 1, by rw [List.length_cons] at hfuel; omega⟩
      have hin : UInt32.ofNat offset < fs.blockSize := by
        rw [UInt32.lt_iff_toNat_lt, UInt32.toNat_ofNat']
        omega
      have hgoes : m.read16 (block + UInt32.ofNat offset + 4) ≠ 0 := by
        intro h0
        have hzero := hr.recLen_eq
        rw [h0] at hzero
        have : (0 : UInt32).toNat = 0 := rfl
        omega
      have hnext : UInt32.ofNat offset + m.read16 (block + UInt32.ofNat offset + 4)
          = UInt32.ofNat (offset + r.recLen) := by
        rw [UInt32.ofNat_add, ← hr.recLen_eq, UInt32.ofNat_toNat]
      rw [blockRecords, if_pos hin]
      simp only [if_neg hgoes, hnext, hr.inode_eq, hr.direntName_eq]
      rw [ih hrest (by rw [List.length_cons] at hfuel; omega)]
      unfold liveRecords
      by_cases hlive : r.inode = 0
      · rw [if_neg (not_not.mpr hlive), List.filter_cons_of_neg (by simpa using hlive)]
        rfl
      · rw [if_pos hlive, List.filter_cons_of_pos (by simpa using hlive)]
        rfl

end Block

section Blocks

variable {m : Mem} {fs : Ext2Fs} {dir : Inode} {blocks : List (List DirRecord)}

/-- `blk_count` -/
theorem DirLaid.blkCount_eq (h : DirLaid m fs dir blocks) (hsize : 512 ≤ fs.blockSize.toNat) :
    (dir.iBlocks / (fs.blockSize / 512)).toNat = blocks.length := by
  rw [UInt32.toNat_div, UInt32.toNat_div, h.iBlocks_eq]
  exact Nat.mul_div_cancel _ (Nat.div_pos hsize (by decide))

/-- The walk from block `b` on comes to the live records of the blocks from `b` on. -/
theorem DirLaid.blocksRecords_eq (h : DirLaid m fs dir blocks) (blkCount : UInt32)
    (hcount : blkCount.toNat = blocks.length) {fuel b : Nat} (hfuel : 12 ≤ b + fuel) :
    blocksRecords m fs dir blkCount fuel b = liveRecords (blocks.drop b).flatten := by
  have hdirect := h.direct
  induction fuel generalizing b with
  | zero =>
      rw [List.drop_eq_nil_of_le (by omega)]
      rfl
  | succ fuel ih =>
      rw [blocksRecords, hcount]
      by_cases hb : b < blocks.length
      · have hlen := (h.laid b hb).length_le
        have hblock := (h.laid b hb).blockRecords_eq
          (show blocks[b].length ≤ fs.blockSize.toNat by omega)
        rw [if_pos hb, if_neg (h.used b hb), ih (by omega), List.drop_eq_getElem_cons hb,
          List.flatten_cons, liveRecords_append]
        exact congrArg (· ++ _) hblock
      · rw [if_neg hb, List.drop_eq_nil_of_le (Nat.le_of_not_lt hb)]
        rfl

/-- **The records of a directory** are the live ones of its blocks, in order. -/
theorem DirLaid.dirRecords_eq (h : DirLaid m fs dir blocks) (hsize : 512 ≤ fs.blockSize.toNat) :
    dirRecords m fs dir = liveRecords blocks.flatten := by
  unfold dirRecords
  rw [h.blocksRecords_eq _ (h.blkCount_eq hsize) (by decide), List.drop_zero]

end Blocks

end Drupe
