import Mathlib.Tactic.Ring
import Mathlib.Order.Interval.Set.Disjoint
import Drupe.Filesystem.Correctness.ReadDir
import Drupe.Filesystem.Correctness.ReadFile
import Drupe.Memory.Correctness.Managed

/-!
# `Filesystem.Correctness.Mount` — the inodes of a mounted image

A mount copies the table of group descriptors out of the image into memory of the allocator. On a well-formed
image that memory is disjoint from what is copied, so the copy is the table (`ext2Mount_table`), and an inode
is found through it at the place the image gives it (`ext2ReadInode_mounted`): the division of an index by
the inodes of a block only splits a byte offset into blocks.
-/

namespace Drupe

open Lib

/-- A copy between ranges that do not meet transfers the source. -/
theorem kpmemcpy_transferred (m : Mem) {dst src size : UInt32}
    (hdisj : ∀ i < size.toNat, ∀ j < size.toNat, src + UInt32.ofNat i ≠ dst + UInt32.ofNat j) :
    Transferred m (kpmemcpy m dst src size) (fun i => dst + UInt32.ofNat i)
      (fun i => m (src + UInt32.ofNat i)) size.toNat := by
  have hsize := size.toNat_lt
  apply store_transferred
  · intro j k hj hk heq
    have := add_ofNat_inj (by omega) (by omega) heq
    omega
  · intro k hk hprev
    exact hprev.frame _ fun j hj => hdisj k hk j (by omega)

/-! ## What a mount does -/

/-- The superblock of an image. -/
def superblockOf (m : Mem) (image : UInt32) : Superblock := Superblock.read m (image + ext2SuperOffset)

/-- `groups`, as a mount computes it. -/
def Superblock.groupCount (sb : Superblock) : UInt32 :=
  (sb.sBlocksCount + sb.sBlocksPerGroup - 1) / sb.sBlocksPerGroup

/-- `gd_offset`, as a mount computes it. -/
def Superblock.gdOffset (sb : Superblock) : UInt32 :=
  (1024 <<< sb.sLogBlockSize) * (if (1024 <<< sb.sLogBlockSize : UInt32) = 1024 then 2 else 1)

/-- The bytes of the table, as a mount computes their number. -/
def Superblock.tableBytes (sb : Superblock) : UInt32 := sb.groupCount * groupDescSize

/-- The file system of an image whose table was copied to `bgdt`. -/
def mountedFs (m : Mem) (image bgdt : UInt32) : Ext2Fs where
  sb := superblockOf m image
  blockSize := 1024 <<< (superblockOf m image).sLogBlockSize
  bgdt := bgdt
  image := image

/-- **All a mount can do.** -/
theorem ext2Mount_cases (m : Mem) (s : PhysMem) (image : UInt32) :
    ext2Mount m s image =
      if (superblockOf m image).sMagic ≠ ext2SuperMagic then .ok (m, s, none)
      else if (superblockOf m image).sBlocksPerGroup = 0 then .error .divideError
      else (kpmalloc s (superblockOf m image).tableBytes).map fun r =>
        if r.2 = 0 then (m, r.1, none)
        else (kpmemcpy m r.2 (image + (superblockOf m image).gdOffset) (superblockOf m image).tableBytes, r.1,
          some (mountedFs m image r.2)) := by
  unfold ext2Mount mountedFs superblockOf
  generalize Superblock.read m (image + ext2SuperOffset) = sb
  by_cases hmagic : sb.sMagic ≠ ext2SuperMagic
  · rw [if_pos hmagic, if_pos hmagic]
    rfl
  by_cases hgroups : sb.sBlocksPerGroup = 0
  · simp only [if_neg hmagic, if_pos hgroups]
    rfl
  simp only [if_neg hmagic, if_neg hgroups]
  show kpmalloc s sb.tableBytes >>= _ = _
  rcases kpmalloc s sb.tableBytes with e | ⟨s₁, bgdt⟩
  · rfl
  · by_cases hnull : bgdt = 0
    · rw [ok_bind, Except.map]
      simp only [if_pos hnull]
      rfl
    · rw [ok_bind, Except.map]
      simp only [if_neg hnull]
      rfl

/-- **A mount that succeeds** has found the magic number and memory for the table, and copied the table. -/
theorem ext2Mount_eq_some {m m' : Mem} {s s' : PhysMem} {image : UInt32} {fs : Ext2Fs}
    (h : ext2Mount m s image = .ok (m', s', some fs)) :
    fs.sb = superblockOf m image ∧ fs.blockSize = 1024 <<< (superblockOf m image).sLogBlockSize ∧
    fs.image = image ∧ fs.bgdt ≠ 0 ∧
    kpmalloc s (superblockOf m image).tableBytes = .ok (s', fs.bgdt) ∧
    m' = kpmemcpy m fs.bgdt (image + (superblockOf m image).gdOffset)
      (superblockOf m image).tableBytes := by
  rw [ext2Mount_cases] at h
  by_cases hmagic : (superblockOf m image).sMagic ≠ ext2SuperMagic
  · rw [if_pos hmagic] at h
    cases h
  by_cases hgroups : (superblockOf m image).sBlocksPerGroup = 0
  · rw [if_neg hmagic, if_pos hgroups] at h
    cases h
  rw [if_neg hmagic, if_neg hgroups] at h
  obtain ⟨⟨s₁, bgdt⟩, halloc, hrest⟩ := map_eq_ok.mp h
  by_cases hnull : bgdt = 0
  · simp only [if_pos hnull] at hrest
    cases hrest
  simp only [if_neg hnull] at hrest
  cases hrest
  exact ⟨rfl, rfl, rfl, hnull, halloc, rfl⟩

/-! ## Well-formed images -/

/-- The block size a superblock gives. -/
def Superblock.blockBytes (sb : Superblock) : Nat := 1024 * 2 ^ sb.sLogBlockSize.toNat

/-- The number of block groups, the last one perhaps not full. -/
def Superblock.groups (sb : Superblock) : Nat :=
  (sb.sBlocksCount.toNat + sb.sBlocksPerGroup.toNat - 1) / sb.sBlocksPerGroup.toNat

/-- Where the table of group descriptors is: at block 2 for blocks of 1 KiB, at block 1 otherwise. -/
def Superblock.tableOffset (sb : Superblock) : Nat :=
  if sb.blockBytes = 1024 then 2 * sb.blockBytes else 1 * sb.blockBytes

/-- `bg_inode_table` of descriptor `g`, on disk. -/
def inodeTable (m : Mem) (image : UInt32) (g : Nat) : UInt32 :=
  m.read32 (image + UInt32.ofNat ((superblockOf m image).tableOffset + g * 32 + 8))

/-- Where inode `n` is in the image. -/
def inodeOffset (m : Mem) (image : UInt32) (n : Nat) : Nat :=
  let sb := superblockOf m image
  (inodeTable m image ((n - 1) / sb.sInodesPerGroup.toNat)).toNat * sb.blockBytes
    + (n - 1) % sb.sInodesPerGroup.toNat * inodeSize

/-- An image of `len` bytes with a well-formed superblock, and its tables inside the image. -/
structure ImageWellFormed (m : Mem) (image : UInt32) (len : Nat) : Prop where
  magic : (superblockOf m image).sMagic = ext2SuperMagic
  logBlockSize_le : (superblockOf m image).sLogBlockSize.toNat ≤ 6
  blocksPerGroup_pos : 0 < (superblockOf m image).sBlocksPerGroup.toNat
  inodesPerGroup_pos : 0 < (superblockOf m image).sInodesPerGroup.toNat
  blocks_round : (superblockOf m image).sBlocksCount.toNat
    + (superblockOf m image).sBlocksPerGroup.toNat - 1 < 2 ^ 32
  blocks_fit : (superblockOf m image).sBlocksCount.toNat * (superblockOf m image).blockBytes < 2 ^ 32
  inodes_le : (superblockOf m image).sInodesCount.toNat
    ≤ (superblockOf m image).groups * (superblockOf m image).sInodesPerGroup.toNat
  descriptors_inside : (superblockOf m image).tableOffset + (superblockOf m image).groups * 32 ≤ len
  tables_inside : ∀ g < (superblockOf m image).groups,
    (inodeTable m image g).toNat * (superblockOf m image).blockBytes
      + (superblockOf m image).sInodesPerGroup.toNat * inodeSize ≤ len

/-- The inode tables of two groups do not overlap on disk. -/
def TablesDisjoint (m : Mem) (image : UInt32) : Prop :=
  let sb := superblockOf m image
  let table := fun g => Set.Ico ((inodeTable m image g).toNat * sb.blockBytes)
    ((inodeTable m image g).toNat * sb.blockBytes + sb.sInodesPerGroup.toNat * inodeSize)
  ∀ g < sb.groups, ∀ g' < sb.groups, g ≠ g' → Disjoint (table g) (table g')

/-- The memory the allocator manages does not meet the image. -/
def PhysMem.Apart (s : PhysMem) (image : UInt32) (len : Nat) : Prop :=
  ∀ o < len, ¬ s.Managed (image + UInt32.ofNat o)

section Arithmetic

variable {sb : Superblock}

/-- The shift does not lose bits. -/
theorem blockSize_toNat (h : sb.sLogBlockSize.toNat ≤ 21) :
    (1024 <<< sb.sLogBlockSize : UInt32).toNat = sb.blockBytes := by
  have hall : ∀ k : Fin 22, (1024 <<< UInt32.ofNat k.val : UInt32).toNat = 1024 * 2 ^ k.val := by decide
  have hk := hall ⟨sb.sLogBlockSize.toNat, by omega⟩
  simp only [UInt32.ofNat_toNat] at hk
  exact hk

theorem blockBytes_bounds (h : sb.sLogBlockSize.toNat ≤ 21) :
    1024 ≤ sb.blockBytes ∧ sb.blockBytes ≤ 2 ^ 31 ∧ 128 ∣ sb.blockBytes := by
  unfold Superblock.blockBytes
  refine ⟨Nat.le_mul_of_pos_right _ (Nat.two_pow_pos _), ?_, Dvd.dvd.mul_right (by decide) _⟩
  calc 1024 * 2 ^ sb.sLogBlockSize.toNat ≤ 1024 * 2 ^ 21 :=
        Nat.mul_le_mul_left _ (Nat.pow_le_pow_right (by decide) h)
    _ = 2 ^ 31 := by decide

theorem gdOffset_toNat (h : sb.sLogBlockSize.toNat ≤ 21) : sb.gdOffset.toNat = sb.tableOffset := by
  obtain ⟨-, hle, -⟩ := blockBytes_bounds h
  have hsize := blockSize_toNat h
  have hiff : (1024 <<< sb.sLogBlockSize : UInt32) = 1024 ↔ sb.blockBytes = 1024 := by
    rw [← hsize, ← UInt32.toNat_inj]
    rfl
  unfold Superblock.gdOffset Superblock.tableOffset
  by_cases hone : sb.blockBytes = 1024
  · rw [if_pos (hiff.mpr hone), if_pos hone, UInt32.toNat_mul, hsize]
    show sb.blockBytes * 2 % 4294967296 = _
    omega
  · rw [if_neg (fun hc => hone (hiff.mp hc)), if_neg hone, UInt32.toNat_mul, hsize]
    show sb.blockBytes * 1 % 4294967296 = _
    omega

/-- There are no more groups than blocks. -/
theorem groups_le (h : 0 < sb.sBlocksPerGroup.toNat) : sb.groups ≤ sb.sBlocksCount.toNat := by
  unfold Superblock.groups
  rcases Nat.eq_zero_or_pos sb.sBlocksCount.toNat with hzero | hpos
  · rw [hzero, Nat.div_eq_of_lt (by omega)]
  · apply Nat.div_le_of_le_mul
    obtain ⟨b, hb⟩ : ∃ b, sb.sBlocksCount.toNat = b + 1 := ⟨sb.sBlocksCount.toNat - 1, by omega⟩
    have hmul := Nat.le_mul_of_pos_left b h
    rw [hb, Nat.mul_add, Nat.mul_one]
    omega

theorem groupCount_toNat (hround : sb.sBlocksCount.toNat + sb.sBlocksPerGroup.toNat - 1 < 2 ^ 32)
    (hpos : 0 < sb.sBlocksPerGroup.toNat) : sb.groupCount.toNat = sb.groups := by
  have hone : (1 : UInt32).toNat = 1 := rfl
  have hlt := sb.sBlocksCount.toNat_lt
  unfold Superblock.groupCount Superblock.groups
  rw [UInt32.toNat_div, UInt32.toNat_sub, UInt32.toNat_add, hone]
  congr 1
  omega

/-- The division by the inodes of a block splits the offset of an inode into blocks and the rest. -/
theorem split_offset {bs : Nat} (hdvd : 128 ∣ bs) (table index : Nat) :
    (table + index / (bs / 128)) * bs + index % (bs / 128) * 128 = table * bs + index * 128 := by
  obtain ⟨c, rfl⟩ := hdvd
  rw [Nat.mul_div_cancel_left c (by decide : 0 < 128)]
  have hdiv := Nat.div_add_mod index c
  calc (table + index / c) * (128 * c) + index % c * 128
      = table * (128 * c) + (c * (index / c) + index % c) * 128 := by ring
    _ = table * (128 * c) + index * 128 := by rw [hdiv]

end Arithmetic

/-! ## The table and the inodes -/

/-- Memory that `kpmalloc` answers with is managed. -/
theorem kpmalloc_managed {s s' : PhysMem} {size p : UInt32} (h : kpmalloc s size = .ok (s', p))
    (hp : p ≠ 0) : ∀ d < size.toNat, s.Managed (p + UInt32.ofNat d) := by
  obtain ⟨n, hn, halloc⟩ := kpmalloc_eq_ok h
  obtain ⟨-, hbig, -⟩ := kpmallocSectors_eq_ok (by decide) hn
  intro d hd
  rcases memPhysAllocSectors_cases halloc with ⟨-, -, hzero⟩ | ⟨-, i, hfit, -, -, -, rfl⟩ |
    ⟨-, -, -, -, hzero⟩
  · exact absurd hzero hp
  · exact managed_of_run hfit (by omega)
  · exact absurd hzero hp

section Mounted

variable {m m' : Mem} {s s' : PhysMem} {image : UInt32} {len : Nat} {fs : Ext2Fs}

theorem ImageWellFormed.shift_le (h : ImageWellFormed m image len) :
    (superblockOf m image).sLogBlockSize.toNat ≤ 21 := Nat.le_trans h.logBlockSize_le (by decide)

/-- The bytes of the table, as a mount computes their number. -/
theorem ImageWellFormed.tableBytes (h : ImageWellFormed m image len) :
    (superblockOf m image).tableBytes.toNat = (superblockOf m image).groups * 32 := by
  have hblocks := h.blocks_fit
  have hgroups := groups_le h.blocksPerGroup_pos
  obtain ⟨hbs, -⟩ := blockBytes_bounds h.shift_le
  have hsmall := Nat.mul_le_mul_left (superblockOf m image).sBlocksCount.toNat hbs
  rw [Superblock.tableBytes, UInt32.toNat_mul, groupCount_toNat h.blocks_round h.blocksPerGroup_pos]
  show _ * 32 % 4294967296 = _
  omega

/-- **The mounted table.** A mount leaves the image as it is, and its copy of the table holds what the
    table on disk does. -/
theorem ext2Mount_table (h : ImageWellFormed m image len) (hapart : s.Apart image len)
    (hmount : ext2Mount m s image = .ok (m', s', some fs)) :
    (∀ o < len, m' (image + UInt32.ofNat o) = m (image + UInt32.ofNat o)) ∧
    ∀ g < (superblockOf m image).groups,
      m'.read32 (fs.bgdt + UInt32.ofNat (g * 32) + 8) = inodeTable m image g := by
  obtain ⟨-, -, -, hnull, halloc, rfl⟩ := ext2Mount_eq_some hmount
  have hbytes := h.tableBytes
  have hinside := h.descriptors_inside
  have hmanaged := kpmalloc_managed halloc hnull
  have hgd : ∀ i, image + (superblockOf m image).gdOffset + UInt32.ofNat i
      = image + UInt32.ofNat ((superblockOf m image).tableOffset + i) := by
    intro i
    rw [← gdOffset_toNat h.shift_le, ← add_ofNat_add, UInt32.ofNat_toNat]
  have hcopy := @kpmemcpy_transferred m fs.bgdt (image + (superblockOf m image).gdOffset)
    (superblockOf m image).tableBytes (by
      intro i hi j hj heq
      have hsrc := hapart ((superblockOf m image).tableOffset + i) (by omega)
      rw [← hgd, heq] at hsrc
      exact hsrc (hmanaged j hj))
  refine ⟨?_, ?_⟩
  · intro o ho
    apply hcopy.frame
    intro j hj heq
    refine hapart o ho ?_
    rw [heq]
    exact hmanaged j hj
  · intro g hg
    apply Mem.read32_congr
    intro i hi
    have hwritten := hcopy.written (g * 32 + (8 + i)) (by omega)
    have h8 : (8 : UInt32) = UInt32.ofNat 8 := rfl
    rw [h8, add_ofNat_add, add_ofNat_add, hwritten, hgd, add_ofNat_add]
    congr 3
    omega

/-- Inode `n` lies inside the table of its group, and the table inside the image. -/
theorem ImageWellFormed.inode_place (h : ImageWellFormed m image len) {n : Nat} (hpos : 1 ≤ n)
    (hle : n ≤ (superblockOf m image).sInodesCount.toNat) :
    (n - 1) / (superblockOf m image).sInodesPerGroup.toNat < (superblockOf m image).groups ∧
    (n - 1) % (superblockOf m image).sInodesPerGroup.toNat * inodeSize + inodeSize
      ≤ (superblockOf m image).sInodesPerGroup.toNat * inodeSize ∧
    inodeOffset m image n + inodeSize ≤ len := by
  have hcount := h.inodes_le
  have hgroup : (n - 1) / (superblockOf m image).sInodesPerGroup.toNat
      < (superblockOf m image).groups := by
    rw [Nat.div_lt_iff_lt_mul h.inodesPerGroup_pos]
    omega
  have hindex := Nat.mod_lt (n - 1) h.inodesPerGroup_pos
  have hrow := Nat.mul_le_mul_right inodeSize (Nat.succ_le_of_lt hindex)
  have htable := h.tables_inside _ hgroup
  rw [Nat.succ_mul] at hrow
  refine ⟨hgroup, hrow, ?_⟩
  unfold inodeOffset
  simp only
  omega

/-- An inode is read where the image has it. -/
theorem inodeAddr_mounted (h : ImageWellFormed m image len) (hapart : s.Apart image len)
    (hmount : ext2Mount m s image = .ok (m', s', some fs)) {n : UInt32} (hpos : 1 ≤ n.toNat)
    (hle : n.toNat ≤ (superblockOf m image).sInodesCount.toNat) :
    fs.inodeAddr m' n = image + UInt32.ofNat (inodeOffset m image n.toNat) := by
  obtain ⟨hsb, hbs, himage, -⟩ := ext2Mount_eq_some hmount
  obtain ⟨-, htable⟩ := ext2Mount_table h hapart hmount
  have hgroup := (h.inode_place hpos hle).1
  have hpred : (n - 1).toNat = n.toNat - 1 :=
    UInt32.toNat_sub_of_le _ _ (UInt32.le_iff_toNat_le.mpr hpos)
  have hsize : fs.blockSize.toNat = (superblockOf m image).blockBytes := by
    rw [hbs]
    exact blockSize_toNat h.shift_le
  have hdesc : fs.bgdt + (n - 1) / fs.sb.sInodesPerGroup * groupDescSize + 8
      = fs.bgdt + UInt32.ofNat ((n.toNat - 1) / (superblockOf m image).sInodesPerGroup.toNat * 32) + 8 := by
    rw [UInt32.ofNat_mul, ← hpred, ← UInt32.toNat_div, UInt32.ofNat_toNat, hsb]
    rfl
  unfold Ext2Fs.inodeAddr inodeOffset
  simp only [hdesc, htable _ hgroup, himage]
  congr 1
  -- the words are the numbers they stand for
  have hword : ∀ t q b r : UInt32, (t + q) * b + r * UInt32.ofNat inodeSize
      = UInt32.ofNat ((t.toNat + q.toNat) * b.toNat + r.toNat * 128) := by
    intro t q b r
    simp only [UInt32.ofNat_add, UInt32.ofNat_mul, UInt32.ofNat_toNat]
  have h128 : (UInt32.ofNat inodeSize).toNat = 128 := rfl
  rw [hword]
  congr 1
  simp only [UInt32.toNat_div, UInt32.toNat_mod, h128, hsize, hpred, hsb]
  exact split_offset (blockBytes_bounds h.shift_le).2.2 _ _

/-- Memories with the same 128 bytes at `a` hold the same inode there. -/
theorem Inode.read_congr {a : UInt32} (h : ∀ i < inodeSize, m' (a + UInt32.ofNat i) = m (a + UInt32.ofNat i)) :
    Inode.read m' a = Inode.read m a := by
  unfold Inode.read
  congr 1
  funext i
  exact h i.val i.isLt

/-- The ranges of two inodes do not meet when the tables of the groups do not. -/
theorem inodes_disjoint (h : ImageWellFormed m image len) (hdisj : TablesDisjoint m image) {n n' : Nat}
    (hpos : 1 ≤ n) (hle : n ≤ (superblockOf m image).sInodesCount.toNat) (hpos' : 1 ≤ n')
    (hle' : n' ≤ (superblockOf m image).sInodesCount.toNat) (hne : n ≠ n') :
    Disjoint (Set.Ico (inodeOffset m image n) (inodeOffset m image n + inodeSize))
      (Set.Ico (inodeOffset m image n') (inodeOffset m image n' + inodeSize)) := by
  obtain ⟨hgroup, hrow, -⟩ := h.inode_place hpos hle
  obtain ⟨hgroup', hrow', -⟩ := h.inode_place hpos' hle'
  unfold inodeOffset
  simp only
  by_cases hsame : (n - 1) / (superblockOf m image).sInodesPerGroup.toNat
      = (n' - 1) / (superblockOf m image).sInodesPerGroup.toNat
  -- one table: different rows of it
  · have hsplit := Nat.div_add_mod (n - 1) (superblockOf m image).sInodesPerGroup.toNat
    have hsplit' := Nat.div_add_mod (n' - 1) (superblockOf m image).sInodesPerGroup.toNat
    rw [hsame] at hsplit ⊢
    rw [Set.Ico_disjoint_Ico]
    unfold inodeSize at *
    omega
  -- two tables
  · have htables := hdisj _ hgroup _ hgroup' hsame
    refine htables.mono (Set.Ico_subset_Ico ?_ ?_) (Set.Ico_subset_Ico ?_ ?_) <;> omega

/-- **An inode number names its 128 bytes of the image.** For every well-formed image apart from the
    allocator's memory, once it is mounted: every inode number up to the count of the superblock is read,
    as the 128 bytes of the image at its row of the table that its group's descriptor names; these bytes
    are in the image; and when the tables do not overlap, no two inode numbers share a byte. -/
theorem ext2ReadInode_mounted (h : ImageWellFormed m image len) (hapart : s.Apart image len)
    (hmount : ext2Mount m s image = .ok (m', s', some fs)) :
    (∀ n : UInt32, 1 ≤ n.toNat → n.toNat ≤ (superblockOf m image).sInodesCount.toNat →
      ext2ReadInode m' fs n
        = .ok (some (Inode.read m (image + UInt32.ofNat (inodeOffset m image n.toNat)))) ∧
      inodeOffset m image n.toNat + inodeSize ≤ len) ∧
    (TablesDisjoint m image → ∀ n n' : UInt32,
      1 ≤ n.toNat → n.toNat ≤ (superblockOf m image).sInodesCount.toNat →
      1 ≤ n'.toNat → n'.toNat ≤ (superblockOf m image).sInodesCount.toNat → n ≠ n' →
      Disjoint (Set.Ico (inodeOffset m image n.toNat) (inodeOffset m image n.toNat + inodeSize))
        (Set.Ico (inodeOffset m image n'.toNat) (inodeOffset m image n'.toNat + inodeSize))) := by
  obtain ⟨hsb, hbs, -⟩ := ext2Mount_eq_some hmount
  obtain ⟨hkept, -⟩ := ext2Mount_table h hapart hmount
  have hdivisible : fs.Divisible := by
    refine ⟨?_, ?_⟩
    · intro hzero
      have hpos := h.inodesPerGroup_pos
      rw [← hsb, hzero] at hpos
      exact absurd hpos (by decide)
    · have hge := (blockBytes_bounds h.shift_le).1
      rw [Ne, ← UInt32.toNat_inj, UInt32.toNat_div, hbs, blockSize_toNat h.shift_le]
      show ¬ (superblockOf m image).blockBytes / 512 = 0
      omega
  refine ⟨?_, ?_⟩
  · intro n hpos hle
    have hplace := (h.inode_place hpos hle).2.2
    have hne : n ≠ 0 := by
      rintro rfl
      exact absurd hpos (by decide)
    refine ⟨?_, hplace⟩
    rw [ext2ReadInode_eq hdivisible m' hne, inodeAddr_mounted h hapart hmount hpos hle, Inode.read_congr]
    intro i hi
    rw [add_ofNat_add]
    exact hkept _ (by omega)
  · intro hdisj n n' hpos hle hpos' hle' hne
    exact inodes_disjoint h hdisj hpos hle hpos' hle' fun heq => hne (UInt32.toNat_inj.mp heq)

end Mounted

/-! ## An image without a file -/

/-- An image at 2 MiB with the superblock of `smallFs` and no file. -/
def noProgramMem : Mem := fun a =>
  (([(0x200400, 16), (0x200404, 16), (0x200421, 0x20), (0x200428, 16), (0x200438, 0x53), (0x200439, 0xEF),
    (0x200808, 5)] : List (UInt32 × UInt8)).lookup a).getD 0

/-- The group descriptor goes to the first sector. -/
theorem noProgram_kpmalloc : ∃ s, kpmalloc (memPhysInit 0x100000 0x100000) 32 = .ok (s, 0x100000) := by
  have hsectors : kpmallocSectors 32 (524287 + 1) 1 = .ok 1 := by
    rw [kpmallocSectors, if_neg (by decide)]
  have hcap : (memPhysInit 0x100000 0x100000).memPhysSectors.toNat ≤ pmmSectors := by
    rw [memPhysInit_sectors]
    decide
  have hfit : 0 + (1 : UInt32).toNat ≤ (memPhysInit 0x100000 0x100000).memPhysSectors.toNat := by
    rw [memPhysInit_sectors]
    decide
  have hrun : (memPhysInit 0x100000 0x100000).FreeRun 0 (1 : UInt32).toNat := by
    intro t ht
    have hone : (1 : UInt32).toNat = 1 := rfl
    exact memPhysInit_isFree (by unfold pmmSectors; omega)
  unfold kpmalloc
  rw [hsectors, ok_bind, memPhysAllocSectors_first hcap (by decide) hfit hrun fun j hj => absurd hj (by omega)]
  exact ⟨_, rfl⟩

/-- A mount with the superblock of `smallFs`: the group descriptor is copied to the first sector. -/
theorem ext2Mount_smallFs {m : Mem} (hsb : Superblock.read m (0x200000 + ext2SuperOffset) = smallFs.sb) :
    ∃ s, ext2Mount m (memPhysInit 0x100000 0x100000) 0x200000
      = .ok (kpmemcpy m 0x100000 0x200800 32, s, some smallFs) := by
  have hsize : (smallFs.sb.sBlocksCount + smallFs.sb.sBlocksPerGroup - 1) / smallFs.sb.sBlocksPerGroup
      * groupDescSize = 32 := by decide
  obtain ⟨s, halloc⟩ := noProgram_kpmalloc
  refine ⟨s, ?_⟩
  unfold ext2Mount
  rw [hsb]
  simp only [hsize, halloc, ok_bind]
  rfl

/-- The memory after the mount. -/
def noProgramMounted : Mem := kpmemcpy noProgramMem 0x100000 0x200800 32

theorem noProgram_mount :
    ∃ s, ext2Mount noProgramMem (memPhysInit 0x100000 0x100000) 0x200000
      = .ok (noProgramMounted, s, some smallFs) :=
  ext2Mount_smallFs (by decide +kernel)

theorem noProgram_superblock : superblockOf noProgramMem 0x200000 = smallFs.sb := by
  decide +kernel

/-- Its 16 blocks, with the table of inodes at block 5. -/
theorem noProgram_wellFormed : ImageWellFormed noProgramMem 0x200000 0x4000 where
  magic := by rw [noProgram_superblock]; rfl
  logBlockSize_le := by rw [noProgram_superblock]; decide
  blocksPerGroup_pos := by rw [noProgram_superblock]; decide
  inodesPerGroup_pos := by rw [noProgram_superblock]; decide
  blocks_round := by rw [noProgram_superblock]; decide
  blocks_fit := by rw [noProgram_superblock]; decide
  inodes_le := by rw [noProgram_superblock]; decide
  descriptors_inside := by rw [noProgram_superblock]; decide
  tables_inside := by
    rw [noProgram_superblock]
    decide +kernel

/-- The second MiB does not meet it. -/
theorem noProgram_apart : (memPhysInit 0x100000 0x100000).Apart 0x200000 0x4000 := by
  intro o ho hmanaged
  rw [PhysMem.managed_iff (by decide)] at hmanaged
  have haddr : (0x200000 + UInt32.ofNat o).toNat = 0x200000 + o := toNat_add_ofNat (by
    show 0x200000 + o < 4294967296
    omega)
  have hend : (memPhysInit 0x100000 0x100000).memPhysStart.toNat
      + (memPhysInit 0x100000 0x100000).memPhysSectors.toNat * pmmSectorSize = 0x200000 := by decide
  omega

theorem ext2ReadInode_mounted_root : ∃ m' s' fs,
    ext2Mount noProgramMem (memPhysInit 0x100000 0x100000) 0x200000 = .ok (m', s', some fs) ∧
    ext2ReadInode m' fs ext2RootIno = .ok (some (Inode.read noProgramMem 0x201480)) := by
  obtain ⟨s', hmount⟩ := noProgram_mount
  have hread := (ext2ReadInode_mounted noProgram_wellFormed noProgram_apart hmount).1 ext2RootIno
    (by decide) (by rw [noProgram_superblock]; decide)
  have hoffset : inodeOffset noProgramMem 0x200000 ext2RootIno.toNat = 0x1480 := by decide +kernel
  rw [hoffset] at hread
  exact ⟨_, s', smallFs, hmount, hread.1⟩

end Drupe
