import Drupe.Filesystem.Correctness.Kpmalloc
import Drupe.Filesystem.Correctness.Mount

/-!
# `Filesystem.Correctness.MountChecks` — what a mount and a read of an inode do not check

Four fields of the superblock go into a shift, a rounding sum, a division, a product and the loop of
`kpmalloc`. Of all of these `ext2Mount` checks the magic number before, and the null pointer after.
`Mountable` says what else has to hold for a mount to be sound, and `ext2Mount_soundly_iff` that it is
exactly that.

Sums and products are taken in 32 bits, so a table can come out too small, never too large
(`tableBytes_le`). A table whose size wrapped to 0 still gets a sector.

`ext2ReadInode` refuses inode 0 and no other. It looks at a descriptor of the table only when the group of
the inode, which comes from the inodes of a group, is one of the groups that were copied, whose number
comes from the blocks of a group (`ext2ReadInode_descriptor_iff`).
-/

namespace Drupe

open Lib

/-- **A sound mount**: the block size is that of the superblock, and the table of descriptors, which is as
    long as the groups need, lies in memory that was free and is now taken, and is a copy of the one on
    disk. -/
structure MountedSoundly (m m' : Mem) (s s' : PhysMem) (image : UInt32) (fs : Ext2Fs) : Prop where
  blockSize_eq : fs.blockSize.toNat = (superblockOf m image).blockBytes
  blockSize_ne : fs.blockSize ≠ 0
  table : ∃ n > 0, ∃ i ∈ s.runs n, fs.bgdt = sectorAddr s.memPhysStart i ∧ s.Takes s' i n ∧
    (superblockOf m image).groups * 32 ≤ n * pmmSectorSize
  copied : ∀ d < (superblockOf m image).groups * 32,
    m' (fs.bgdt + UInt32.ofNat d) = m (image + UInt32.ofNat ((superblockOf m image).tableOffset + d))

/-- A mount returns, and is sound when it succeeds. -/
def MountsSoundly (m : Mem) (s : PhysMem) (image : UInt32) : Prop :=
  ∃ m' s' mounted, ext2Mount m s image = .ok (m', s', mounted) ∧
    ∀ fs, mounted = some fs → MountedSoundly m m' s s' image fs

/-- The sectors that a mount asks for. -/
def Superblock.tableSectors (sb : Superblock) : UInt32 := UInt32.ofNat (sectorsFor sb.tableBytes.toNat)

/-- A table of `groups` descriptors at `bgdt`, of which a mount copies `tableBytes` bytes, becomes that on
    disk: no byte on disk is overwritten with another one before it is read, and what is not copied is
    there already. -/
structure Superblock.CopiesTo (sb : Superblock) (m : Mem) (image bgdt : UInt32) : Prop where
  undisturbed : ∀ k < sb.tableBytes.toNat, ∀ j < k,
    image + UInt32.ofNat (sb.tableOffset + k) = bgdt + UInt32.ofNat j →
    m (image + UInt32.ofNat (sb.tableOffset + j)) = m (image + UInt32.ofNat (sb.tableOffset + k))
  present : ∀ d < sb.groups * 32, sb.tableBytes.toNat ≤ d →
    m (bgdt + UInt32.ofNat d) = m (image + UInt32.ofNat (sb.tableOffset + d))

/-- **When a mount is sound.** The image is refused for its magic number; or its groups have a size,
    `kpmalloc` can count the sectors of the table and search for them, and if it answers with memory then
    the shift keeps the block size, the sectors hold the descriptors of all groups, and their copy is
    faithful. -/
def Mountable (m : Mem) (s : PhysMem) (image : UInt32) : Prop :=
  let sb := superblockOf m image
  sb.sMagic ≠ ext2SuperMagic ∨
  sb.sBlocksPerGroup ≠ 0 ∧ sb.tableBytes.toNat ≤ kpmallocMax ∧ ScanInside s sb.tableSectors ∧
  ∀ i, IsLeast (s.runs sb.tableSectors.toNat) i → sectorAddr s.memPhysStart i ≠ 0 →
    sb.sLogBlockSize.toNat ≤ 21 ∧ sb.groups * 32 ≤ sb.tableSectors.toNat * pmmSectorSize ∧
    sb.CopiesTo m image (sectorAddr s.memPhysStart i)

section Arithmetic

variable {sb : Superblock}

/-- The shift keeps the block size exactly when it is less than `2^32`. -/
theorem blockSize_toNat_iff :
    (1024 <<< sb.sLogBlockSize : UInt32).toNat = sb.blockBytes ↔ sb.sLogBlockSize.toNat ≤ 21 := by
  constructor
  · intro h
    by_contra hlarge
    have hlt := (1024 <<< sb.sLogBlockSize : UInt32).toNat_lt
    have hpow : 2 ^ 22 ≤ 2 ^ sb.sLogBlockSize.toNat := Nat.pow_le_pow_right (by decide) (by omega)
    rw [h, Superblock.blockBytes] at hlt
    omega
  · exact blockSize_toNat

theorem tableSectors_toNat (h : sb.tableBytes.toNat ≤ kpmallocMax) :
    sb.tableSectors.toNat = sectorsFor sb.tableBytes.toNat := by
  have hlt := sectorsFor_lt h
  rw [Superblock.tableSectors, UInt32.toNat_ofNat']
  omega

/-- A rounding sum that wraps gives fewer groups. -/
theorem groupCount_le (h : sb.sBlocksPerGroup ≠ 0) : sb.groupCount.toNat ≤ sb.groups := by
  have hpos : 0 < sb.sBlocksPerGroup.toNat := toNat_pos h
  have hone : (1 : UInt32).toNat = 1 := rfl
  have hlt := sb.sBlocksCount.toNat_lt
  have hlt' := sb.sBlocksPerGroup.toNat_lt
  unfold Superblock.groupCount Superblock.groups
  rw [UInt32.toNat_div, UInt32.toNat_sub, UInt32.toNat_add, hone]
  apply Nat.div_le_div_right
  omega

theorem tableBytes_le (h : sb.sBlocksPerGroup ≠ 0) : sb.tableBytes.toNat ≤ sb.groups * 32 := by
  have hcount := groupCount_le h
  have hmul : sb.tableBytes.toNat = sb.groupCount.toNat * 32 % 2 ^ 32 := UInt32.toNat_mul _ _
  have hmod := Nat.mod_le (sb.groupCount.toNat * 32) (2 ^ 32)
  omega

end Arithmetic

/-- A copy from `src` to `dst` ends with what was at `src` exactly when no byte of it is overwritten with
    another one before it is read. -/
theorem kpmemcpy_written_iff (m : Mem) (dst src size : UInt32) :
    (∀ d < size.toNat, kpmemcpy m dst src size (dst + UInt32.ofNat d) = m (src + UInt32.ofNat d)) ↔
      ∀ k < size.toNat, ∀ j < k, src + UInt32.ofNat k = dst + UInt32.ofNat j →
        m (src + UInt32.ofNat j) = m (src + UInt32.ofNat k) := by
  have hlt := size.toNat_lt
  have hiff := @store_transferred_iff _ _ _ (fun i => dst + UInt32.ofNat i) (0 : UInt8)
    (fun i => some (src + UInt32.ofNat i)) size.toNat m (by
      intro j k hjk hk heq
      have := add_ofNat_inj (by omega) (by omega) heq
      omega)
  constructor
  · intro h k hk j hj heq
    refine hiff.mp ⟨h, fun a ha => store_frame fun t ht => ?_⟩ k hk j hj (congrArg some heq)
    rw [Nat.zero_add]
    exact ha t ht
  · intro h
    exact (hiff.mpr fun k hk j hj heq => h k hk j hj (Option.some.inj heq)).written

/-- What a copy leaves in a table, of which only the first bytes are copied. -/
theorem copied_iff {sb : Superblock} (m : Mem) (image bgdt : UInt32) (hgroups : sb.sBlocksPerGroup ≠ 0)
    (hlog : sb.sLogBlockSize.toNat ≤ 21) (hfit : sb.groups * 32 < 2 ^ 32) :
    (∀ d < sb.groups * 32, kpmemcpy m bgdt (image + sb.gdOffset) sb.tableBytes (bgdt + UInt32.ofNat d)
      = m (image + UInt32.ofNat (sb.tableOffset + d))) ↔ sb.CopiesTo m image bgdt := by
  have hsrc : ∀ d, image + sb.gdOffset + UInt32.ofNat d = image + UInt32.ofNat (sb.tableOffset + d) := by
    intro d
    rw [← gdOffset_toNat hlog, ← add_ofNat_add, UInt32.ofNat_toNat]
  have hle := tableBytes_le hgroups
  have hwritten := kpmemcpy_written_iff m bgdt (image + sb.gdOffset) sb.tableBytes
  simp only [hsrc] at hwritten
  -- past the bytes that are copied the memory is as it was
  have hframe : ∀ d < sb.groups * 32, sb.tableBytes.toNat ≤ d →
      kpmemcpy m bgdt (image + sb.gdOffset) sb.tableBytes (bgdt + UInt32.ofNat d)
        = m (bgdt + UInt32.ofNat d) := by
    intro d hd hge
    refine store_frame fun t ht heq => ?_
    have := add_ofNat_inj (by omega) (by omega) heq
    omega
  constructor
  · intro h
    refine ⟨hwritten.mp fun d hd => h d (by omega), fun d hd hge => ?_⟩
    rw [← hframe d hd hge]
    exact h d hd
  · intro h d hd
    rcases Nat.lt_or_ge d sb.tableBytes.toNat with hlt | hge
    · exact hwritten.mpr h.undisturbed d hlt
    · rw [hframe d hd hge]
      exact h.present d hd hge

/-- A mount with memory at `i` for its table. -/
theorem mountedSoundly_iff {m : Mem} {s : PhysMem} {image : UInt32} {i : Nat}
    (hgroups : (superblockOf m image).sBlocksPerGroup ≠ 0)
    (hmax : (superblockOf m image).tableBytes.toNat ≤ kpmallocMax)
    (hi : i ∈ s.runs (superblockOf m image).tableSectors.toNat) :
    MountedSoundly m (kpmemcpy m (sectorAddr s.memPhysStart i) (image + (superblockOf m image).gdOffset)
        (superblockOf m image).tableBytes) s (s.clearRun i (superblockOf m image).tableSectors.toNat) image
        (mountedFs m image (sectorAddr s.memPhysStart i)) ↔
      (superblockOf m image).sLogBlockSize.toNat ≤ 21 ∧
      (superblockOf m image).groups * 32 ≤ (superblockOf m image).tableSectors.toNat * pmmSectorSize ∧
      (superblockOf m image).CopiesTo m image (sectorAddr s.memPhysStart i) := by
  have hsectors := tableSectors_toNat hmax
  have hpos := sectorsFor_pos (superblockOf m image).tableBytes.toNat
  have hlt := sectorsFor_lt hmax
  have htakes := s.takes_clearRun i (superblockOf m image).tableSectors.toNat
  constructor
  · rintro ⟨hsize, -, ⟨n, hn, j, hj, -, htakes', hbig⟩, hcopied⟩
    have hlog := blockSize_toNat_iff.mp hsize
    -- the sectors that were taken are those that `kpmalloc` counted
    obtain ⟨-, rfl⟩ := htakes'.unique htakes hj.2 hi.2 hn (by omega)
    have hfit : (superblockOf m image).groups * 32 < 2 ^ 32 := by
      unfold pmmSectorSize at hbig
      omega
    exact ⟨hlog, hbig, (copied_iff m image _ hgroups hlog hfit).mp hcopied⟩
  · rintro ⟨hlog, hbig, hcopies⟩
    have hfit : (superblockOf m image).groups * 32 < 2 ^ 32 := by
      unfold pmmSectorSize at hbig
      omega
    have hsize := blockSize_toNat hlog
    refine ⟨hsize, fun hzero => ?_, ⟨_, by omega, i, hi, rfl, htakes, hbig⟩,
      (copied_iff m image _ hgroups hlog hfit).mpr hcopies⟩
    have hbytes := (blockBytes_bounds hlog).1
    rw [← hsize, show (1024 <<< (superblockOf m image).sLogBlockSize : UInt32) = 0 from hzero] at hbytes
    exact absurd hbytes (by decide)

/-- A mount that gets past its divisor is sound when `kpmalloc` answers, with no memory or with memory in
    which the mounted file system is sound. -/
theorem mountsSoundly_iff_kpmalloc {m : Mem} {s : PhysMem} {image : UInt32}
    (hmagic : ¬ (superblockOf m image).sMagic ≠ ext2SuperMagic)
    (hgroups : (superblockOf m image).sBlocksPerGroup ≠ 0) :
    MountsSoundly m s image ↔ ∃ s' p, kpmalloc s (superblockOf m image).tableBytes = .ok (s', p) ∧
      (p ≠ 0 → MountedSoundly m (kpmemcpy m p (image + (superblockOf m image).gdOffset)
        (superblockOf m image).tableBytes) s s' image (mountedFs m image p)) := by
  unfold MountsSoundly
  rw [ext2Mount_cases, if_neg hmagic, if_neg hgroups]
  constructor
  · rintro ⟨m', s', mounted, h, hsound⟩
    obtain ⟨⟨s₁, p⟩, halloc, hrest⟩ := map_eq_ok.mp h
    refine ⟨s₁, p, halloc, fun hp => ?_⟩
    simp only [if_neg hp] at hrest
    cases hrest
    exact hsound _ rfl
  · rintro ⟨s', p, halloc, hsound⟩
    rw [halloc]
    by_cases hp : p = 0
    · exact ⟨m, s', none, congrArg Except.ok (if_pos hp), fun fs hfs => nomatch hfs⟩
    · refine ⟨_, s', _, congrArg Except.ok (if_neg hp), fun fs hfs => ?_⟩
      cases hfs
      exact hsound hp

/-- **When a mount is sound.** For every memory, every state of the allocator and every image, whatever
    the bytes of its superblock are. -/
theorem ext2Mount_soundly_iff (m : Mem) (s : PhysMem) (image : UInt32) :
    MountsSoundly m s image ↔ Mountable m s image := by
  unfold Mountable
  simp only
  by_cases hmagic : (superblockOf m image).sMagic ≠ ext2SuperMagic
  · refine iff_of_true ⟨m, s, none, ?_, fun fs hfs => nomatch hfs⟩ (.inl hmagic)
    rw [ext2Mount_cases, if_pos hmagic]
  rw [or_iff_right hmagic]
  by_cases hgroups : (superblockOf m image).sBlocksPerGroup = 0
  · refine iff_of_false ?_ fun h => h.1 hgroups
    rintro ⟨m', s', mounted, h, -⟩
    rw [ext2Mount_cases, if_neg hmagic, if_pos hgroups] at h
    cases h
  rw [mountsSoundly_iff_kpmalloc hmagic hgroups, kpmalloc_cases]
  by_cases hmax : (superblockOf m image).tableBytes.toNat ≤ kpmallocMax
  -- more sectors than `kpmalloc` can count
  case neg =>
    rw [if_neg hmax]
    refine iff_of_false ?_ fun h => hmax h.2.1
    rintro ⟨s', p, h, -⟩
    cases h
  rw [if_pos hmax, ← Superblock.tableSectors]
  have hsectors := tableSectors_toNat hmax
  have hpos := sectorsFor_pos (superblockOf m image).tableBytes.toNat
  have hne : (superblockOf m image).tableSectors ≠ 0 := by
    intro hzero
    rw [hzero] at hsectors
    exact absurd hsectors (Nat.ne_of_lt hpos)
  constructor
  · rintro ⟨s', p, halloc, hsound⟩
    have hscan := memPhysAllocSectors_returns_iff.mp ⟨_, halloc⟩
    refine ⟨hgroups, hmax, hscan, fun i hi haddr => ?_⟩
    obtain ⟨rfl, rfl⟩ := Prod.mk.inj (Except.ok.inj (halloc.symm.trans (memPhysAllocSectors_leastRun hne hi)))
    exact (mountedSoundly_iff hgroups hmax hi.1).mp (hsound haddr)
  · rintro ⟨-, -, hscan, hfound⟩
    rcases Set.eq_empty_or_nonempty (s.runs (superblockOf m image).tableSectors.toNat) with hempty | hrun
    · exact ⟨s, 0, memPhysAllocSectors_noRun hscan (.inr hempty), fun h0 => absurd rfl h0⟩
    · obtain ⟨i, hi⟩ := exists_isLeast hrun
      exact ⟨_, _, memPhysAllocSectors_leastRun hne hi,
        fun haddr => (mountedSoundly_iff hgroups hmax hi.1).mpr (hfound i hi haddr)⟩

/-- A well-formed image apart from the allocator's memory is mounted soundly when the map covers that
    memory. -/
theorem ImageWellFormed.mountable {m : Mem} {s : PhysMem} {image : UInt32} {len : Nat}
    (h : ImageWellFormed m image len) (hapart : s.Apart image len)
    (hcap : s.memPhysSectors.toNat ≤ pmmSectors) : Mountable m s image := by
  have hbytes := h.tableBytes
  have hblocks := h.blocks_fit
  have hgroups := groups_le h.blocksPerGroup_pos
  have hinside := h.descriptors_inside
  obtain ⟨hbs, -⟩ := blockBytes_bounds h.shift_le
  have hsmall := Nat.mul_le_mul_left (superblockOf m image).sBlocksCount.toNat hbs
  have hmax : (superblockOf m image).tableBytes.toNat ≤ kpmallocMax := by
    unfold kpmallocMax pmmSectorSize
    omega
  have hbig := le_sectorsFor (superblockOf m image).tableBytes.toNat
  rw [← tableSectors_toNat hmax] at hbig
  have hpos : (superblockOf m image).sBlocksPerGroup ≠ 0 := by
    intro hzero
    have hpos := h.blocksPerGroup_pos
    rw [hzero] at hpos
    exact absurd hpos (by decide)
  refine .inr ⟨hpos, hmax, scanInside_of_capacity hcap _, fun i hi _ => ⟨h.shift_le, by omega, ?_, ?_⟩⟩
  -- what is overwritten is managed
  · intro k hk j hj heq
    have hsrc := hapart ((superblockOf m image).tableOffset + k) (by omega)
    rw [heq] at hsrc
    exact absurd (managed_of_run hi.1.1 (by omega)) hsrc
  · intro d hd hge
    omega

/-- The image without a file, with no blocks in a group. -/
def noGroupsMem : Mem := Function.update noProgramMem 0x200421 0

/-- The image without a file, with blocks of 4 GiB. -/
def wideBlocksMem : Mem := Function.update noProgramMem 0x200418 22

/-- The mount of one divides by zero. The mount of the other succeeds, and its blocks have no bytes. -/
theorem noGroups_divides :
    ext2Mount noGroupsMem (memPhysInit 0x100000 0x100000) 0x200000 = .error .divideError ∧
    ¬ MountsSoundly noGroupsMem (memPhysInit 0x100000 0x100000) 0x200000 ∧
    ∃ m' s' fs, ext2Mount wideBlocksMem (memPhysInit 0x100000 0x100000) 0x200000 = .ok (m', s', some fs) ∧
      fs.blockSize = 0 ∧ ¬ MountsSoundly wideBlocksMem (memPhysInit 0x100000 0x100000) 0x200000 := by
  have hfaults : ext2Mount noGroupsMem (memPhysInit 0x100000 0x100000) 0x200000 = .error .divideError := by
    rw [ext2Mount_cases, if_neg (by decide +kernel), if_pos (by decide +kernel)]
  refine ⟨hfaults, ?_, ?_⟩
  · rintro ⟨m', s', mounted, h, -⟩
    rw [hfaults] at h
    cases h
  have hbytes : (superblockOf wideBlocksMem 0x200000).tableBytes = 32 := by decide +kernel
  have hsize : (1024 <<< (superblockOf wideBlocksMem 0x200000).sLogBlockSize : UInt32) = 0 := by decide +kernel
  obtain ⟨s', halloc⟩ := noProgram_kpmalloc
  have hmount : ∃ m', ext2Mount wideBlocksMem (memPhysInit 0x100000 0x100000) 0x200000
      = .ok (m', s', some (mountedFs wideBlocksMem 0x200000 0x100000)) := by
    rw [ext2Mount_cases, if_neg (by decide +kernel), if_neg (by decide +kernel), hbytes, halloc]
    exact ⟨_, rfl⟩
  obtain ⟨m', hmount⟩ := hmount
  refine ⟨m', s', _, hmount, hsize, ?_⟩
  rintro ⟨m₁, s₁, mounted, h, hsound⟩
  rw [hmount] at h
  cases h
  exact (hsound _ rfl).blockSize_ne hsize

/-! ## Inode numbers -/

/-- The descriptors that a mount allocated and copied. -/
def Ext2Fs.descriptors (fs : Ext2Fs) : Nat := fs.sb.tableBytes.toNat / 32

/-- A read of an inode answers `false`, or has divided by numbers other than 0 and looked at a descriptor
    of the table; and it answers `false` for a number that names no inode. -/
structure InodeChecked (m : Mem) (fs : Ext2Fs) (inodeNo : UInt32) : Prop where
  inside : ext2ReadInode m fs inodeNo = .ok none ∨
    (∃ inode, ext2ReadInode m fs inodeNo = .ok (some inode)) ∧
      ((inodeNo - 1) / fs.sb.sInodesPerGroup).toNat < fs.descriptors
  refused : inodeNo = 0 ∨ fs.sb.sInodesCount < inodeNo → ext2ReadInode m fs inodeNo = .ok none

/-- **When an inode number is checked.** For every file system that a mount gave, with blocks of at least
    1 KiB, and every inode number: it is 0, or it is at most the number of inodes and the group it is in
    has a descriptor. -/
theorem ext2ReadInode_descriptor_iff {m m' : Mem} {s s' : PhysMem} {image : UInt32} {fs : Ext2Fs}
    (hmount : ext2Mount m s image = .ok (m', s', some fs)) (hbs : 1024 ≤ fs.blockSize.toNat) (inodeNo : UInt32) :
    InodeChecked m' fs inodeNo ↔ inodeNo = 0 ∨
      (superblockOf m image).sInodesPerGroup ≠ 0 ∧ inodeNo ≤ (superblockOf m image).sInodesCount ∧
      (inodeNo.toNat - 1) / (superblockOf m image).sInodesPerGroup.toNat
        < (superblockOf m image).tableBytes.toNat / 32 := by
  obtain ⟨hsb, -⟩ := ext2Mount_eq_some hmount
  rw [← hsb]
  by_cases hno : inodeNo = 0
  · have hnone : ext2ReadInode m' fs inodeNo = .ok none := by rw [ext2ReadInode_cases, if_pos hno]
    exact iff_of_true ⟨.inl hnone, fun _ => hnone⟩ (.inl hno)
  have hblock : fs.blockSize / UInt32.ofNat inodeSize ≠ 0 := by
    rw [Ne, ← UInt32.toNat_inj, UInt32.toNat_div]
    show ¬ fs.blockSize.toNat / 128 = 0
    omega
  have hpos : 1 ≤ inodeNo := by
    rw [UInt32.le_iff_toNat_le]
    exact toNat_pos hno
  have hgroup : ((inodeNo - 1) / fs.sb.sInodesPerGroup).toNat
      = (inodeNo.toNat - 1) / fs.sb.sInodesPerGroup.toNat := by
    rw [UInt32.toNat_div, UInt32.toNat_sub_of_le _ _ hpos]
    rfl
  rw [or_iff_right hno]
  by_cases hipg : fs.sb.sInodesPerGroup = 0
  · refine iff_of_false ?_ fun h => h.1 hipg
    rintro ⟨hinside, -⟩
    rw [ext2ReadInode_cases, if_neg hno, if_pos (.inl hipg)] at hinside
    rcases hinside with h | ⟨⟨inode, h⟩, -⟩ <;> cases h
  have hsome : ext2ReadInode m' fs inodeNo = .ok (some (Inode.read m' (fs.inodeAddr m' inodeNo))) := by
    rw [ext2ReadInode_cases, if_neg hno, if_neg (not_or.mpr ⟨hipg, hblock⟩)]
  have hnever : ext2ReadInode m' fs inodeNo ≠ .ok none := by
    rw [hsome]
    exact fun h => nomatch h
  constructor
  · rintro ⟨hinside, hrefused⟩
    rw [hgroup] at hinside
    exact ⟨hipg, UInt32.not_lt.mp fun hlt => hnever (hrefused (.inr hlt)), (hinside.resolve_left hnever).2⟩
  · rintro ⟨-, hle, hlt⟩
    refine ⟨.inr ⟨⟨_, hsome⟩, ?_⟩, ?_⟩
    · rw [hgroup]
      exact hlt
    · rintro (h0 | hgt)
      · exact absurd h0 hno
      · exact absurd hle (UInt32.not_le.mpr hgt)

theorem ext2ReadInode_descriptor_iff_root : ∃ m' s' fs,
    ext2Mount noProgramMem (memPhysInit 0x100000 0x100000) 0x200000 = .ok (m', s', some fs) ∧
    InodeChecked m' fs ext2RootIno := by
  obtain ⟨s', hmount⟩ := noProgram_mount
  refine ⟨_, s', smallFs, hmount, (ext2ReadInode_descriptor_iff hmount (by decide) ext2RootIno).mpr (.inr ?_)⟩
  rw [noProgram_superblock]
  decide

/-- Inode 17 of 16, in the second group of one, is read. -/
theorem pastInodes_read : ∃ m' s' fs inode,
    ext2Mount noProgramMem (memPhysInit 0x100000 0x100000) 0x200000 = .ok (m', s', some fs) ∧
    fs.sb.sInodesCount = 16 ∧ fs.descriptors = 1 ∧ ext2ReadInode m' fs 17 = .ok (some inode) ∧
    ((17 - 1) / fs.sb.sInodesPerGroup).toNat = 1 ∧ ¬ InodeChecked m' fs 17 := by
  obtain ⟨s', hmount⟩ := noProgram_mount
  have hread : ext2ReadInode noProgramMounted smallFs 17
      = .ok (some (Inode.read noProgramMounted (smallFs.inodeAddr noProgramMounted 17))) := by
    rw [ext2ReadInode_cases, if_neg (by decide), if_neg (by decide)]
  refine ⟨_, s', smallFs, _, hmount, rfl, by decide, hread, by decide, fun hchecked => ?_⟩
  have hnone := hchecked.refused (.inr (by decide))
  rw [hread] at hnone
  cases hnone

end Drupe
