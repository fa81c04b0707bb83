import Drupe.Lib.Store
import Drupe.Memory.Physical

/-!
# `Filesystem.Ext2` — the ext2 driver (`ext2.c`)

The driver reads an image that lies in memory, and writes to memory: the group descriptors at mount, and the
buffer of a file read. Records of fixed layout are read field by field at the offsets of their packed
structures. An inode is the 128 bytes that `ext2ReadInode` copies out of the image.

## Contents
- `kpmalloc`, `kpmemset`, `kpmemcpy`, and what the last two transfer.
- `ext2Mount`, `ext2ReadInode`, `ext2ReadDir`, `ext2ReadFile`.
-/

namespace Drupe

open Lib

def ext2SuperMagic : UInt32 := 0xEF53
def ext2SuperOffset : UInt32 := 1024

/-- `EXT2_ROOT_INO` -/
def ext2RootIno : UInt32 := 2

/-- `sizeof(ext2_group_desc_t)` -/
def groupDescSize : UInt32 := 32

/-- `sizeof(ext2_inode_t)` -/
abbrev inodeSize : Nat := 128

/-- The loop of `kpmalloc`. The product takes on `2^32 / PMM_SECTOR_SIZE` values, so a loop that has seen as
    many of them goes on forever. -/
def kpmallocSectors (size : UInt32) : (fuel : Nat) → (numSect : UInt32) → Except Fault UInt32
  | 0, _ => .error .hang
  | fuel + 1, numSect =>
    if numSect * UInt32.ofNat pmmSectorSize < size then kpmallocSectors size fuel (numSect + 1)
    else .ok numSect

def kpmalloc (s : PhysMem) (size : UInt32) : Except Fault (PhysMem × UInt32) := do
  let numSect ← kpmallocSectors size 524288 1
  memPhysAllocSectors s numSect

def kpmemset (m : Mem) (dst : UInt32) (v : UInt8) (size : UInt32) : Mem :=
  store (fun i => dst + UInt32.ofNat i) (fun _ _ => v) size.toNat 0 m

/-- Byte by byte from the lowest address up, reading the memory as it is by then. -/
def kpmemcpy (m : Mem) (dst src size : UInt32) : Mem :=
  store (fun i => dst + UInt32.ofNat i) (fun m i => m (src + UInt32.ofNat i)) size.toNat 0 m

/-- `ext2_superblock_t`, the fields that are read. -/
structure Superblock where
  sInodesCount : UInt32
  sBlocksCount : UInt32
  sLogBlockSize : UInt32
  sBlocksPerGroup : UInt32
  sInodesPerGroup : UInt32
  sMagic : UInt32
deriving DecidableEq

/-- The superblock at `a`. -/
def Superblock.read (m : Mem) (a : UInt32) : Superblock where
  sInodesCount := m.read32 a
  sBlocksCount := m.read32 (a + 4)
  sLogBlockSize := m.read32 (a + 24)
  sBlocksPerGroup := m.read32 (a + 32)
  sInodesPerGroup := m.read32 (a + 40)
  sMagic := m.read16 (a + 56)

/-- `ext2_fs_t`: `bgdt` and `image` are addresses. -/
structure Ext2Fs where
  sb : Superblock
  blockSize : UInt32
  bgdt : UInt32
  image : UInt32
deriving DecidableEq

/-- A block size of `1024 << s_log_block_size`. -/
def Ext2Fs.BlockSized (fs : Ext2Fs) (k : Nat) : Prop := fs.blockSize.toNat = 1024 * 2 ^ k

/-- `ext2_inode_t`, as its bytes. -/
abbrev Inode := Vector UInt8 inodeSize

def Inode.read (m : Mem) (a : UInt32) : Inode := Vector.ofFn fun i => m (a + UInt32.ofNat i.val)

def Inode.byte (inode : Inode) (i : Nat) : UInt8 := inode[i]?.getD 0

def Inode.iSizeLo (inode : Inode) : UInt32 := word32 fun i => inode.byte (4 + i)

def Inode.iBlocks (inode : Inode) : UInt32 := word32 fun i => inode.byte (28 + i)

/-- `i_block[b]`, for `b < 12`. -/
def Inode.iBlock (inode : Inode) (b : Nat) : UInt32 := word32 fun i => inode.byte (40 + 4 * b + i)

/-- `none` stands for `false`. The file system of a mount that failed is not used. -/
def ext2Mount (m : Mem) (s : PhysMem) (imageData : UInt32) :
    Except Fault (Mem × PhysMem × Option Ext2Fs) := do
  let sb := Superblock.read m (imageData + ext2SuperOffset)
  if sb.sMagic ≠ ext2SuperMagic then return (m, s, none)
  -- the processor shifts by the count modulo 32, as `<<<` on `UInt32` does
  let blockSize : UInt32 := 1024 <<< sb.sLogBlockSize
  let gdOffset := blockSize * (if blockSize = 1024 then 2 else 1)
  if sb.sBlocksPerGroup = 0 then throw .divideError
  let groups := (sb.sBlocksCount + sb.sBlocksPerGroup - 1) / sb.sBlocksPerGroup
  let (s, bgdt) ← kpmalloc s (groups * groupDescSize)
  if bgdt = 0 then return (m, s, none)
  let m := kpmemcpy m bgdt (imageData + gdOffset) (groups * groupDescSize)
  return (m, s, some { sb, blockSize, bgdt, image := imageData })

/-- `none` stands for `false`. -/
def ext2ReadInode (m : Mem) (fs : Ext2Fs) (inodeNo : UInt32) : Except Fault (Option Inode) := do
  if inodeNo = 0 then return none
  let inodeNo := inodeNo - 1
  if fs.sb.sInodesPerGroup = 0 then throw .divideError
  let group := inodeNo / fs.sb.sInodesPerGroup
  let index := inodeNo % fs.sb.sInodesPerGroup
  let inodeTableBlock := m.read32 (fs.bgdt + group * groupDescSize + 8)
  let inodesPerBlock := fs.blockSize / UInt32.ofNat inodeSize
  if inodesPerBlock = 0 then throw .divideError
  let blockOffset := index / inodesPerBlock
  let inodeOffset := index % inodesPerBlock
  let absOffset := (inodeTableBlock + blockOffset) * fs.blockSize + inodeOffset * UInt32.ofNat inodeSize
  return some (Inode.read m (fs.image + absOffset))

/-- A callback of `ext2ReadDir`, on a context of type `σ`: it is called with a name and an inode number, and
    answers whether to go on. -/
abbrev DirentCb (σ : Type) := σ → List UInt8 → UInt32 → Except Fault (σ × Bool)

/-- The name of the record at `de`, as the C string in the zeroed buffer it is copied to. -/
def direntName (m : Mem) (de : UInt32) : List UInt8 :=
  cString ((List.range (m (de + 6)).toNat).map fun i => m (de + 8 + UInt32.ofNat i))

/-- The walk through one block. A record that is not the last one is at least a byte long, so `block_size`
    records of `fuel` are enough. The answer is whether the callback asked to stop. -/
def readDirBlock {σ : Type} (m : Mem) (fs : Ext2Fs) (block : UInt32) (cb : DirentCb σ) :
    (fuel : Nat) → (offset : UInt32) → σ → Except Fault (σ × Bool)
  | 0, _, ctx => return (ctx, true)
  | fuel + 1, offset, ctx => do
    if offset < fs.blockSize then
      let de := block + offset
      let inode := m.read32 de
      let (ctx, goOn) ← if inode ≠ 0 then cb ctx (direntName m de) inode else pure (ctx, true)
      if !goOn then return (ctx, false)
      let recLen := m.read16 (de + 4)
      if recLen = 0 then return (ctx, true)
      readDirBlock m fs block cb fuel (offset + recLen) ctx
    else return (ctx, true)

/-- The loop over the direct blocks `b`, …, 11. -/
def readDirBlocks {σ : Type} (m : Mem) (fs : Ext2Fs) (dir : Inode) (blkCount : UInt32)
    (cb : DirentCb σ) : (fuel b : Nat) → σ → Except Fault σ
  | 0, _, ctx => return ctx
  | fuel + 1, b, ctx => do
    if b < blkCount.toNat then
      if dir.iBlock b = 0 then readDirBlocks m fs dir blkCount cb fuel (b + 1) ctx
      else
        let block := fs.image + dir.iBlock b * fs.blockSize
        let (ctx, goOn) ← readDirBlock m fs block cb fs.blockSize.toNat 0 ctx
        if goOn then readDirBlocks m fs dir blkCount cb fuel (b + 1) ctx else return ctx
    else return ctx

def ext2ReadDir {σ : Type} (m : Mem) (fs : Ext2Fs) (dir : Inode) (cb : DirentCb σ) (ctx : σ) :
    Except Fault σ := do
  if fs.blockSize / 512 = 0 then throw .divideError
  let blkCount := dir.iBlocks / (fs.blockSize / 512)
  readDirBlocks m fs dir blkCount cb 12 0 ctx

/-- The arguments and locals of `ext2_read_file` that its loop reads. -/
structure ReadFile where
  fs : Ext2Fs
  inode : Inode
  output : UInt32
  bufLen : UInt32
  blocksToRead : UInt32
  startBlock : UInt32
  startOffset : UInt32

/-- `bytes_in_block`: what is left of block `b`, cut to what is left of the buffer. The two branches of the
    loop compute it alike. -/
def ReadFile.bytesInBlock (r : ReadFile) (b bytesRead : UInt32) : UInt32 :=
  let copyOffset := if b = r.startBlock then r.startOffset else 0
  let bytesInBlock := r.fs.blockSize - copyOffset
  if bytesRead + bytesInBlock > r.bufLen then r.bufLen - bytesRead else bytesInBlock

/-- The body of the loop of `ext2_read_file`. -/
def ReadFile.block (r : ReadFile) (b bytesRead : UInt32) (m : Mem) : Mem :=
  let bytesInBlock := r.bytesInBlock b bytesRead
  if r.inode.iBlock b.toNat = 0 then
    -- a sparse block
    kpmemset m (r.output + bytesRead) 0 bytesInBlock
  else
    let block := r.fs.image + r.inode.iBlock b.toNat * r.fs.blockSize
    let copyOffset := if b = r.startBlock then r.startOffset else 0
    kpmemcpy m (r.output + bytesRead) (block + copyOffset) bytesInBlock

/-- The loop of `ext2_read_file`: it ends at block 12, so 12 rounds of `fuel` are enough. -/
def ReadFile.loop (r : ReadFile) : (fuel : Nat) → (b bytesRead : UInt32) → Mem → Mem × UInt32
  | 0, _, bytesRead, m => (m, bytesRead)
  | fuel + 1, b, bytesRead, m =>
    if b < 12 ∧ b < r.blocksToRead ∧ bytesRead < r.bufLen then
      r.loop fuel (b + 1) (bytesRead + r.bytesInBlock b bytesRead) (r.block b bytesRead m)
    else (m, bytesRead)

/-- The locals when the loop of `ext2_read_file` is entered. -/
def ReadFile.enter (fs : Ext2Fs) (inode : Inode) (outBuf bufLen offset : UInt32) : ReadFile :=
  let fileSize := inode.iSizeLo
  let bufLen := if offset + bufLen > fileSize then fileSize - offset else bufLen
  { fs, inode, bufLen
    output := outBuf
    blocksToRead := (offset + bufLen + fs.blockSize - 1) / fs.blockSize
    startBlock := offset / fs.blockSize
    startOffset := offset % fs.blockSize }

def ext2ReadFile (m : Mem) (fs : Ext2Fs) (inode : Inode) (outBuf bufLen offset : UInt32) :
    Except Fault (Mem × UInt32) :=
  if outBuf = 0 then .ok (m, 0)
  else if offset ≥ inode.iSizeLo then .ok (m, 0)
  else if fs.blockSize = 0 then .error .divideError
  else
    let r := ReadFile.enter fs inode outBuf bufLen offset
    .ok (r.loop 12 r.startBlock 0 m)

/-! ## `kpmalloc` -/

/-- A loop that ends has found the first number of sectors, from `numSect` on, that holds `size` bytes. -/
theorem kpmallocSectors_eq_ok {size numSect n : UInt32} {fuel : Nat}
    (hbound : numSect.toNat + fuel ≤ 524289) (h : kpmallocSectors size fuel numSect = .ok n) :
    numSect.toNat ≤ n.toNat ∧ size.toNat ≤ n.toNat * pmmSectorSize ∧
      ∀ k, numSect.toNat ≤ k → k < n.toNat → k * pmmSectorSize < size.toNat := by
  induction fuel generalizing numSect with
  | zero => exact absurd h (by simp [kpmallocSectors])
  | succ fuel ih =>
      have hmul : (numSect * UInt32.ofNat pmmSectorSize).toNat
          = numSect.toNat * pmmSectorSize % 4294967296 := UInt32.toNat_mul _ _
      rw [kpmallocSectors] at h
      unfold pmmSectorSize at *
      by_cases hsmall : numSect * UInt32.ofNat 8192 < size
      · rw [if_pos hsmall] at h
        have hlt := UInt32.lt_iff_toNat_lt.mp hsmall
        have hsize := size.toNat_lt
        cases fuel with
        | zero => exact absurd h (by simp [kpmallocSectors])
        | succ fuel =>
            have hsucc : (numSect + 1).toNat = numSect.toNat + 1 := toNat_add_ofNat (k := 1) (by omega)
            obtain ⟨hle, hbig, hbefore⟩ := ih (by omega) h
            refine ⟨by omega, hbig, ?_⟩
            intro k hk hkn
            rcases Nat.eq_or_lt_of_le hk with rfl | hgt
            · omega
            · exact hbefore k (by omega) hkn
      · rw [if_neg hsmall] at h
        obtain rfl := Except.ok.inj h
        have hge := UInt32.le_iff_toNat_le.mp (UInt32.not_lt.mp hsmall)
        exact ⟨Nat.le_refl _, by omega, fun k h1 h2 => by omega⟩

/-- `kpmalloc` is a request for the sectors its loop counts. -/
theorem kpmalloc_eq_ok {s s' : PhysMem} {size p : UInt32} (h : kpmalloc s size = .ok (s', p)) :
    ∃ n, kpmallocSectors size 524288 1 = .ok n ∧ memPhysAllocSectors s n = .ok (s', p) :=
  bind_eq_ok.mp h

/-- The sectors of a `kpmalloc` that returns are more than `managed` when its bytes are, or when there is no
    managed sector: it asks for at least one. -/
theorem kpmallocSectors_gt_iff {size n : UInt32} (h : kpmallocSectors size 524288 1 = .ok n)
    (managed : Nat) : managed < n.toNat ↔ managed = 0 ∨ managed * pmmSectorSize < size.toNat := by
  obtain ⟨hpos, hbig, hbefore⟩ := kpmallocSectors_eq_ok (by decide) h
  have hone : (1 : UInt32).toNat = 1 := rfl
  constructor
  · intro hlt
    rcases Nat.eq_zero_or_pos managed with hzero | hmpos
    · exact .inl hzero
    · exact .inr (hbefore managed (by omega) hlt)
  · rintro (hzero | hlt)
    · omega
    · unfold pmmSectorSize at *
      omega

end Drupe
