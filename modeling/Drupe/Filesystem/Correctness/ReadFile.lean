import Drupe.Filesystem.Ext2

/-!
# `Filesystem.Correctness.ReadFile` — what a file read transfers

`fileByte` says what a file holds: byte `p` is in block `p / block_size`, and a hole holds zeros. A read goes
block by block, but what it does is one copy, byte by byte (`fileStore`): its loop has done as much of that
copy as it has read bytes (`ReadFile.Inv`), and ends when it is done (`ext2ReadFile_eq`).

The buffer may overlap the image. The copy transfers the file as it was before the read when no byte is
changed before it is read, which `Harmless` gives: where a byte is stored inside the image, the image already
holds it.
-/

namespace Drupe

open Lib

/-- The address of byte `t` of block `ptr` of the image. -/
def Ext2Fs.blockAddr (fs : Ext2Fs) (ptr : UInt32) (t : Nat) : UInt32 :=
  fs.image + ptr * fs.blockSize + UInt32.ofNat t

theorem Ext2Fs.blockSize_ne_zero {fs : Ext2Fs} (h : 0 < fs.blockSize.toNat) : fs.blockSize ≠ 0 := by
  intro h0
  rw [h0] at h
  exact absurd h (by decide)

/-- Byte `p` of a file, in its direct blocks. -/
def fileByte (m : Mem) (fs : Ext2Fs) (inode : Inode) (p : Nat) : UInt8 :=
  let ptr := inode.iBlock (p / fs.blockSize.toNat)
  if ptr = 0 then 0 else m (fs.blockAddr ptr (p % fs.blockSize.toNat))

/-- Where byte `p` of a file is, unless it is in a hole. -/
def fileSrc (fs : Ext2Fs) (inode : Inode) (p : Nat) : Option UInt32 :=
  let ptr := inode.iBlock (p / fs.blockSize.toNat)
  if ptr = 0 then none else some (fs.blockAddr ptr (p % fs.blockSize.toNat))

theorem fileByte_eq_fetch (m : Mem) (fs : Ext2Fs) (inode : Inode) (p : Nat) :
    fileByte m fs inode p = fetch 0 (fileSrc fs inode p) m := by
  unfold fileByte fileSrc
  by_cases hptr : inode.iBlock (p / fs.blockSize.toNat) = 0
  · simp only [if_pos hptr, fetch]
  · simp only [if_neg hptr, fetch]

/-- Address `a` is one of the `len` bytes of the image. -/
def Ext2Fs.InImage (fs : Ext2Fs) (len : Nat) (a : UInt32) : Prop :=
  fs.image.toNat ≤ a.toNat ∧ a.toNat < fs.image.toNat + len

/-- The direct blocks of an inode that are not holes lie inside an image of `len` bytes, which ends within
    the address space. -/
structure DirectInside (fs : Ext2Fs) (inode : Inode) (len : Nat) : Prop where
  image_end : fs.image.toNat + len ≤ 2 ^ 32
  inside : ∀ b < 12, inode.iBlock b ≠ 0 →
    (inode.iBlock b).toNat * fs.blockSize.toNat + fs.blockSize.toNat ≤ len

theorem DirectInside.inImage {fs : Ext2Fs} {inode : Inode} {len : Nat} (h : DirectInside fs inode len)
    {b t : Nat} (hb : b < 12) (hptr : inode.iBlock b ≠ 0) (ht : t < fs.blockSize.toNat) :
    fs.InImage len (fs.blockAddr (inode.iBlock b) t) := by
  have hend := h.image_end
  have hin := h.inside b hb hptr
  have haddr : (fs.blockAddr (inode.iBlock b) t).toNat
      = fs.image.toNat + (inode.iBlock b).toNat * fs.blockSize.toNat + t := by
    unfold Ext2Fs.blockAddr
    rw [UInt32.toNat_add, UInt32.toNat_add, UInt32.toNat_mul, UInt32.toNat_ofNat']
    omega
  unfold Ext2Fs.InImage
  omega

/-! ## The copy -/

/-- The first `k` bytes of the file from `offset` on, copied to the buffer one after the other. -/
def fileStore (fs : Ext2Fs) (inode : Inode) (outBuf : UInt32) (offset k : Nat) (m : Mem) : Mem :=
  store (fun j => outBuf + UInt32.ofNat j) (fun m j => fetch 0 (fileSrc fs inode (offset + j)) m) k 0 m

/-- The transfer of a read of the file at `offset`, `k` bytes into it. -/
abbrev FileTransferred (fs : Ext2Fs) (inode : Inode) (outBuf : UInt32) (offset : Nat) (m₀ m : Mem)
    (k : Nat) : Prop :=
  Transferred m₀ m (fun j => outBuf + UInt32.ofNat j) (fun j => fileByte m₀ fs inode (offset + j)) k

/-- No byte of the file is overwritten before it is read, except with what it held. -/
abbrev FileUndisturbed (fs : Ext2Fs) (inode : Inode) (outBuf : UInt32) (offset : Nat) (m₀ : Mem)
    (k : Nat) : Prop :=
  Undisturbed 0 (fun j => fileSrc fs inode (offset + j)) (fun j => outBuf + UInt32.ofNat j) m₀ k

theorem fileStore_transferred_iff {fs : Ext2Fs} {inode : Inode} {outBuf : UInt32} {offset k : Nat} {m : Mem}
    (hk : k ≤ 2 ^ 32) :
    FileTransferred fs inode outBuf offset m (fileStore fs inode outBuf offset k m) k ↔
      FileUndisturbed fs inode outBuf offset m k := by
  unfold FileTransferred fileStore
  simp only [fileByte_eq_fetch]
  apply store_transferred_iff
  intro i j hij hj heq
  have := add_ofNat_inj (by omega) (by omega) heq
  omega

/-- What a read of `k` bytes stores inside the image is there already. A buffer outside the image is a case
    of it. -/
def Harmless (fs : Ext2Fs) (inode : Inode) (outBuf : UInt32) (offset : Nat) (len : Nat) (m₀ : Mem)
    (k : Nat) : Prop :=
  ∀ j < k, fs.InImage len (outBuf + UInt32.ofNat j) →
    m₀ (outBuf + UInt32.ofNat j) = fileByte m₀ fs inode (offset + j)

/-- A byte of a direct block, when these are in the image, is in the image. -/
theorem DirectInside.src_inImage {fs : Ext2Fs} {inode : Inode} {len p : Nat} {a : UInt32}
    (h : DirectInside fs inode len) (hbs : 0 < fs.blockSize.toNat) (hp : p / fs.blockSize.toNat < 12)
    (ha : fileSrc fs inode p = some a) : fs.InImage len a := by
  unfold fileSrc at ha
  by_cases hptr : inode.iBlock (p / fs.blockSize.toNat) = 0
  · simp only [if_pos hptr] at ha
    exact absurd ha (by simp)
  · simp only [if_neg hptr] at ha
    rw [← Option.some.inj ha]
    exact h.inImage hp hptr (Nat.mod_lt p hbs)

theorem Harmless.undisturbed {fs : Ext2Fs} {inode : Inode} {outBuf : UInt32} {offset len k : Nat} {m : Mem}
    (h : Harmless fs inode outBuf offset len m k) (hinside : DirectInside fs inode len)
    (hbs : 0 < fs.blockSize.toNat) (hdirect : ∀ j < k, (offset + j) / fs.blockSize.toNat < 12) :
    FileUndisturbed fs inode outBuf offset m k := by
  intro j hj i hi hsrc
  have hin := hinside.src_inImage hbs (hdirect j hj) hsrc
  have hheld := h i (by omega) hin
  rw [← fileByte_eq_fetch, ← hheld, hsrc]
  rfl

/-! ## The loop -/

/-- The locals of a read at `offset` whose arithmetic does not wrap. -/
structure ReadFile.Set (r : ReadFile) (offset : Nat) : Prop where
  blockSize_pos : 0 < r.fs.blockSize.toNat
  fits : offset + r.bufLen.toNat + r.fs.blockSize.toNat ≤ 2 ^ 32
  startBlock_eq : r.startBlock.toNat = offset / r.fs.blockSize.toNat
  startOffset_eq : r.startOffset.toNat = offset % r.fs.blockSize.toNat
  blocksToRead_eq : r.blocksToRead.toNat
    = (offset + r.bufLen.toNat + r.fs.blockSize.toNat - 1) / r.fs.blockSize.toNat

/-- **The loop invariant.** Before block `b`, the file is copied up to the start of that block, or to the end
    of the buffer if that comes first. -/
structure ReadFile.Inv (r : ReadFile) (offset : Nat) (m₀ : Mem) (b bytesRead : UInt32) (m : Mem) :
    Prop where
  start_le : offset / r.fs.blockSize.toNat ≤ b.toNat
  read_eq : bytesRead.toNat = min r.bufLen.toNat (b.toNat * r.fs.blockSize.toNat - offset)
  mem_eq : m = fileStore r.fs r.inode r.output offset bytesRead.toNat m₀

/-- The number of bytes a read transfers: what is left of the buffer and of the direct blocks. -/
def ReadFile.total (r : ReadFile) (offset : Nat) : Nat :=
  min r.bufLen.toNat (12 * r.fs.blockSize.toNat - offset)

/-- The position in the file where the loop stands at block `b`: in that block, at its start unless it is the
    first one. -/
theorem position_in_block {bs offset b read bufLen : Nat} (hbs : 0 < bs) (hstart : offset / bs ≤ b)
    (hread : read = min bufLen (b * bs - offset)) (hmore : read < bufLen) :
    (offset + read) / bs = b ∧
    (offset + read) % bs = if b = offset / bs then offset % bs else 0 := by
  have hread' : read = b * bs - offset := by omega
  have hdiv := Nat.div_add_mod offset bs
  have hmod := Nat.mod_lt offset hbs
  rw [Nat.mul_comm] at hdiv
  by_cases hb : b = offset / bs
  · have hzero : read = 0 := by rw [hread', hb]; omega
    rw [hzero, Nat.add_zero, if_pos hb]
    exact ⟨hb.symm, rfl⟩
  -- a later block: the position is its start
  · have hge : (offset / bs + 1) * bs ≤ b * bs := Nat.mul_le_mul_right bs (by omega)
    rw [Nat.add_mul, Nat.one_mul] at hge
    have hpos : offset + read = b * bs := by omega
    rw [hpos, if_neg hb]
    exact ⟨Nat.mul_div_cancel b hbs, Nat.mul_mod_left b bs⟩

section Loop

variable {r : ReadFile} {offset : Nat} {m₀ m : Mem} {b bytesRead : UInt32}

/-- `copy_offset` is the position inside the block. -/
theorem ReadFile.Inv.copyOffset_eq (h : r.Inv offset m₀ b bytesRead m) (hset : r.Set offset)
    (hmore : bytesRead < r.bufLen) :
    (if b = r.startBlock then r.startOffset else 0 : UInt32).toNat
      = (offset + bytesRead.toNat) % r.fs.blockSize.toNat := by
  have hlt := UInt32.lt_iff_toNat_lt.mp hmore
  rw [(position_in_block hset.blockSize_pos h.start_le h.read_eq hlt).2]
  have hiff : b = r.startBlock ↔ b.toNat = offset / r.fs.blockSize.toNat := by
    rw [← hset.startBlock_eq]
    exact UInt32.toNat_inj.symm
  by_cases hb : b = r.startBlock
  · rw [if_pos hb, if_pos (hiff.mp hb), hset.startOffset_eq]
  · rw [if_neg hb, if_neg (fun hc => hb (hiff.mpr hc))]
    rfl

theorem ReadFile.Inv.bytesInBlock_eq (h : r.Inv offset m₀ b bytesRead m) (hset : r.Set offset)
    (hmore : bytesRead < r.bufLen) :
    (r.bytesInBlock b bytesRead).toNat =
      min (r.fs.blockSize.toNat - (offset + bytesRead.toNat) % r.fs.blockSize.toNat)
        (r.bufLen.toNat - bytesRead.toNat) := by
  have hlt := UInt32.lt_iff_toNat_lt.mp hmore
  have hcopy := h.copyOffset_eq hset hmore
  have hmod := Nat.mod_lt (offset + bytesRead.toNat) hset.blockSize_pos
  have hfits := hset.fits
  unfold ReadFile.bytesInBlock
  generalize (if b = r.startBlock then r.startOffset else 0 : UInt32) = copyOffset at hcopy ⊢
  have hblock : (r.fs.blockSize - copyOffset).toNat = r.fs.blockSize.toNat - copyOffset.toNat := by
    rw [UInt32.toNat_sub]
    omega
  have hsum : (bytesRead + (r.fs.blockSize - copyOffset)).toNat
      = bytesRead.toNat + (r.fs.blockSize.toNat - copyOffset.toNat) := by
    rw [UInt32.toNat_add, hblock]
    omega
  have hrest : (r.bufLen - bytesRead).toNat = r.bufLen.toNat - bytesRead.toNat := by
    rw [UInt32.toNat_sub]
    omega
  simp only
  by_cases hcut : bytesRead + (r.fs.blockSize - copyOffset) > r.bufLen
  · have := UInt32.lt_iff_toNat_lt.mp hcut
    rw [if_pos hcut, hrest]
    omega
  · have := UInt32.le_iff_toNat_le.mp (UInt32.not_lt.mp hcut)
    rw [if_neg hcut, hblock]
    omega

/-- Where the loop stands at a block it enters: `k` more bytes of the block fit the buffer. -/
structure ReadFile.At (r : ReadFile) (offset : Nat) (b bytesRead : UInt32) (k : Nat) : Prop where
  k_eq : (r.bytesInBlock b bytesRead).toNat = k
  div_eq : ∀ t < k, (offset + (bytesRead.toNat + t)) / r.fs.blockSize.toNat = b.toNat
  mod_eq : ∀ t < k, (offset + (bytesRead.toNat + t)) % r.fs.blockSize.toNat
    = (if b = r.startBlock then r.startOffset else 0 : UInt32).toNat + t
  next_eq : bytesRead.toNat + k
    = min r.bufLen.toNat ((b.toNat + 1) * r.fs.blockSize.toNat - offset)

theorem ReadFile.Inv.at (h : r.Inv offset m₀ b bytesRead m) (hset : r.Set offset)
    (hmore : bytesRead < r.bufLen) :
    r.At offset b bytesRead (r.bytesInBlock b bytesRead).toNat := by
  have hlt := UInt32.lt_iff_toNat_lt.mp hmore
  have hbs := hset.blockSize_pos
  have hcopy := h.copyOffset_eq hset hmore
  have hbytes := h.bytesInBlock_eq hset hmore
  obtain ⟨hdiv, -⟩ := position_in_block hbs h.start_le h.read_eq hlt
  have hpos := Nat.div_add_mod (offset + bytesRead.toNat) r.fs.blockSize.toNat
  have hmod := Nat.mod_lt (offset + bytesRead.toNat) hbs
  rw [hdiv, Nat.mul_comm] at hpos
  -- byte `t` of the block's part is `copy_offset + t` bytes into the block
  have hsplit : ∀ t < (r.bytesInBlock b bytesRead).toNat,
      offset + (bytesRead.toNat + t)
        = (offset + bytesRead.toNat) % r.fs.blockSize.toNat + t + r.fs.blockSize.toNat * b.toNat ∧
      (offset + bytesRead.toNat) % r.fs.blockSize.toNat + t < r.fs.blockSize.toNat := by
    intro t ht
    rw [Nat.mul_comm]
    omega
  refine ⟨rfl, ?_, ?_, ?_⟩
  · intro t ht
    obtain ⟨heq, hin⟩ := hsplit t ht
    rw [heq, Nat.add_mul_div_left _ _ hbs, Nat.div_eq_of_lt hin, Nat.zero_add]
  · intro t ht
    obtain ⟨heq, hin⟩ := hsplit t ht
    rw [heq, Nat.add_mul_mod_self_left, Nat.mod_eq_of_lt hin, hcopy]
  · have hread := h.read_eq
    rw [Nat.add_mul, Nat.one_mul]
    omega

/-- **One block.** The body of the loop goes on with the copy, by the part of the file that is in the
    block. -/
theorem ReadFile.Inv.block (h : r.Inv offset m₀ b bytesRead m) (hset : r.Set offset)
    (hmore : bytesRead < r.bufLen) :
    r.block b bytesRead m = fileStore r.fs r.inode r.output offset
      (bytesRead.toNat + (r.bytesInBlock b bytesRead).toNat) m₀ := by
  have hat := h.at hset hmore
  unfold fileStore
  rw [store_append, Nat.zero_add]
  show _ = store _ _ _ _ (fileStore r.fs r.inode r.output offset bytesRead.toNat m₀)
  rw [← h.mem_eq]
  -- the local indices of the copy are those of the whole read, from `bytesRead` on
  have hdst : ∀ t < (r.bytesInBlock b bytesRead).toNat,
      r.output + bytesRead + UInt32.ofNat (0 + t) = r.output + UInt32.ofNat (bytesRead.toNat + t) := by
    intro t _
    rw [Nat.zero_add, ← add_ofNat_add, UInt32.ofNat_toNat]
  unfold ReadFile.block
  by_cases hptr : r.inode.iBlock b.toNat = 0
  · simp only [if_pos hptr]
    refine store_congr hdst ?_ m
    intro t ht m'
    unfold fileSrc
    simp only [hat.div_eq t ht, if_pos hptr, fetch]
  · simp only [if_neg hptr]
    refine store_congr hdst ?_ m
    intro t ht m'
    unfold fileSrc
    simp only [hat.div_eq t ht, if_neg hptr, fetch]
    congr 1
    unfold Ext2Fs.blockAddr
    rw [hat.mod_eq t ht, Nat.zero_add, ← add_ofNat_add, UInt32.ofNat_toNat]

theorem ReadFile.Inv.step (h : r.Inv offset m₀ b bytesRead m) (hset : r.Set offset) (hb : b < 12)
    (hmore : bytesRead < r.bufLen) :
    r.Inv offset m₀ (b + 1) (bytesRead + r.bytesInBlock b bytesRead) (r.block b bytesRead m) := by
  have hb12 : b.toNat < 12 := UInt32.lt_iff_toNat_lt.mp hb
  have hnext := (h.at hset hmore).next_eq
  have hbuf := r.bufLen.toNat_lt
  have hsucc : (b + 1).toNat = b.toNat + 1 := toNat_add_ofNat (k := 1) (by omega)
  have hsum : (bytesRead + r.bytesInBlock b bytesRead).toNat
      = bytesRead.toNat + (r.bytesInBlock b bytesRead).toNat := by
    rw [UInt32.toNat_add]
    omega
  refine ⟨?_, ?_, ?_⟩
  · have := h.start_le
    omega
  · rw [hsum, hsucc, hnext]
  · rw [hsum]
    exact h.block hset hmore

/-- A loop that ends has copied everything: it is past the direct blocks, past the last block of the
    part that is asked for, or the buffer is full. -/
theorem ReadFile.Inv.done (h : r.Inv offset m₀ b bytesRead m) (hset : r.Set offset)
    (hb : b.toNat ≤ 12 ∨ b = r.startBlock)
    (hexit : ¬ (b < 12 ∧ b < r.blocksToRead ∧ bytesRead < r.bufLen)) :
    bytesRead.toNat = r.total offset := by
  have hbs := hset.blockSize_pos
  have hread := h.read_eq
  unfold ReadFile.total
  by_cases hdirect : b < 12
  · have hb12 : b.toNat < 12 := UInt32.lt_iff_toNat_lt.mp hdirect
    have hmono : b.toNat * r.fs.blockSize.toNat ≤ 12 * r.fs.blockSize.toNat :=
      Nat.mul_le_mul_right _ (by omega)
    by_cases hblocks : b < r.blocksToRead
    -- the buffer is full
    · have hfull : ¬ bytesRead < r.bufLen := fun hmore => hexit ⟨hdirect, hblocks, hmore⟩
      have := UInt32.le_iff_toNat_le.mp (UInt32.not_lt.mp hfull)
      omega
    -- every block of the part is behind
    · have hle := UInt32.le_iff_toNat_le.mp (UInt32.not_lt.mp hblocks)
      rw [hset.blocksToRead_eq] at hle
      have hlt := Nat.lt_mul_of_div_lt (Nat.lt_succ_of_le hle) hbs
      rw [Nat.succ_mul] at hlt
      omega
  · have hge : 12 ≤ b.toNat := UInt32.le_iff_toNat_le.mp (UInt32.not_lt.mp hdirect)
    rcases hb with hle | hstart
    · rw [hread, show b.toNat = 12 by omega]
    -- the first block is past the direct ones: nothing is read
    · rw [hstart, hset.startBlock_eq] at hge hread
      have hdiv := Nat.div_mul_le_self offset r.fs.blockSize.toNat
      have hle : 12 * r.fs.blockSize.toNat ≤ offset / r.fs.blockSize.toNat * r.fs.blockSize.toNat :=
        Nat.mul_le_mul_right _ hge
      omega

end Loop

/-- **The whole loop** copies `total` bytes of the file. -/
theorem ReadFile.Inv.loop {r : ReadFile} {offset : Nat} {m₀ m : Mem} {b bytesRead : UInt32} {fuel : Nat}
    (h : r.Inv offset m₀ b bytesRead m) (hset : r.Set offset) (hb : b.toNat ≤ 12 ∨ b = r.startBlock)
    (hfuel : 12 ≤ b.toNat + fuel) :
    (r.loop fuel b bytesRead m).2.toNat = r.total offset ∧
    (r.loop fuel b bytesRead m).1 = fileStore r.fs r.inode r.output offset (r.total offset) m₀ := by
  induction fuel generalizing b bytesRead m with
  | zero =>
      have hexit : ¬ (b < 12 ∧ b < r.blocksToRead ∧ bytesRead < r.bufLen) := by
        rintro ⟨hlt, -⟩
        have : b.toNat < 12 := UInt32.lt_iff_toNat_lt.mp hlt
        omega
      have hdone := h.done hset hb hexit
      exact ⟨hdone, hdone ▸ h.mem_eq⟩
  | succ fuel ih =>
      rw [ReadFile.loop]
      split
      · rename_i hguard
        obtain ⟨hb12, -, hmore⟩ := hguard
        have hlt : b.toNat < 12 := UInt32.lt_iff_toNat_lt.mp hb12
        have hsucc : (b + 1).toNat = b.toNat + 1 := toNat_add_ofNat (k := 1) (by omega)
        exact ih (h.step hset hb12 hmore) (.inl (by omega)) (by omega)
      · rename_i hexit
        have hdone := h.done hset hb hexit
        exact ⟨hdone, hdone ▸ h.mem_eq⟩

/-! ## `ext2ReadFile` -/

/-- The number of bytes a read delivers: what is left of the buffer, of the file and of the direct blocks. -/
def readCount (fs : Ext2Fs) (inode : Inode) (bufLen offset : Nat) : Nat :=
  min bufLen (min (inode.iSizeLo.toNat - offset) (12 * fs.blockSize.toNat - offset))

/-- The arithmetic of a read of `bufLen` bytes at `offset` does not wrap. -/
structure ReadFits (fs : Ext2Fs) (bufLen offset : Nat) : Prop where
  blockSize_pos : 0 < fs.blockSize.toNat
  fits : offset + bufLen + fs.blockSize.toNat ≤ 2 ^ 32

/-- The end of the read does not wrap, and neither does the count of the blocks up to it, once the buffer is
    cut to the file. -/
structure CutFits (fs : Ext2Fs) (inode : Inode) (bufLen offset : Nat) : Prop where
  blockSize_pos : 0 < fs.blockSize.toNat
  end_lt : offset + bufLen < 2 ^ 32
  fits : min (offset + bufLen) inode.iSizeLo.toNat + fs.blockSize.toNat ≤ 2 ^ 32

theorem ReadFits.cut {fs : Ext2Fs} {bufLen offset : Nat} (h : ReadFits fs bufLen offset) (inode : Inode) :
    CutFits fs inode bufLen offset := by
  obtain ⟨hbs, hfit⟩ := h
  exact ⟨hbs, by omega, by omega⟩

section Enter

variable {fs : Ext2Fs} {inode : Inode} {bufLen offset : UInt32} (outBuf : UInt32)

/-- The buffer is cut to what is left of the file. -/
theorem enter_bufLen (hend : offset.toNat + bufLen.toNat < 2 ^ 32) (hmore : offset < inode.iSizeLo) :
    (ReadFile.enter fs inode outBuf bufLen offset).bufLen.toNat
      = min bufLen.toNat (inode.iSizeLo.toNat - offset.toNat) := by
  have hlt := UInt32.lt_iff_toNat_lt.mp hmore
  have hsum : (offset + bufLen).toNat = offset.toNat + bufLen.toNat := by
    rw [UInt32.toNat_add]
    omega
  unfold ReadFile.enter
  simp only
  by_cases hcut : offset + bufLen > inode.iSizeLo
  · have := UInt32.lt_iff_toNat_lt.mp hcut
    rw [if_pos hcut, UInt32.toNat_sub_of_le _ _ (UInt32.le_of_lt hmore)]
    omega
  · have := UInt32.le_iff_toNat_le.mp (UInt32.not_lt.mp hcut)
    rw [if_neg hcut]
    omega

/-- `blocks_to_read`, with the wrap of its sum. -/
theorem enter_blocksToRead (hbs : 0 < fs.blockSize.toNat) :
    (ReadFile.enter fs inode outBuf bufLen offset).blocksToRead.toNat
      = (((offset + (ReadFile.enter fs inode outBuf bufLen offset).bufLen).toNat
          + fs.blockSize.toNat - 1) % 2 ^ 32) / fs.blockSize.toNat := by
  have hlt := fs.blockSize.toNat_lt
  show ((offset + (ReadFile.enter fs inode outBuf bufLen offset).bufLen + fs.blockSize - 1)
    / fs.blockSize).toNat = _
  generalize offset + (ReadFile.enter fs inode outBuf bufLen offset).bufLen = last
  have hlast := last.toNat_lt
  rw [UInt32.toNat_div, UInt32.toNat_sub, UInt32.toNat_add]
  congr 1
  show (4294967296 - 1 + (last.toNat + fs.blockSize.toNat) % 4294967296) % 4294967296 = _
  omega

theorem enter_set (hfits : CutFits fs inode bufLen.toNat offset.toNat) (hmore : offset < inode.iSizeLo) :
    (ReadFile.enter fs inode outBuf bufLen offset).Set offset.toNat := by
  obtain ⟨hbs, hend, hfit⟩ := hfits
  have hbuf := @enter_bufLen fs inode bufLen offset outBuf hend hmore
  have hlt := UInt32.lt_iff_toNat_lt.mp hmore
  have hblocks := @enter_blocksToRead fs inode bufLen offset outBuf hbs
  refine ⟨hbs, ?_, UInt32.toNat_div _ _, UInt32.toNat_mod _ _, ?_⟩
  · show offset.toNat + (ReadFile.enter fs inode outBuf bufLen offset).bufLen.toNat
      + fs.blockSize.toNat ≤ 2 ^ 32
    omega
  · rw [hblocks]
    show _ = (offset.toNat + (ReadFile.enter fs inode outBuf bufLen offset).bufLen.toNat
      + fs.blockSize.toNat - 1) / fs.blockSize.toNat
    congr 1
    rw [UInt32.toNat_add]
    omega

end Enter

/-- A read delivers nothing when no block from the first one on is to be read. -/
theorem ext2ReadFile_noBlock {fs : Ext2Fs} {inode : Inode} {outBuf bufLen offset : UInt32} (m : Mem)
    (hbs : 0 < fs.blockSize.toNat)
    (hnone : (ReadFile.enter fs inode outBuf bufLen offset).blocksToRead.toNat
      ≤ offset.toNat / fs.blockSize.toNat) :
    ext2ReadFile m fs inode outBuf bufLen offset = .ok (m, 0) := by
  unfold ext2ReadFile
  by_cases hnull : outBuf = 0
  · rw [if_pos hnull]
  by_cases hend : offset ≥ inode.iSizeLo
  · rw [if_neg hnull, if_pos hend]
  rw [if_neg hnull, if_neg hend, if_neg (Ext2Fs.blockSize_ne_zero hbs)]
  simp only
  rw [ReadFile.loop, if_neg]
  rintro ⟨-, hb, -⟩
  have hlt := UInt32.lt_iff_toNat_lt.mp hb
  have hstart : (ReadFile.enter fs inode outBuf bufLen offset).startBlock.toNat
      = offset.toNat / fs.blockSize.toNat := UInt32.toNat_div _ _
  omega

/-- **`ext2ReadFile`.** A read whose arithmetic does not wrap copies `readCount` bytes of the file to the
    buffer and returns their number. The buffer may be null when there is nothing to read. -/
theorem ext2ReadFile_eq {fs : Ext2Fs} {inode : Inode} {outBuf bufLen offset : UInt32} (m : Mem)
    (hout : outBuf = 0 → readCount fs inode bufLen.toNat offset.toNat = 0)
    (hfits : CutFits fs inode bufLen.toNat offset.toNat) :
    ∃ n : UInt32, n.toNat = readCount fs inode bufLen.toNat offset.toNat ∧
      ext2ReadFile m fs inode outBuf bufLen offset = .ok
        (fileStore fs inode outBuf offset.toNat (readCount fs inode bufLen.toNat offset.toNat) m, n) := by
  unfold ext2ReadFile
  by_cases hnull : outBuf = 0
  · rw [if_pos hnull, hout hnull]
    exact ⟨0, rfl, rfl⟩
  rw [if_neg hnull]
  by_cases hend : offset ≥ inode.iSizeLo
  · have hle := UInt32.le_iff_toNat_le.mp hend
    have hzero : readCount fs inode bufLen.toNat offset.toNat = 0 := by
      unfold readCount
      omega
    rw [if_pos hend, hzero]
    exact ⟨0, rfl, rfl⟩
  · have hmore : offset < inode.iSizeLo := UInt32.not_le.mp hend
    have hset := enter_set outBuf hfits hmore
    have htotal : (ReadFile.enter fs inode outBuf bufLen offset).total offset.toNat
        = readCount fs inode bufLen.toNat offset.toNat := by
      unfold ReadFile.total readCount
      rw [enter_bufLen outBuf hfits.end_lt hmore, Nat.min_assoc]
      rfl
    rw [if_neg hend, if_neg (Ext2Fs.blockSize_ne_zero hfits.blockSize_pos)]
    have hstart : (ReadFile.enter fs inode outBuf bufLen offset).Inv offset.toNat m
        (ReadFile.enter fs inode outBuf bufLen offset).startBlock 0 m := by
      refine ⟨Nat.le_of_eq hset.startBlock_eq.symm, ?_, rfl⟩
      have hdiv := Nat.div_mul_le_self offset.toNat fs.blockSize.toNat
      rw [hset.startBlock_eq]
      show 0 = min _ (offset.toNat / fs.blockSize.toNat * fs.blockSize.toNat - offset.toNat)
      omega
    have hfuel : 12 ≤ (ReadFile.enter fs inode outBuf bufLen offset).startBlock.toNat + 12 := by omega
    obtain ⟨hcount, hmem⟩ := hstart.loop hset (.inr rfl) hfuel
    rw [htotal] at hcount hmem
    exact ⟨_, hcount, congrArg Except.ok (Prod.ext hmem rfl)⟩

/-- The bytes of a read are bytes of direct blocks. -/
theorem readCount_direct {fs : Ext2Fs} {inode : Inode} {bufLen offset j : Nat}
    (hj : j < readCount fs inode bufLen offset) : (offset + j) / fs.blockSize.toNat < 12 := by
  apply Nat.div_lt_of_lt_mul
  unfold readCount at hj
  rw [Nat.mul_comm]
  omega

/-- A read of a file whose blocks are inside the image, into a buffer that meets the image in bytes that are
    harmless, transfers the file as it was. -/
theorem ext2ReadFile_transfers {m : Mem} {fs : Ext2Fs} {inode : Inode} {outBuf bufLen offset : UInt32}
    {len : Nat} (hout : outBuf = 0 → readCount fs inode bufLen.toNat offset.toNat = 0)
    (hfits : ReadFits fs bufLen.toNat offset.toNat) (hinside : DirectInside fs inode len)
    (hharm : Harmless fs inode outBuf offset.toNat len m
      (readCount fs inode bufLen.toNat offset.toNat)) :
    ∃ m' n, ext2ReadFile m fs inode outBuf bufLen offset = .ok (m', n) ∧
      n.toNat = readCount fs inode bufLen.toNat offset.toNat ∧
      FileTransferred fs inode outBuf offset.toNat m m'
        (readCount fs inode bufLen.toNat offset.toNat) := by
  obtain ⟨n, hn, hread⟩ := ext2ReadFile_eq m hout (hfits.cut inode)
  refine ⟨_, n, hread, hn, ?_⟩
  have hbuf := bufLen.toNat_lt
  have hle : readCount fs inode bufLen.toNat offset.toNat ≤ bufLen.toNat := Nat.min_le_left _ _
  rw [fileStore_transferred_iff (by omega)]
  exact hharm.undisturbed hinside hfits.blockSize_pos fun j hj => readCount_direct hj

/-! ## Chunks and holes -/

/-- A memory with the same image holds the same files. -/
theorem fileByte_congr {m m' : Mem} {fs : Ext2Fs} {inode : Inode} {len : Nat}
    (hinside : DirectInside fs inode len) (hbs : 0 < fs.blockSize.toNat)
    (hsame : ∀ a, fs.InImage len a → m' a = m a) {p : Nat} (hp : p / fs.blockSize.toNat < 12) :
    fileByte m' fs inode p = fileByte m fs inode p := by
  unfold fileByte
  by_cases hptr : inode.iBlock (p / fs.blockSize.toNat) = 0
  · simp only [if_pos hptr]
  · simp only [if_neg hptr]
    exact hsame _ (hinside.inImage hp hptr (Nat.mod_lt p hbs))

/-- A range read in consecutive chunks, each into its place of the buffer; the total of what was read. -/
def readChunks (m : Mem) (fs : Ext2Fs) (inode : Inode) :
    (outBuf offset : UInt32) → List UInt32 → Except Fault (Mem × Nat)
  | _, _, [] => .ok (m, 0)
  | outBuf, offset, bufLen :: lens => do
    let (m', n) ← ext2ReadFile m fs inode outBuf bufLen offset
    let (m'', k) ← readChunks m' fs inode (outBuf + bufLen) (offset + bufLen) lens
    return (m'', n.toNat + k)

/-- `readCount` depends on the file only through what a read at offset 0 has available. -/
theorem readCount_eq (fs : Ext2Fs) (inode : Inode) (bufLen offset : Nat) :
    readCount fs inode bufLen offset
      = min bufLen (min inode.iSizeLo.toNat (12 * fs.blockSize.toNat) - offset) := by
  rw [readCount, Nat.sub_min_sub_right]

/-- What is left to read after a chunk: nothing, unless the chunk was read in full. -/
theorem readCount_chunk (fs : Ext2Fs) (inode : Inode) (chunk rest offset : Nat) :
    readCount fs inode (chunk + rest) offset
      = readCount fs inode chunk offset + readCount fs inode rest (offset + chunk) ∧
    (0 < readCount fs inode rest (offset + chunk) → readCount fs inode chunk offset = chunk) := by
  rw [readCount_eq, readCount_eq, readCount_eq]
  generalize min inode.iSizeLo.toNat (12 * fs.blockSize.toNat) = available
  omega

/-- A buffer of `k` bytes outside the image. -/
def Outside (fs : Ext2Fs) (len : Nat) (outBuf : UInt32) (k : Nat) : Prop :=
  ∀ j < k, ¬ fs.InImage len (outBuf + UInt32.ofNat j)

theorem Outside.mono {fs : Ext2Fs} {len : Nat} {outBuf : UInt32} {k l : Nat} (h : Outside fs len outBuf k)
    (hle : l ≤ k) : Outside fs len outBuf l := fun j hj => h j (by omega)

theorem Outside.harmless {fs : Ext2Fs} {len : Nat} {outBuf : UInt32} {k : Nat}
    (h : Outside fs len outBuf k) (inode : Inode) (offset : Nat) (m : Mem) :
    Harmless fs inode outBuf offset len m k :=
  fun j hj hin => absurd hin (h j hj)

/-- The buffer of the bytes after a chunk goes on where the chunk ends: there are such bytes only past a chunk
    that was read in full. -/
theorem chunk_place {fs : Ext2Fs} {inode : Inode} (outBuf bufLen : UInt32) {rest offset : Nat} :
    ∀ j < readCount fs inode rest (offset + bufLen.toNat),
      outBuf + bufLen + UInt32.ofNat j
        = outBuf + UInt32.ofNat (readCount fs inode bufLen.toNat offset + j) := by
  intro j hj
  have hfull := (readCount_chunk fs inode bufLen.toNat rest offset).2
  rw [hfull (by omega), ← add_ofNat_add, UInt32.ofNat_toNat]

/-- The buffer after a chunk is null only at the end of memory. -/
theorem chunk_null {outBuf bufLen : UInt32} {rest : Nat} (hout : outBuf = 0 → bufLen.toNat + rest = 0)
    (hend : outBuf.toNat + (bufLen.toNat + rest) ≤ 2 ^ 32) : outBuf + bufLen = 0 → rest = 0 := by
  intro h0
  have hnext : (outBuf + bufLen).toNat = (outBuf.toNat + bufLen.toNat) % 4294967296 := UInt32.toNat_add _ _
  have hzero : (0 : UInt32).toNat = 0 := rfl
  rw [h0] at hnext
  by_contra hne
  have hnull : outBuf.toNat = 0 := by omega
  have := hout (UInt32.toNat_inj.mp hnull)
  omega

/-- **Chunks.** A range read in consecutive chunks transfers what one read of the range does. -/
theorem readChunks_transfers {fs : Ext2Fs} {inode : Inode} {len : Nat} (hinside : DirectInside fs inode len)
    (lens : List UInt32) {m : Mem} {outBuf offset : UInt32}
    (hout : outBuf = 0 → (lens.map UInt32.toNat).sum = 0)
    (hend : outBuf.toNat + (lens.map UInt32.toNat).sum ≤ 2 ^ 32)
    (hfits : ReadFits fs (lens.map UInt32.toNat).sum offset.toNat)
    (hdisj : Outside fs len outBuf
      (readCount fs inode (lens.map UInt32.toNat).sum offset.toNat)) :
    ∃ m', readChunks m fs inode outBuf offset lens
        = .ok (m', readCount fs inode (lens.map UInt32.toNat).sum offset.toNat) ∧
      FileTransferred fs inode outBuf offset.toNat m m'
        (readCount fs inode (lens.map UInt32.toNat).sum offset.toNat) := by
  induction lens generalizing m outBuf offset with
  | nil =>
      have hzero : readCount fs inode 0 offset.toNat = 0 := Nat.zero_min _
      show ∃ m', Except.ok (m, 0) = Except.ok (m', readCount fs inode 0 offset.toNat) ∧
        FileTransferred fs inode outBuf offset.toNat m m' (readCount fs inode 0 offset.toNat)
      rw [hzero]
      exact ⟨m, rfl, Transferred.refl _ _ _⟩
  | cons bufLen lens ih =>
      rw [List.map_cons, List.sum_cons] at *
      generalize hrest : (lens.map UInt32.toNat).sum = rest at *
      obtain ⟨hbs, hfit⟩ := hfits
      obtain ⟨hcount, hfull⟩ := readCount_chunk fs inode bufLen.toNat rest offset.toNat
      have hoff : (offset + bufLen).toNat = offset.toNat + bufLen.toNat := by
        rw [UInt32.toNat_add]
        omega
      have hplace := @chunk_place fs inode outBuf bufLen rest offset.toNat
      rw [hcount] at hdisj ⊢
      -- the first chunk
      have hharm := (hdisj.mono (Nat.le_add_right _ _)).harmless inode offset.toNat m
      obtain ⟨m₁, n, hread, hn, htrans⟩ := ext2ReadFile_transfers
        (fun h0 => by have := hout h0; unfold readCount; omega) ⟨hbs, by omega⟩ hinside hharm
      -- the others, in the memory it leaves
      have hdisj₂ : Outside fs len (outBuf + bufLen)
          (readCount fs inode rest (offset + bufLen).toNat) := by
        intro j hj
        rw [hoff] at hj
        rw [hplace j hj]
        exact hdisj _ (by omega)
      obtain ⟨m₂, hchunks, htrans₂⟩ := @ih m₁ (outBuf + bufLen) (offset + bufLen) (chunk_null hout hend)
        (by rw [UInt32.toNat_add]; omega) ⟨hbs, by omega⟩ hdisj₂
      rw [hoff] at hchunks htrans₂
      refine ⟨m₂, ?_, htrans.trans htrans₂ hplace ?_ ?_⟩
      · unfold readChunks
        rw [hread, ok_bind]
        show (readChunks m₁ fs inode (outBuf + bufLen) (offset + bufLen) lens >>= fun r =>
          pure (r.1, n.toNat + r.2)) = _
        rw [hchunks, hn]
        rfl
      · intro j hj
        rw [fileByte_congr hinside hbs (htrans.stable hharm) (readCount_direct hj), hfull (by omega),
          Nat.add_assoc]
      · intro i hi j hj heq
        have hle : readCount fs inode bufLen.toNat offset.toNat ≤ bufLen.toNat := Nat.min_le_left _ _
        have hle₂ : readCount fs inode rest (offset.toNat + bufLen.toNat) ≤ rest := Nat.min_le_left _ _
        have := add_ofNat_inj (by omega) (by omega) heq
        omega

/-- Files that differ in holes only: a block that is a hole in the one may, in the other, be a block of the
    image that holds zeros. -/
structure HolesFilled (m : Mem) (fs : Ext2Fs) (inode inode' : Inode) : Prop where
  size_eq : inode'.iSizeLo = inode.iSizeLo
  block_eq : ∀ b < 12, inode'.iBlock b = inode.iBlock b ∨
    inode.iBlock b = 0 ∧ ∀ t < fs.blockSize.toNat, m (fs.blockAddr (inode'.iBlock b) t) = 0

theorem HolesFilled.fileByte_eq {m : Mem} {fs : Ext2Fs} {inode inode' : Inode}
    (h : HolesFilled m fs inode inode') (hbs : 0 < fs.blockSize.toNat) {p : Nat}
    (hp : p / fs.blockSize.toNat < 12) : fileByte m fs inode' p = fileByte m fs inode p := by
  unfold fileByte
  rcases h.block_eq _ hp with heq | ⟨hhole, hzero⟩
  · simp only [heq]
  · simp only [if_pos hhole]
    split
    · rfl
    · exact hzero _ (Nat.mod_lt p hbs)

/-- **What a file read returns.** For a file whose direct blocks lie inside the image, any block size, and an
    offset and length whose arithmetic does not wrap, with a buffer outside the image:

    the read returns `min bufLen (size - offset) (12 * block_size - offset)`, stores that many bytes of the
    file from `offset` on in the buffer, and changes nothing else;

    reading the range in consecutive chunks, into a buffer that does not run past the end of memory, leaves
    the same memory and delivers the same number of bytes;

    a file with blocks of zeros in place of holes reads the same. -/
theorem ext2ReadFile_spec {m : Mem} {fs : Ext2Fs} {inode : Inode} {outBuf bufLen offset : UInt32}
    {len : Nat} (hout : outBuf ≠ 0) (hfits : ReadFits fs bufLen.toNat offset.toNat)
    (hinside : DirectInside fs inode len)
    (hdisj : Outside fs len outBuf (readCount fs inode bufLen.toNat offset.toNat)) :
    (∃ m' n, ext2ReadFile m fs inode outBuf bufLen offset = .ok (m', n) ∧
      n.toNat = min bufLen.toNat
        (min (inode.iSizeLo.toNat - offset.toNat) (12 * fs.blockSize.toNat - offset.toNat)) ∧
      (∀ j < n.toNat, m' (outBuf + UInt32.ofNat j) = fileByte m fs inode (offset.toNat + j)) ∧
      (∀ a, (∀ j < n.toNat, a ≠ outBuf + UInt32.ofNat j) → m' a = m a) ∧
      ∀ lens : List UInt32, outBuf.toNat + bufLen.toNat ≤ 2 ^ 32 →
        (lens.map UInt32.toNat).sum = bufLen.toNat →
        readChunks m fs inode outBuf offset lens = .ok (m', n.toNat)) ∧
    ∀ inode', HolesFilled m fs inode inode' → DirectInside fs inode' len →
      ext2ReadFile m fs inode' outBuf bufLen offset = ext2ReadFile m fs inode outBuf bufLen offset := by
  have hnull : ∀ k, outBuf = 0 → k = 0 := fun _ h0 => absurd h0 hout
  obtain ⟨m', n, hread, hn, htrans⟩ := ext2ReadFile_transfers (hnull _) hfits hinside
    (hdisj.harmless inode offset.toNat m)
  refine ⟨⟨m', n, hread, hn, ?_, ?_, ?_⟩, ?_⟩
  · rw [hn]
    exact htrans.written
  · rw [hn]
    exact htrans.frame
  · intro lens hend hsum
    obtain ⟨m'', hchunks, htrans'⟩ := @readChunks_transfers fs inode len hinside lens m outBuf offset
      (hnull _) (by rw [hsum]; exact hend) (by rw [hsum]; exact hfits) (by rw [hsum]; exact hdisj)
    rw [hsum] at hchunks htrans'
    rw [hchunks, hn, htrans.unique htrans']
  · intro inode' hfilled hinside'
    have hcount : readCount fs inode' bufLen.toNat offset.toNat
        = readCount fs inode bufLen.toNat offset.toNat := by
      unfold readCount
      rw [hfilled.size_eq]
    have hdisj' := hdisj
    rw [← hcount] at hdisj'
    obtain ⟨m'', n', hread', hn', htrans'⟩ := ext2ReadFile_transfers (hnull _) hfits hinside'
      (hdisj'.harmless inode' offset.toNat m)
    rw [hcount] at hn' htrans'
    -- both reads are the same transfer
    have hsame : FileTransferred fs inode outBuf offset.toNat m m''
        (readCount fs inode bufLen.toNat offset.toNat) := by
      refine ⟨fun j hj => ?_, htrans'.frame⟩
      rw [← hfilled.fileByte_eq hfits.blockSize_pos (readCount_direct hj)]
      exact htrans'.written j hj
    rw [hread, hread', htrans.unique hsame, UInt32.toNat_inj.mp (hn.trans hn'.symm)]

/-! ## A file of five bytes -/

/-- A file of five bytes in block 1. -/
def fiveBytes : Inode := ((Vector.replicate inodeSize 0).set 4 5).set 40 1

/-- An image at 2 MiB with blocks of 1 KiB. -/
def smallFs : Ext2Fs := ⟨⟨16, 16, 0, 8192, 16, ext2SuperMagic⟩, 1024, 0x100000, 0x200000⟩

theorem smallFs_blockSized : smallFs.BlockSized 0 := rfl

theorem fiveBytes_inside : DirectInside smallFs fiveBytes 0x10000 where
  image_end := by decide
  inside := by decide

theorem ext2ReadFile_spec_fiveBytes :
    ∃ m' n, ext2ReadFile (fun a => if a = 0x200403 then 33 else 0) smallFs fiveBytes 0x1000 3 2
        = .ok (m', n) ∧ n.toNat = 3 ∧ m' 0x1001 = 33 := by
  have hcount : readCount smallFs fiveBytes (3 : UInt32).toNat (2 : UInt32).toNat = 3 := by decide
  have hdisj : Outside smallFs 0x10000 0x1000 3 := by
    intro j hj
    unfold Ext2Fs.InImage
    have : j = 0 ∨ j = 1 ∨ j = 2 := by omega
    rcases this with rfl | rfl | rfl <;> decide
  have hspec := @ext2ReadFile_spec (fun a => if a = 0x200403 then 33 else 0) smallFs fiveBytes 0x1000 3 2
    0x10000 (by decide) ⟨by decide, by decide⟩ fiveBytes_inside (by rw [hcount]; exact hdisj)
  obtain ⟨⟨m', n, hread, hn, hbytes, -⟩, -⟩ := hspec
  have hn3 : n.toNat = 3 := hn.trans hcount
  exact ⟨m', n, hread, hn3, (hbytes 1 (by omega)).trans (by decide)⟩

end Drupe
