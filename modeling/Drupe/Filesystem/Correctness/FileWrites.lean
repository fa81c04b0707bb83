import Drupe.Filesystem.Correctness.ImageReads
import Drupe.Filesystem.Correctness.ReadBounds

/-!
# `Filesystem.Correctness.FileWrites` — which bytes a file read writes

`fileWrites` lists the addresses that `ext2ReadFile` writes to, in order: the memory that it leaves is that after
one store to each (`ext2ReadFile_stores`). Whatever its 32-bit sums do, they are those of the buffer from its start
up to the count that is returned, which is no more than was asked for (`ext2ReadFile_writes`).

The length of the buffer is only ever made smaller (`enter_bufLen_le`). The number of blocks is a quotient
by the block size, also where the sum that is divided has wrapped, so the end of a block that is read is
an address below `2^32` (`enter_blocksToRead_mul`). That end bounds the bytes read before it: the sum that
the loop cuts them by does not wrap (`ReadFile.bytesRead_next`).
-/

namespace Drupe

open Lib

/-- The addresses that the loop of `ext2ReadFile` writes to. -/
def ReadFile.writes (r : ReadFile) : (fuel : Nat) → (b bytesRead : UInt32) → List UInt32
  | 0, _, _ => []
  | fuel + 1, b, bytesRead =>
    if b < 12 ∧ b < r.blocksToRead ∧ bytesRead < r.bufLen then
      bytesFrom (r.output + bytesRead) (r.bytesInBlock b bytesRead).toNat ++
      r.writes fuel (b + 1) (bytesRead + r.bytesInBlock b bytesRead)
    else []

/-- The addresses that `ext2ReadFile` writes to. -/
def fileWrites (fs : Ext2Fs) (inode : Inode) (outBuf bufLen offset : UInt32) : List UInt32 :=
  if outBuf = 0 ∨ offset ≥ inode.iSizeLo ∨ fs.blockSize = 0 then []
  else
    let r := ReadFile.enter fs inode outBuf bufLen offset
    r.writes 12 r.startBlock 0

theorem bytesFrom_add (a : UInt32) (n l : Nat) :
    bytesFrom a (n + l) = bytesFrom a n ++ bytesFrom (a + UInt32.ofNat n) l := by
  unfold bytesFrom
  rw [List.range_add, List.map_append, List.map_map]
  congr 1
  apply List.map_congr_left
  intro i _
  exact (add_ofNat_add a n i).symm

theorem bytesFrom_nodup {a : UInt32} {n : Nat} (hn : n < 2 ^ 32) : (bytesFrom a n).Nodup := by
  refine List.Nodup.map_on (fun i hi j hj heq => ?_) List.nodup_range
  rw [List.mem_range] at hi hj
  exact add_ofNat_inj (by omega) (by omega) heq

section Loop

variable {r : ReadFile} {b bytesRead : UInt32}

/-- The bytes of a block are cut to what is left of the buffer. -/
theorem ReadFile.bytesInBlock_cut : bytesRead + r.bytesInBlock b bytesRead ≤ r.bufLen := by
  unfold ReadFile.bytesInBlock
  simp only
  generalize (r.fs.blockSize - if b = r.startBlock then r.startOffset else 0) = bytesInBlock
  by_cases hcut : bytesRead + bytesInBlock > r.bufLen
  · rw [if_pos hcut, show bytesRead + (r.bufLen - bytesRead) = r.bufLen by grind]
    exact UInt32.le_refl _
  · rw [if_neg hcut]
    exact UInt32.not_lt.mp hcut

/-- **One block.** The count of bytes read grows by those of the block, and stays below its end. -/
theorem ReadFile.bytesRead_next (hoff : r.startOffset.toNat < r.fs.blockSize.toNat)
    (hend : r.blocksToRead.toNat * r.fs.blockSize.toNat < 2 ^ 32)
    (hread : bytesRead.toNat ≤ b.toNat * r.fs.blockSize.toNat) (hb : b < 12 ∧ b < r.blocksToRead)
    (hmore : bytesRead < r.bufLen) :
    (bytesRead + r.bytesInBlock b bytesRead).toNat = bytesRead.toNat + (r.bytesInBlock b bytesRead).toNat ∧
    (bytesRead + r.bytesInBlock b bytesRead).toNat ≤ (b + 1).toNat * r.fs.blockSize.toNat := by
  have hle := ReadFile.bytesInBlock_le (b := b) hoff hmore
  have hdirect : b.toNat < 12 := UInt32.lt_iff_toNat_lt.mp hb.1
  have hblock := Nat.mul_le_mul_right r.fs.blockSize.toNat (Nat.succ_le_of_lt (UInt32.lt_iff_toNat_lt.mp hb.2))
  have hnext : (b + 1).toNat = b.toNat + 1 := toNat_add_ofNat (k := 1) (by omega)
  rw [Nat.succ_mul] at hblock
  rw [hnext, Nat.succ_mul, UInt32.toNat_add]
  omega

/-- A block is written to its part of the buffer, byte by byte. -/
theorem ReadFile.block_stores (m : Mem) :
    StoredTo (bytesFrom (r.output + bytesRead) (r.bytesInBlock b bytesRead).toNat) m (r.block b bytesRead m) := by
  have hstores : ∀ val, StoredTo (bytesFrom (r.output + bytesRead) (r.bytesInBlock b bytesRead).toNat) m
      (store (fun i => r.output + bytesRead + UInt32.ofNat i) val (r.bytesInBlock b bytesRead).toNat 0 m) := by
    intro val
    have h := store_storedTo (fun i => r.output + bytesRead + UInt32.ofNat i) val
      (r.bytesInBlock b bytesRead).toNat 0 m
    simp only [Nat.zero_add] at h
    exact h
  unfold ReadFile.block
  by_cases hhole : r.inode.iBlock b.toNat = 0
  · simp only [if_pos hhole]
    exact hstores _
  · simp only [if_neg hhole]
    exact hstores _

/-- The loop writes to the addresses of the list, in order. -/
theorem ReadFile.loop_stores (r : ReadFile) (fuel : Nat) (b bytesRead : UInt32) (m : Mem) :
    StoredTo (r.writes fuel b bytesRead) m (r.loop fuel b bytesRead m).1 := by
  induction fuel generalizing b bytesRead m with
  | zero => exact .nil m
  | succ fuel ih =>
      rw [ReadFile.loop, ReadFile.writes]
      by_cases hmore : b < 12 ∧ b < r.blocksToRead ∧ bytesRead < r.bufLen
      · rw [if_pos hmore, if_pos hmore]
        exact (ReadFile.block_stores m).append (ih _ _ _)
      · rw [if_neg hmore, if_neg hmore]
        exact .nil m

/-- **The loop** writes to the buffer from the count of bytes read on, up to the count it ends with. -/
theorem ReadFile.loop_writes (hoff : r.startOffset.toNat < r.fs.blockSize.toNat)
    (hend : r.blocksToRead.toNat * r.fs.blockSize.toNat < 2 ^ 32) {fuel : Nat} {m : Mem}
    (hread : bytesRead.toNat ≤ b.toNat * r.fs.blockSize.toNat) (hbuf : bytesRead ≤ r.bufLen) :
    bytesRead.toNat ≤ (r.loop fuel b bytesRead m).2.toNat ∧ (r.loop fuel b bytesRead m).2 ≤ r.bufLen ∧
    r.writes fuel b bytesRead
      = bytesFrom (r.output + bytesRead) ((r.loop fuel b bytesRead m).2.toNat - bytesRead.toNat) := by
  have hstop : bytesFrom (r.output + bytesRead) (bytesRead.toNat - bytesRead.toNat) = [] := by
    rw [Nat.sub_self]
    rfl
  induction fuel generalizing b bytesRead m with
  | zero => exact ⟨Nat.le_refl _, hbuf, hstop.symm⟩
  | succ fuel ih =>
      rw [ReadFile.loop, ReadFile.writes]
      by_cases hmore : b < 12 ∧ b < r.blocksToRead ∧ bytesRead < r.bufLen
      case neg =>
        rw [if_neg hmore, if_neg hmore]
        exact ⟨Nat.le_refl _, hbuf, hstop.symm⟩
      obtain ⟨hnat, hnext⟩ := ReadFile.bytesRead_next hoff hend hread ⟨hmore.1, hmore.2.1⟩ hmore.2.2
      obtain ⟨hgrows, hcut, hwrites⟩ := @ih (b + 1) (bytesRead + r.bytesInBlock b bytesRead)
        (r.block b bytesRead m) hnext ReadFile.bytesInBlock_cut (by rw [Nat.sub_self]; rfl)
      rw [if_pos hmore, if_pos hmore]
      generalize r.loop fuel (b + 1) (bytesRead + r.bytesInBlock b bytesRead) (r.block b bytesRead m) = result
        at hgrows hcut hwrites ⊢
      refine ⟨by omega, hcut, ?_⟩
      -- the parts of the buffer follow each other
      have hsplit : result.2.toNat - bytesRead.toNat = (r.bytesInBlock b bytesRead).toNat
          + (result.2.toNat - (bytesRead + r.bytesInBlock b bytesRead).toNat) := by omega
      rw [hsplit, bytesFrom_add, hwrites, UInt32.ofNat_toNat, UInt32.add_assoc]

end Loop

section Enter

variable {fs : Ext2Fs} {inode : Inode} {outBuf bufLen offset : UInt32}

/-- The length of the buffer is not made larger, whether the end of the range wraps or not. -/
theorem enter_bufLen_le (hmore : offset < inode.iSizeLo) :
    (ReadFile.enter fs inode outBuf bufLen offset).bufLen ≤ bufLen := by
  rw [UInt32.le_iff_toNat_le]
  rcases Nat.lt_or_ge (offset.toNat + bufLen.toNat) (2 ^ 32) with hend | hwrap
  · rw [enter_bufLen outBuf hend hmore]
    exact Nat.min_le_left _ _
  · rw [(enter_bufLen_wrap hmore hwrap).2]

theorem enter_blocksToRead_mul (hbs : 0 < fs.blockSize.toNat) :
    (ReadFile.enter fs inode outBuf bufLen offset).blocksToRead.toNat * fs.blockSize.toNat < 2 ^ 32 := by
  rw [enter_blocksToRead outBuf hbs]
  exact Nat.lt_of_le_of_lt (Nat.div_mul_le_self _ _) (Nat.mod_lt _ (by decide))

/-- **The memory after a file read**: one store to each address of `fileWrites`, in order. -/
theorem ext2ReadFile_stores {m m' : Mem} {n : UInt32}
    (hread : ext2ReadFile m fs inode outBuf bufLen offset = .ok (m', n)) :
    StoredTo (fileWrites fs inode outBuf bufLen offset) m m' := by
  unfold ext2ReadFile at hread
  unfold fileWrites
  by_cases hnull : outBuf = 0
  · rw [if_pos hnull] at hread
    rw [if_pos (.inl hnull)]
    cases hread
    exact .nil m
  by_cases hpast : offset ≥ inode.iSizeLo
  · rw [if_neg hnull, if_pos hpast] at hread
    rw [if_pos (.inr (.inl hpast))]
    cases hread
    exact .nil m
  by_cases hzero : fs.blockSize = 0
  · rw [if_neg hnull, if_neg hpast, if_pos hzero] at hread
    cases hread
  · rw [if_neg hnull, if_neg hpast, if_neg hzero] at hread
    rw [if_neg (not_or.mpr ⟨hnull, not_or.mpr ⟨hpast, hzero⟩⟩)]
    have hloop := (ReadFile.enter fs inode outBuf bufLen offset).loop_stores 12
      (ReadFile.enter fs inode outBuf bufLen offset).startBlock 0 m
    rw [show _ = (m', n) from Except.ok.inj hread] at hloop
    exact hloop

/-- **What a file read writes.** For every inode, block size, buffer, length and offset, with all ways in
    which the sums of the read may wrap: it returns a count of at most `bufLen`, writes to that many bytes
    of the buffer from its start on, one after the other and each once, and leaves the rest of memory as
    it is. -/
theorem ext2ReadFile_writes {k : Nat} (hk : k ≤ 21) (hsize : fs.BlockSized k) (m : Mem) (inode : Inode)
    (outBuf bufLen offset : UInt32) :
    ∃ m' n, ext2ReadFile m fs inode outBuf bufLen offset = .ok (m', n) ∧ n ≤ bufLen ∧
      fileWrites fs inode outBuf bufLen offset = (List.range n.toNat).map (fun i => outBuf + UInt32.ofNat i) ∧
      (fileWrites fs inode outBuf bufLen offset).Nodup ∧
      ∀ a ∉ fileWrites fs inode outBuf bufLen offset, m' a = m a := by
  have hbs := (hsize.dvd hk).1
  have hzero := Ext2Fs.blockSize_ne_zero hbs
  suffices hlist : ∃ m' n, ext2ReadFile m fs inode outBuf bufLen offset = .ok (m', n) ∧ n ≤ bufLen ∧
      fileWrites fs inode outBuf bufLen offset = bytesFrom outBuf n.toNat by
    obtain ⟨m', n, hread, hle, hwrites⟩ := hlist
    refine ⟨m', n, hread, hle, hwrites, ?_, fun a ha => (ext2ReadFile_stores hread).frame ha⟩
    rw [hwrites]
    exact bytesFrom_nodup (UInt32.toNat_lt n)
  unfold ext2ReadFile fileWrites
  by_cases hnull : outBuf = 0
  · rw [if_pos hnull, if_pos (.inl hnull)]
    exact ⟨m, 0, rfl, UInt32.zero_le, rfl⟩
  by_cases hpast : offset ≥ inode.iSizeLo
  · rw [if_neg hnull, if_pos hpast, if_pos (.inr (.inl hpast))]
    exact ⟨m, 0, rfl, UInt32.zero_le, rfl⟩
  rw [if_neg hnull, if_neg hpast, if_neg hzero, if_neg (not_or.mpr ⟨hnull, not_or.mpr ⟨hpast, hzero⟩⟩)]
  simp only
  have hmore := UInt32.not_le.mp hpast
  have hoff : (ReadFile.enter fs inode outBuf bufLen offset).startOffset.toNat < fs.blockSize.toNat := by
    show (offset % fs.blockSize).toNat < _
    rw [UInt32.toNat_mod]
    exact Nat.mod_lt _ hbs
  have hend := @enter_blocksToRead_mul fs inode outBuf bufLen offset hbs
  have hbuf := @enter_bufLen_le fs inode outBuf bufLen offset hmore
  obtain ⟨-, hcut, hwrites⟩ := @ReadFile.loop_writes (ReadFile.enter fs inode outBuf bufLen offset)
    (ReadFile.enter fs inode outBuf bufLen offset).startBlock 0 hoff hend 12 m (Nat.zero_le _) UInt32.zero_le
  refine ⟨_, _, rfl, UInt32.le_trans hcut hbuf, ?_⟩
  rw [hwrites, UInt32.add_zero]
  rfl

end Enter

/-- A read whose range wraps, of a file of 5 bytes. -/
theorem ext2ReadFile_writes_fiveBytes : ∃ m' n,
    ext2ReadFile (fun _ => 0) smallFs fiveBytes 0x300000 0xFFFFFFFF 3 = .ok (m', n) ∧
    fileWrites smallFs fiveBytes 0x300000 0xFFFFFFFF 3
      = (List.range n.toNat).map (fun i => 0x300000 + UInt32.ofNat i) := by
  obtain ⟨m', n, hread, -, hwrites, -⟩ :=
    ext2ReadFile_writes (by decide) smallFs_blockSized (fun _ => 0) fiveBytes 0x300000 0xFFFFFFFF 3
  exact ⟨m', n, hread, hwrites⟩

end Drupe
