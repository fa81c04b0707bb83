import Drupe.Filesystem.Correctness.ReadFile

/-!
# `Filesystem.Correctness.ReadBounds` — how many bytes a read may deliver

A read should stop at the end of the file, and should deliver something while there is something left. The
sums of `ext2_read_file` are 32-bit sums of what the caller passes, and when one of them wraps the read
does something else: it delivers nothing, or goes on to the end of its first block
(`ext2ReadFile_wrapped`). `ext2ReadFile_bounds_iff` says exactly which requests are served as they should be.
-/

namespace Drupe

open Lib

/-- **What a read owes its caller**: no byte from the end of the file on, and a byte at least when there
    is one in the direct blocks and it is asked for. -/
structure DeliversWithin (fs : Ext2Fs) (inode : Inode) (bufLen offset n : Nat) : Prop where
  end_of_file : offset < inode.iSizeLo.toNat → n ≤ inode.iSizeLo.toNat - offset
  past_end : inode.iSizeLo.toNat ≤ offset → n = 0
  progress : offset < inode.iSizeLo.toNat → offset < 12 * fs.blockSize.toNat → 0 < bufLen → 0 < n

/-- **When it does.** There is nothing to deliver; or, with a buffer, the end of the range does not wrap, and
    the blocks up to it (or to the end of the file) can be counted; or the range wraps around to its
    first block again, and that block is all file. -/
def Servable (fs : Ext2Fs) (inode : Inode) (outBuf : UInt32) (bufLen offset : Nat) : Prop :=
  inode.iSizeLo.toNat ≤ offset ∨ 12 * fs.blockSize.toNat ≤ offset ∨ bufLen = 0 ∨
  (outBuf ≠ 0 ∧
    ((offset + bufLen < 2 ^ 32 ∧
        min (offset + bufLen) inode.iSizeLo.toNat + fs.blockSize.toNat ≤ 2 ^ 32) ∨
      (2 ^ 32 < bufLen + offset % fs.blockSize.toNat ∧
        (offset / fs.blockSize.toNat + 1) * fs.blockSize.toNat ≤ inode.iSizeLo.toNat)))

/-- Such a block size divides the address space. -/
theorem Ext2Fs.BlockSized.dvd {fs : Ext2Fs} {k : Nat} (h : fs.BlockSized k) (hk : k ≤ 21) :
    0 < fs.blockSize.toNat ∧ ∃ c, 2 ≤ c ∧ 2 ^ 32 = c * fs.blockSize.toNat := by
  have hpow : fs.blockSize.toNat = 2 ^ (10 + k) := by
    rw [h, Nat.pow_add]
  refine ⟨by rw [hpow]; exact Nat.two_pow_pos _, 2 ^ (22 - k), ?_, ?_⟩
  · calc 2 = 2 ^ 1 := rfl
      _ ≤ 2 ^ (22 - k) := Nat.pow_le_pow_right (by decide) (by omega)
  · rw [hpow, ← Nat.pow_add]
    congr 1
    omega

section Read

variable {fs : Ext2Fs} {inode : Inode} {outBuf bufLen offset : UInt32}

/-- A read that does not wrap delivers what there is. -/
theorem ext2ReadFile_cut (m : Mem) (hout : outBuf ≠ 0)
    (hfits : CutFits fs inode bufLen.toNat offset.toNat) :
    ∃ m' n, ext2ReadFile m fs inode outBuf bufLen offset = .ok (m', n) ∧
      n.toNat = readCount fs inode bufLen.toNat offset.toNat := by
  obtain ⟨n, hn, hread⟩ := ext2ReadFile_eq m (fun h0 : outBuf = 0 => absurd h0 hout) hfits
  exact ⟨_, n, hread, hn⟩

/-- A read whose count of blocks wraps delivers nothing. -/
theorem ext2ReadFile_uncounted (m : Mem) (hbs : 0 < fs.blockSize.toNat) (hmore : offset < inode.iSizeLo)
    (hend : offset.toNat + bufLen.toNat < 2 ^ 32)
    (hwrap : 2 ^ 32 < min (offset.toNat + bufLen.toNat) inode.iSizeLo.toNat + fs.blockSize.toNat) :
    ext2ReadFile m fs inode outBuf bufLen offset = .ok (m, 0) := by
  have hcut := @enter_bufLen fs inode bufLen offset outBuf hend hmore
  have hlt := UInt32.lt_iff_toNat_lt.mp hmore
  apply ext2ReadFile_noBlock m hbs
  rw [enter_blocksToRead outBuf hbs, Nat.div_eq_of_lt]
  · exact Nat.zero_le _
  · generalize (ReadFile.enter fs inode outBuf bufLen offset).bufLen = cut at hcut
    rw [UInt32.toNat_add]
    omega

/-! ## Ranges that wrap -/

/-- The end of a range that wraps is below its start, so the buffer is not cut to the file. -/
theorem enter_bufLen_wrap (hmore : offset < inode.iSizeLo)
    (hwrap : 2 ^ 32 ≤ offset.toNat + bufLen.toNat) :
    (offset + bufLen).toNat = offset.toNat + bufLen.toNat - 2 ^ 32 ∧
    (ReadFile.enter fs inode outBuf bufLen offset).bufLen = bufLen := by
  have hlt := UInt32.lt_iff_toNat_lt.mp hmore
  have hbuf := bufLen.toNat_lt
  have hoff := offset.toNat_lt
  have hsum : (offset + bufLen).toNat = offset.toNat + bufLen.toNat - 2 ^ 32 := by
    rw [UInt32.toNat_add]
    omega
  refine ⟨hsum, ?_⟩
  unfold ReadFile.enter
  simp only
  rw [if_neg]
  intro hcut
  have := UInt32.lt_iff_toNat_lt.mp hcut
  omega

/-- The number of blocks up to byte `w`, when byte `o` that starts the range comes after it: none past the
    block of `o`, and that block too exactly when `w` is past its start. -/
theorem blocks_wrapped {w o bs : Nat} (hbs : 0 < bs) (hlt : w < o) :
    (w + bs - 1) / bs = o / bs + 1 ∧ o / bs * bs < w ∨ (w + bs - 1) / bs ≤ o / bs ∧ w ≤ o / bs * bs := by
  have hdiv := Nat.div_add_mod o bs
  have hmod := Nat.mod_lt o hbs
  rw [Nat.mul_comm] at hdiv
  rcases Nat.lt_or_ge (o / bs * bs) w with hin | hout
  · refine .inl ⟨?_, hin⟩
    rw [Nat.div_eq_iff hbs, Nat.add_mul, Nat.one_mul]
    omega
  · refine .inr ⟨?_, hout⟩
    apply Nat.le_of_lt_succ
    rw [Nat.div_lt_iff_lt_mul hbs, Nat.succ_mul]
    omega

/-- A loop that is to read its first block only. -/
theorem ReadFile.loop_one {r : ReadFile} (m : Mem) (hdirect : r.startBlock.toNat < 12)
    (hblocks : r.blocksToRead.toNat = r.startBlock.toNat + 1) (hbuf : 0 < r.bufLen) :
    (r.loop 12 r.startBlock 0 m).2 = r.bytesInBlock r.startBlock 0 := by
  have hsucc : (r.startBlock + 1).toNat = r.startBlock.toNat + 1 := toNat_add_ofNat (k := 1) (by omega)
  have hfirst : r.startBlock < 12 ∧ r.startBlock < r.blocksToRead ∧ 0 < r.bufLen :=
    ⟨UInt32.lt_iff_toNat_lt.mpr hdirect, UInt32.lt_iff_toNat_lt.mpr (by omega), hbuf⟩
  rw [ReadFile.loop, if_pos hfirst, ReadFile.loop, if_neg, UInt32.zero_add]
  rintro ⟨-, hlt, -⟩
  have := UInt32.lt_iff_toNat_lt.mp hlt
  omega

/-- The first block is read to its end when the buffer is large enough. -/
theorem ReadFile.bytesInBlock_first {r : ReadFile} (hoff : r.startOffset.toNat < r.fs.blockSize.toNat)
    (hbuf : r.fs.blockSize.toNat - r.startOffset.toNat ≤ r.bufLen.toNat) :
    (r.bytesInBlock r.startBlock 0).toNat = r.fs.blockSize.toNat - r.startOffset.toNat := by
  have hrest : (r.fs.blockSize - r.startOffset).toNat
      = r.fs.blockSize.toNat - r.startOffset.toNat :=
    UInt32.toNat_sub_of_le _ _ (UInt32.le_iff_toNat_le.mpr (by omega))
  unfold ReadFile.bytesInBlock
  simp only [if_true, UInt32.zero_add]
  rw [if_neg]
  · exact hrest
  · intro hcut
    have hlt := UInt32.lt_iff_toNat_lt.mp hcut
    rw [hrest] at hlt
    omega

/-- **A range that wraps.** The read goes to the end of its first block when the range comes around into that
    block, whatever the size of the file, and delivers nothing otherwise. -/
theorem ext2ReadFile_wrapped (m : Mem) (hout : outBuf ≠ 0) (hbs : 0 < fs.blockSize.toNat)
    (hhalf : 2 * fs.blockSize.toNat ≤ 2 ^ 32) (hmore : offset < inode.iSizeLo)
    (hdirect : offset.toNat < 12 * fs.blockSize.toNat)
    (hwrap : 2 ^ 32 ≤ offset.toNat + bufLen.toNat) :
    ∃ m' n, ext2ReadFile m fs inode outBuf bufLen offset = .ok (m', n) ∧
      n.toNat = if offset.toNat + bufLen.toNat + fs.blockSize.toNat ≤ 2 * 2 ^ 32 ∧
          2 ^ 32 < bufLen.toNat + offset.toNat % fs.blockSize.toNat
        then fs.blockSize.toNat - offset.toNat % fs.blockSize.toNat else 0 := by
  obtain ⟨hsum, hkept⟩ := @enter_bufLen_wrap fs inode outBuf bufLen offset hmore hwrap
  have hblocks := @enter_blocksToRead fs inode bufLen offset outBuf hbs
  rw [hkept, hsum] at hblocks
  have hbuf := bufLen.toNat_lt
  have hoff := offset.toNat_lt
  have hdiv := Nat.div_add_mod offset.toNat fs.blockSize.toNat
  have hmod := Nat.mod_lt offset.toNat hbs
  rw [Nat.mul_comm] at hdiv
  rcases Nat.lt_or_ge (2 * 2 ^ 32) (offset.toNat + bufLen.toNat + fs.blockSize.toNat) with hover | hcount
  -- the sum for the blocks wraps as well
  · refine ⟨m, 0, ?_, by rw [if_neg (by omega)]; rfl⟩
    apply ext2ReadFile_noBlock m hbs
    rw [hblocks, Nat.div_eq_of_lt (by omega)]
    exact Nat.zero_le _
  rw [Nat.mod_eq_of_lt (by omega)] at hblocks
  rcases @blocks_wrapped (offset.toNat + bufLen.toNat - 2 ^ 32) offset.toNat _ hbs (by omega) with
    ⟨hone, hin⟩ | ⟨hnone, hbefore⟩
  · have hread : ext2ReadFile m fs inode outBuf bufLen offset
        = .ok ((ReadFile.enter fs inode outBuf bufLen offset).loop 12
          (ReadFile.enter fs inode outBuf bufLen offset).startBlock 0 m) := by
      unfold ext2ReadFile
      rw [if_neg hout, if_neg (UInt32.not_le.mpr hmore), if_neg (Ext2Fs.blockSize_ne_zero hbs)]
    have hfs : (ReadFile.enter fs inode outBuf bufLen offset).fs = fs := rfl
    have hstart : (ReadFile.enter fs inode outBuf bufLen offset).startBlock.toNat
        = offset.toNat / fs.blockSize.toNat := UInt32.toNat_div _ _
    have hcopy : (ReadFile.enter fs inode outBuf bufLen offset).startOffset.toNat
        = offset.toNat % fs.blockSize.toNat := UInt32.toNat_mod _ _
    generalize ReadFile.enter fs inode outBuf bufLen offset = r at *
    rw [hone, ← hstart] at hblocks
    have hdirect' : r.startBlock.toNat < 12 := by
      rw [hstart]
      exact Nat.div_lt_of_lt_mul (by rw [Nat.mul_comm]; exact hdirect)
    have hnonempty : 0 < r.bufLen := by
      rw [hkept, UInt32.lt_iff_toNat_lt]
      show 0 < bufLen.toNat
      omega
    refine ⟨(r.loop 12 r.startBlock 0 m).1, (r.loop 12 r.startBlock 0 m).2, hread, ?_⟩
    rw [ReadFile.loop_one m hdirect' hblocks hnonempty, if_pos (by omega)]
    -- a range that comes around is longer than a block
    rw [ReadFile.bytesInBlock_first, hfs, hcopy]
    · rw [hfs, hcopy]
      exact hmod
    · rw [hfs, hcopy, hkept]
      omega
  · refine ⟨m, 0, ?_, by rw [if_neg (by omega)]; rfl⟩
    apply ext2ReadFile_noBlock m hbs
    rw [hblocks]
    exact hnone

/-! ## Every request -/

/-- Past the end of the file or of its direct blocks, for an empty buffer, or with no buffer, a read delivers
    nothing. -/
theorem ext2ReadFile_nothing (m : Mem) (hbs : 0 < fs.blockSize.toNat)
    (h : inode.iSizeLo.toNat ≤ offset.toNat ∨ 12 * fs.blockSize.toNat ≤ offset.toNat ∨
      bufLen.toNat = 0 ∨ outBuf = 0) :
    ∃ m', ext2ReadFile m fs inode outBuf bufLen offset = .ok (m', 0) := by
  unfold ext2ReadFile
  by_cases hnull : outBuf = 0
  · rw [if_pos hnull]
    exact ⟨m, rfl⟩
  by_cases hend : offset ≥ inode.iSizeLo
  · rw [if_neg hnull, if_pos hend]
    exact ⟨m, rfl⟩
  rw [if_neg hnull, if_neg hend, if_neg (Ext2Fs.blockSize_ne_zero hbs)]
  have hmore := UInt32.lt_iff_toNat_lt.mp (UInt32.not_le.mp hend)
  refine ⟨m, ?_⟩
  simp only
  rw [ReadFile.loop, if_neg]
  rintro ⟨hb, -, hbuf⟩
  have hb12 : offset.toNat / fs.blockSize.toNat < 12 := by
    rw [← UInt32.toNat_div]
    exact UInt32.lt_iff_toNat_lt.mp hb
  have hin := Nat.lt_mul_of_div_lt hb12 hbs
  rcases h with hpast | hblocks | hempty | hout
  · omega
  · omega
  · have hzero : bufLen = 0 := UInt32.toNat_inj.mp hempty
    have hcut : ¬ offset + bufLen > inode.iSizeLo := by
      rw [hzero, UInt32.add_zero]
      exact UInt32.not_lt.mpr (UInt32.le_of_lt (UInt32.not_le.mp hend))
    have hkept : (ReadFile.enter fs inode outBuf bufLen offset).bufLen = bufLen := if_neg hcut
    rw [hkept, hzero] at hbuf
    exact absurd hbuf (UInt32.lt_irrefl 0)
  · exact hnull hout

theorem delivers_iff {m m' : Mem} {n : UInt32}
    (hread : ext2ReadFile m fs inode outBuf bufLen offset = .ok (m', n)) :
    (∃ m' n, ext2ReadFile m fs inode outBuf bufLen offset = .ok (m', n) ∧
      DeliversWithin fs inode bufLen.toNat offset.toNat n.toNat) ↔
      DeliversWithin fs inode bufLen.toNat offset.toNat n.toNat := by
  constructor
  · rintro ⟨m'', n', h, hn⟩
    rw [hread] at h
    rw [(Prod.mk.inj (Except.ok.inj h)).2]
    exact hn
  · intro hn
    exact ⟨m', n, hread, hn⟩

/-- To deliver nothing is enough exactly when there is nothing to deliver. -/
theorem DeliversWithin.zero_iff {bufLen offset : Nat} :
    DeliversWithin fs inode bufLen offset 0 ↔
      inode.iSizeLo.toNat ≤ offset ∨ 12 * fs.blockSize.toNat ≤ offset ∨ bufLen = 0 := by
  constructor
  · intro h
    by_contra hnot
    simp only [not_or, Nat.not_le] at hnot
    obtain ⟨hmore, hdirect, hasked⟩ := hnot
    exact Nat.lt_irrefl 0 (h.progress hmore hdirect (Nat.pos_of_ne_zero hasked))
  · intro h
    exact ⟨fun _ => Nat.zero_le _, fun _ => rfl, fun hmore hdirect hasked => by omega⟩

/-- What a read that does not wrap delivers is enough. -/
theorem DeliversWithin.of_readCount {bufLen offset : Nat} :
    DeliversWithin fs inode bufLen offset (readCount fs inode bufLen offset) := by
  unfold readCount
  exact ⟨fun _ => by omega, fun _ => by omega, fun _ _ _ => by omega⟩

/-- After a block that ends below `c` blocks there is another one. -/
theorem next_block_le {b c bs : Nat} (h : (b + 1) * bs < c * bs) : (b + 2) * bs ≤ c * bs :=
  Nat.mul_le_mul_right bs (Nat.succ_le_of_lt (Nat.lt_of_mul_lt_mul_right h))

/-- A read that wraps delivers what it owes when it does come around, and into a block that is all file. -/
theorem DeliversWithin.wrapped_iff {k : Nat} (hk : k ≤ 21) (hsize : fs.BlockSized k)
    (hmore : offset.toNat < inode.iSizeLo.toNat) (hdirect : offset.toNat < 12 * fs.blockSize.toNat)
    (hwrap : 2 ^ 32 ≤ offset.toNat + bufLen.toNat) :
    DeliversWithin fs inode bufLen.toNat offset.toNat
      (if offset.toNat + bufLen.toNat + fs.blockSize.toNat ≤ 2 * 2 ^ 32 ∧
          2 ^ 32 < bufLen.toNat + offset.toNat % fs.blockSize.toNat
        then fs.blockSize.toNat - offset.toNat % fs.blockSize.toNat else 0) ↔
      2 ^ 32 < bufLen.toNat + offset.toNat % fs.blockSize.toNat ∧
        (offset.toNat / fs.blockSize.toNat + 1) * fs.blockSize.toNat ≤ inode.iSizeLo.toNat := by
  obtain ⟨hbs, c, -, hc⟩ := hsize.dvd hk
  have hdiv := Nat.div_add_mod offset.toNat fs.blockSize.toNat
  have hmod := Nat.mod_lt offset.toNat hbs
  have hsize' := inode.iSizeLo.toNat_lt
  have hbuf := bufLen.toNat_lt
  have hoff := offset.toNat_lt
  rw [Nat.mul_comm] at hdiv
  constructor
  · intro h
    have hpos := h.progress hmore hdirect (by omega)
    split at hpos
    · rename_i hround
      have hle := h.end_of_file hmore
      rw [if_pos hround] at hle
      refine ⟨hround.2, ?_⟩
      rw [Nat.succ_mul]
      omega
    · exact absurd hpos (Nat.lt_irrefl 0)
  · rintro ⟨hround, hblock⟩
    -- the block after the first one still begins below the end of the address space
    have hnext := @next_block_le (offset.toNat / fs.blockSize.toNat) c fs.blockSize.toNat (by omega)
    rw [← hc, Nat.add_mul] at hnext
    rw [Nat.succ_mul] at hblock
    rw [if_pos (by omega)]
    exact ⟨fun _ => by omega, fun h => by omega, fun _ _ _ => by omega⟩

/-- **Which reads stay within the file and make progress.** For every block size, image, file, buffer, offset
    and length: a read delivers what it owes exactly when the request is `Servable`. -/
theorem ext2ReadFile_bounds_iff {k : Nat} (hk : k ≤ 21) (hsize : fs.BlockSized k) (m : Mem) (inode : Inode)
    (outBuf bufLen offset : UInt32) :
    (∃ m' n, ext2ReadFile m fs inode outBuf bufLen offset = .ok (m', n) ∧
      DeliversWithin fs inode bufLen.toNat offset.toNat n.toNat) ↔
      Servable fs inode outBuf bufLen.toNat offset.toNat := by
  obtain ⟨hbs, c, hc2, hc⟩ := hsize.dvd hk
  have hhalf : 2 * fs.blockSize.toNat ≤ 2 ^ 32 := by
    rw [hc]
    exact Nat.mul_le_mul_right _ hc2
  by_cases hasked : inode.iSizeLo.toNat ≤ offset.toNat ∨ 12 * fs.blockSize.toNat ≤ offset.toNat ∨
      bufLen.toNat = 0
  · obtain ⟨m', hread⟩ := @ext2ReadFile_nothing fs inode outBuf bufLen offset m hbs (by tauto)
    rw [delivers_iff hread]
    refine iff_of_true (DeliversWithin.zero_iff.mpr hasked) ?_
    unfold Servable
    tauto
  -- from here on, delivering nothing is not enough
  have howed : ¬ DeliversWithin fs inode bufLen.toNat offset.toNat (0 : UInt32).toNat :=
    fun h => hasked (DeliversWithin.zero_iff.mp h)
  simp only [not_or, Nat.not_le] at hasked
  obtain ⟨hmore, hdirect, hlen⟩ := hasked
  have hmore' : offset < inode.iSizeLo := UInt32.lt_iff_toNat_lt.mpr hmore
  unfold Servable
  rw [or_iff_right (Nat.not_le.mpr hmore), or_iff_right (Nat.not_le.mpr hdirect), or_iff_right hlen]
  by_cases hout : outBuf = 0
  · obtain ⟨m', hread⟩ := @ext2ReadFile_nothing fs inode outBuf bufLen offset m hbs (.inr (.inr (.inr hout)))
    rw [delivers_iff hread]
    exact iff_of_false howed fun h => h.1 hout
  rw [and_iff_right hout]
  rcases Nat.lt_or_ge (offset.toNat + bufLen.toNat) (2 ^ 32) with hend | hwrap
  · have hin : offset.toNat % fs.blockSize.toNat ≤ offset.toNat := Nat.mod_le _ _
    rw [or_iff_left (by omega), and_iff_right hend]
    by_cases hfit : min (offset.toNat + bufLen.toNat) inode.iSizeLo.toNat + fs.blockSize.toNat ≤ 2 ^ 32
    · obtain ⟨m', n, hread, hn⟩ := ext2ReadFile_cut m hout ⟨hbs, hend, hfit⟩
      rw [delivers_iff hread, hn]
      exact iff_of_true DeliversWithin.of_readCount hfit
    · have hread := @ext2ReadFile_uncounted fs inode outBuf bufLen offset m hbs hmore' hend (by omega)
      rw [delivers_iff hread]
      exact iff_of_false howed hfit
  · obtain ⟨m', n, hread, hn⟩ := ext2ReadFile_wrapped m hout hbs hhalf hmore' hdirect hwrap
    rw [delivers_iff hread, hn, or_iff_right (by omega)]
    exact DeliversWithin.wrapped_iff hk hsize hmore hdirect hwrap

end Read

theorem ext2ReadFile_bounds_iff_fiveBytes :
    ∃ m' n, ext2ReadFile (fun _ => 0) smallFs fiveBytes 0x1000 1024 0 = .ok (m', n) ∧
      DeliversWithin smallFs fiveBytes 1024 0 n.toNat :=
  (ext2ReadFile_bounds_iff (by decide) smallFs_blockSized (fun _ => 0) fiveBytes 0x1000 1024 0).mpr
    (.inr (.inr (.inr ⟨by decide, .inl (by decide)⟩)))

/-- A file that ends early in its second block. -/
def shortTail : Inode :=
  Vector.ofFn fun i => if i.val = 4 then 6 else if i.val = 5 then 4 else if i.val = 40 then 1 else 0

/-- A read of the five bytes from the second one on, into a buffer of `2^32 - 1` bytes, delivers nothing; and
    a read that comes around into the last block of a file goes on to the end of the block. -/
theorem ext2ReadFile_wrap_failures :
    (∃ m' n, ext2ReadFile (fun _ => 0) smallFs fiveBytes 0x1000 0xFFFFFFFF 1 = .ok (m', n) ∧
      n = 0 ∧ ¬ DeliversWithin smallFs fiveBytes 0xFFFFFFFF 1 n.toNat) ∧
    ∃ m' n, ext2ReadFile (fun _ => 0) smallFs shortTail 0x1000 0xFFFFFFFF 1026 = .ok (m', n) ∧
      shortTail.iSizeLo = 1030 ∧ n = 1022 ∧ ¬ DeliversWithin smallFs shortTail 0xFFFFFFFF 1026 n.toNat := by
  obtain ⟨m₁, n₁, hread₁, hn₁⟩ := @ext2ReadFile_wrapped smallFs fiveBytes 0x1000 0xFFFFFFFF 1
    (fun _ => 0) (by decide) (by decide) (by decide) (by decide) (by decide) (by decide)
  obtain ⟨m₂, n₂, hread₂, hn₂⟩ := @ext2ReadFile_wrapped smallFs shortTail 0x1000 0xFFFFFFFF 1026
    (fun _ => 0) (by decide) (by decide) (by decide) (by decide) (by decide) (by decide)
  have hzero : n₁ = 0 := UInt32.toNat_inj.mp (hn₁.trans (by decide))
  have hover : n₂ = 1022 := UInt32.toNat_inj.mp (hn₂.trans (by decide))
  refine ⟨⟨m₁, n₁, hread₁, hzero, ?_⟩, m₂, n₂, hread₂, by decide, hover, ?_⟩
  · intro h
    have hpos := h.progress (by decide) (by decide) (by decide)
    rw [hzero] at hpos
    exact absurd hpos (by decide)
  · intro h
    have hle := h.end_of_file (by decide)
    rw [hover] at hle
    exact absurd hle (by decide)

end Drupe
