import Drupe.Filesystem.Correctness.Mount

/-!
# `Filesystem.Correctness.ImageReads` — which bytes of the image are read

The driver has no length of the image to check anything against: inode numbers other than 0 and block pointers
other than 0 are followed as they are. `inodeReads`, `fileReads` and `dirReads` list the bytes of the image
that each function reads, in order; each function is determined by the bytes of its list
(`ext2ReadInode_congr`, `ext2ReadFile_congr`, `ext2ReadDir_congr`).

So what is read lies in the image when the pointers lead there (`imageReads_inside`): the inode's own place,
the blocks of a file, and for a directory the blocks and the bytes a record may run past the end of one.
-/

namespace Drupe

open Lib

/-- The `n` bytes from `a` on. -/
def bytesFrom (a : UInt32) (n : Nat) : List UInt32 := (List.range n).map fun i => a + UInt32.ofNat i

theorem mem_bytesFrom {a x : UInt32} {n : Nat} : x ∈ bytesFrom a n ↔ ∃ i < n, x = a + UInt32.ofNat i := by
  simp [bytesFrom, eq_comm]

/-- The offset of an address in the image. -/
def imageOffset (image a : UInt32) : Nat := (a - image).toNat

theorem imageOffset_add {image p : UInt32} {k : Nat} (h : p.toNat + k < 2 ^ 32) :
    imageOffset image (image + p + UInt32.ofNat k) = p.toNat + k := by
  have hdiff : image + p + UInt32.ofNat k - image = p + UInt32.ofNat k := by grind
  rw [imageOffset, hdiff, toNat_add_ofNat h]

/-! ## What is read -/

/-- The bytes of the image that `ext2ReadInode` reads. The descriptor it looks at is in the copy of the
    table. -/
def inodeReads (m : Mem) (fs : Ext2Fs) (inodeNo : UInt32) : List UInt32 :=
  if inodeNo = 0 ∨ fs.sb.sInodesPerGroup = 0 ∨ fs.blockSize / UInt32.ofNat inodeSize = 0 then []
  else bytesFrom (fs.inodeAddr m inodeNo) inodeSize

/-- The bytes that the loop of `ext2ReadFile` reads. -/
def ReadFile.reads (r : ReadFile) : (fuel : Nat) → (b bytesRead : UInt32) → List UInt32
  | 0, _, _ => []
  | fuel + 1, b, bytesRead =>
    if b < 12 ∧ b < r.blocksToRead ∧ bytesRead < r.bufLen then
      (if r.inode.iBlock b.toNat = 0 then []
        else bytesFrom (r.fs.image + r.inode.iBlock b.toNat * r.fs.blockSize
          + if b = r.startBlock then r.startOffset else 0) (r.bytesInBlock b bytesRead).toNat) ++
      r.reads fuel (b + 1) (bytesRead + r.bytesInBlock b bytesRead)
    else []

/-- The bytes of the image that `ext2ReadFile` reads. -/
def fileReads (fs : Ext2Fs) (inode : Inode) (outBuf bufLen offset : UInt32) : List UInt32 :=
  if outBuf = 0 ∨ offset ≥ inode.iSizeLo ∨ fs.blockSize = 0 then []
  else
    let r := ReadFile.enter fs inode outBuf bufLen offset
    r.reads 12 r.startBlock 0

/-- The bytes that the walk through one block reads: the inode number of a record, the length and the bytes of
    its name if it is live, and the length of the record unless the callback stops the walk. -/
def dirBlockReads {σ : Type} (m : Mem) (fs : Ext2Fs) (block : UInt32) (cb : DirentCb σ) :
    (fuel : Nat) → (offset : UInt32) → σ → List UInt32
  | 0, _, _ => []
  | fuel + 1, offset, ctx =>
    if offset < fs.blockSize then
      let de := block + offset
      let next := fun ctx => bytesFrom (de + 4) 2 ++
        if m.read16 (de + 4) = 0 then []
        else dirBlockReads m fs block cb fuel (offset + m.read16 (de + 4)) ctx
      bytesFrom de 4 ++
        if m.read32 de ≠ 0 then
          bytesFrom (de + 6) 1 ++ bytesFrom (de + 8) (m (de + 6)).toNat ++
            match cb ctx (direntName m de) (m.read32 de) with
            | .ok (ctx, true) => next ctx
            | _ => []
        else next ctx
    else []

/-- The bytes that the walk through the blocks `b`, …, 11 reads. -/
def dirBlocksReads {σ : Type} (m : Mem) (fs : Ext2Fs) (dir : Inode) (blkCount : UInt32) (cb : DirentCb σ) :
    (fuel b : Nat) → σ → List UInt32
  | 0, _, _ => []
  | fuel + 1, b, ctx =>
    if b < blkCount.toNat then
      if dir.iBlock b = 0 then dirBlocksReads m fs dir blkCount cb fuel (b + 1) ctx
      else
        let block := fs.image + dir.iBlock b * fs.blockSize
        dirBlockReads m fs block cb fs.blockSize.toNat 0 ctx ++
          match readDirBlock m fs block cb fs.blockSize.toNat 0 ctx with
          | .ok (ctx, true) => dirBlocksReads m fs dir blkCount cb fuel (b + 1) ctx
          | _ => []
    else []

/-- The bytes of the image that `ext2ReadDir` reads. -/
def dirReads {σ : Type} (m : Mem) (fs : Ext2Fs) (dir : Inode) (cb : DirentCb σ) (ctx : σ) : List UInt32 :=
  if fs.blockSize / 512 = 0 then []
  else dirBlocksReads m fs dir (dir.iBlocks / (fs.blockSize / 512)) cb 12 0 ctx

/-! ## The functions are determined by what they read -/

section Congr

variable {m m' : Mem} {fs : Ext2Fs}

/-- Equal bytes make equal halfwords. -/
theorem read16_congr {a : UInt32} (h : ∀ x ∈ bytesFrom a 2, m' x = m x) : m'.read16 a = m.read16 a := by
  have h0 := h _ (mem_bytesFrom.mpr ⟨0, by decide, rfl⟩)
  have h1 := h _ (mem_bytesFrom.mpr ⟨1, by decide, rfl⟩)
  unfold Mem.read16 word16
  simp only [h0, h1]

theorem read32_congr {a : UInt32} (h : ∀ x ∈ bytesFrom a 4, m' x = m x) : m'.read32 a = m.read32 a :=
  Mem.read32_congr fun i hi => h _ (mem_bytesFrom.mpr ⟨i, hi, rfl⟩)

theorem direntName_congr {de : UInt32} (hlen : m' (de + 6) = m (de + 6))
    (hname : ∀ x ∈ bytesFrom (de + 8) (m (de + 6)).toNat, m' x = m x) :
    direntName m' de = direntName m de := by
  unfold direntName
  rw [hlen]
  congr 1
  apply List.map_congr_left
  intro i hi
  exact hname _ (mem_bytesFrom.mpr ⟨i, List.mem_range.mp hi, rfl⟩)

/-- **`ext2ReadInode`** is determined by the descriptor of the group and by what it reads of the image. -/
theorem ext2ReadInode_congr {inodeNo : UInt32}
    (hdesc : m'.read32 (fs.bgdt + (inodeNo - 1) / fs.sb.sInodesPerGroup * groupDescSize + 8)
      = m.read32 (fs.bgdt + (inodeNo - 1) / fs.sb.sInodesPerGroup * groupDescSize + 8))
    (h : ∀ a ∈ inodeReads m fs inodeNo, m' a = m a) :
    ext2ReadInode m' fs inodeNo = ext2ReadInode m fs inodeNo := by
  have haddr : fs.inodeAddr m' inodeNo = fs.inodeAddr m inodeNo := by
    unfold Ext2Fs.inodeAddr
    simp only [hdesc]
  rw [ext2ReadInode_cases, ext2ReadInode_cases, haddr]
  by_cases hno : inodeNo = 0
  · rw [if_pos hno, if_pos hno]
  by_cases hdiv : fs.sb.sInodesPerGroup = 0 ∨ fs.blockSize / UInt32.ofNat inodeSize = 0
  · rw [if_neg hno, if_neg hno, if_pos hdiv, if_pos hdiv]
  rw [inodeReads, if_neg (not_or.mpr ⟨hno, hdiv⟩)] at h
  rw [Inode.read_congr fun i hi => h _ (mem_bytesFrom.mpr ⟨i, hi, rfl⟩)]

variable {σ : Type} {cb : DirentCb σ}

theorem readDirBlock_congr {block : UInt32} {fuel : Nat} {offset : UInt32} {ctx : σ}
    (h : ∀ a ∈ dirBlockReads m fs block cb fuel offset ctx, m' a = m a) :
    readDirBlock m' fs block cb fuel offset ctx = readDirBlock m fs block cb fuel offset ctx := by
  induction fuel generalizing offset ctx with
  | zero => rfl
  | succ fuel ih =>
      rw [dirBlockReads] at h
      rw [readDirBlock, readDirBlock]
      by_cases hin : offset < fs.blockSize
      · rw [if_pos hin] at h
        rw [if_pos hin, if_pos hin]
        simp only [List.mem_append] at h
        have hinode := read32_congr fun x hx => h x (.inl hx)
        -- from a record on, the walk reads the same
        have hnext : ∀ ctx', (∀ a ∈ bytesFrom (block + offset + 4) 2 ++
              if m.read16 (block + offset + 4) = 0 then []
              else dirBlockReads m fs block cb fuel (offset + m.read16 (block + offset + 4)) ctx', m' a = m a) →
            (if m'.read16 (block + offset + 4) = 0 then .ok (ctx', true)
              else readDirBlock m' fs block cb fuel (offset + m'.read16 (block + offset + 4)) ctx')
            = (if m.read16 (block + offset + 4) = 0 then .ok (ctx', true)
              else readDirBlock m fs block cb fuel (offset + m.read16 (block + offset + 4)) ctx') := by
          intro ctx' hread
          have hlen := read16_congr fun x hx => hread x (List.mem_append_left _ hx)
          rw [hlen]
          by_cases hzero : m.read16 (block + offset + 4) = 0
          · rw [if_pos hzero, if_pos hzero]
          · rw [if_neg hzero, if_neg hzero]
            refine ih fun a ha => hread a (List.mem_append_right _ ?_)
            rw [if_neg hzero]
            exact ha
        by_cases hlive : m.read32 (block + offset) ≠ 0
        · rw [if_pos hlive] at h
          simp only [List.mem_append] at h
          have hlen := h (block + offset + 6)
            (.inr (.inl (.inl (mem_bytesFrom.mpr ⟨0, by decide, (UInt32.add_zero _).symm⟩))))
          have hname := direntName_congr hlen fun x hx => h x (.inr (.inl (.inr hx)))
          simp only [hinode, if_pos hlive, hname]
          cases hcb : cb ctx (direntName m (block + offset)) (m.read32 (block + offset)) with
          | error e => rw [error_bind, error_bind]
          | ok r =>
              obtain ⟨ctx', goOn⟩ := r
              rw [ok_bind, ok_bind]
              cases goOn with
              | false => simp only [Bool.not_false, if_true]
              | true =>
                  refine hnext ctx' fun a ha => h a (.inr (.inr ?_))
                  rw [hcb]
                  exact ha
        · rw [if_neg hlive] at h
          simp only [hinode, if_neg hlive]
          exact hnext ctx fun a ha => h a (.inr ha)
      · rw [if_neg hin, if_neg hin]

theorem readDirBlocks_congr {dir : Inode} {blkCount : UInt32} {fuel b : Nat} {ctx : σ}
    (h : ∀ a ∈ dirBlocksReads m fs dir blkCount cb fuel b ctx, m' a = m a) :
    readDirBlocks m' fs dir blkCount cb fuel b ctx = readDirBlocks m fs dir blkCount cb fuel b ctx := by
  induction fuel generalizing b ctx with
  | zero => rfl
  | succ fuel ih =>
      rw [dirBlocksReads] at h
      rw [readDirBlocks, readDirBlocks]
      by_cases hin : b < blkCount.toNat
      · rw [if_pos hin] at h
        rw [if_pos hin, if_pos hin]
        by_cases hhole : dir.iBlock b = 0
        · rw [if_pos hhole] at h
          rw [if_pos hhole, if_pos hhole]
          exact ih h
        · rw [if_neg hhole] at h
          rw [if_neg hhole, if_neg hhole]
          simp only [List.mem_append] at h
          have hblock := readDirBlock_congr fun a ha => h a (.inl ha)
          simp only [hblock]
          cases hwalk : readDirBlock m fs (fs.image + dir.iBlock b * fs.blockSize) cb fs.blockSize.toNat 0 ctx with
          | error e => rw [error_bind, error_bind]
          | ok r =>
              obtain ⟨ctx', goOn⟩ := r
              rw [ok_bind, ok_bind]
              cases goOn with
              | false => simp only [Bool.false_eq_true, if_false]
              | true =>
                  simp only [if_true]
                  refine ih fun a ha => h a (.inr ?_)
                  rw [hwalk]
                  exact ha
      · rw [if_neg hin, if_neg hin]

/-- **`ext2ReadDir`** is determined by what it reads of the image. -/
theorem ext2ReadDir_congr {dir : Inode} {ctx : σ} (h : ∀ a ∈ dirReads m fs dir cb ctx, m' a = m a) :
    ext2ReadDir m' fs dir cb ctx = ext2ReadDir m fs dir cb ctx := by
  rw [ext2ReadDir_cases, ext2ReadDir_cases]
  by_cases hdiv : fs.blockSize / 512 = 0
  · rw [if_pos hdiv, if_pos hdiv]
  · rw [dirReads, if_neg hdiv] at h
    rw [if_neg hdiv, if_neg hdiv, readDirBlocks_congr h]

/-- Two memories with a region in which they agree, before and after: what is not the same afterwards is as it
    was. -/
structure StaysAlike (R : UInt32 → Prop) (m m' m₁ m₁' : Mem) : Prop where
  agree : ∀ a, R a → m₁' a = m₁ a
  elsewhere : ∀ a, m₁' a = m₁ a ∨ m₁' a = m' a ∧ m₁ a = m a

theorem StaysAlike.trans {R : UInt32 → Prop} {m₁ m₁' m₂ m₂' : Mem} (h : StaysAlike R m m' m₁ m₁')
    (h' : StaysAlike R m₁ m₁' m₂ m₂') : StaysAlike R m m' m₂ m₂' where
  agree := h'.agree
  elsewhere := by
    intro a
    rcases h'.elsewhere a with heq | ⟨hleft', hleft⟩
    · exact .inl heq
    · rw [hleft', hleft]
      exact h.elsewhere a

/-- A block that is read from the region. -/
theorem ReadFile.block_alike {r : ReadFile} {b bytesRead : UInt32} {R : UInt32 → Prop}
    (hreads : r.inode.iBlock b.toNat ≠ 0 → ∀ a ∈ bytesFrom (r.fs.image + r.inode.iBlock b.toNat * r.fs.blockSize
      + if b = r.startBlock then r.startOffset else 0) (r.bytesInBlock b bytesRead).toNat, R a)
    (hagree : ∀ a, R a → m' a = m a) :
    StaysAlike R m m' (r.block b bytesRead m) (r.block b bytesRead m') := by
  -- both branches are loops that store to the buffer what depends on the region at most
  have hstore : ∀ val : Mem → Nat → UInt8,
      (∀ t < (r.bytesInBlock b bytesRead).toNat, ∀ m m' : Mem, (∀ a, R a → m a = m' a) →
        val m (0 + t) = val m' (0 + t)) →
      StaysAlike R m m'
        (store (fun i => r.output + bytesRead + UInt32.ofNat i) val (r.bytesInBlock b bytesRead).toNat 0 m)
        (store (fun i => r.output + bytesRead + UInt32.ofNat i) val (r.bytesInBlock b bytesRead).toNat 0 m') := by
    intro val hval
    refine ⟨fun a ha => store_agree hval hagree (.inl ha), fun a => ?_⟩
    by_cases hin : ∃ t < (r.bytesInBlock b bytesRead).toNat, a = r.output + bytesRead + UInt32.ofNat (0 + t)
    · exact .inl (store_agree hval hagree (.inr hin))
    · refine .inr ⟨store_frame fun t ht heq => hin ⟨t, ht, heq⟩, store_frame fun t ht heq => hin ⟨t, ht, heq⟩⟩
  unfold ReadFile.block
  by_cases hhole : r.inode.iBlock b.toNat = 0
  · simp only [if_pos hhole]
    exact hstore _ fun _ _ _ _ _ => rfl
  · simp only [if_neg hhole]
    refine hstore _ fun t ht m m' hm => ?_
    exact hm _ (hreads hhole _ (mem_bytesFrom.mpr ⟨0 + t, by omega, rfl⟩))

theorem ReadFile.loop_alike {r : ReadFile} {fuel : Nat} {b bytesRead : UInt32} {R : UInt32 → Prop}
    (hreads : ∀ a ∈ r.reads fuel b bytesRead, R a) (hagree : ∀ a, R a → m' a = m a) :
    (r.loop fuel b bytesRead m').2 = (r.loop fuel b bytesRead m).2 ∧
      StaysAlike R m m' (r.loop fuel b bytesRead m).1 (r.loop fuel b bytesRead m').1 := by
  induction fuel generalizing b bytesRead m m' with
  | zero => exact ⟨rfl, hagree, fun a => .inr ⟨rfl, rfl⟩⟩
  | succ fuel ih =>
      rw [ReadFile.reads] at hreads
      rw [ReadFile.loop, ReadFile.loop]
      by_cases hmore : b < 12 ∧ b < r.blocksToRead ∧ bytesRead < r.bufLen
      · rw [if_pos hmore] at hreads
        rw [if_pos hmore, if_pos hmore]
        have hblock : StaysAlike R m m' (r.block b bytesRead m) (r.block b bytesRead m') := by
          refine ReadFile.block_alike (fun hptr a ha => hreads a (List.mem_append_left _ ?_)) hagree
          rw [if_neg hptr]
          exact ha
        obtain ⟨hcount, hrest⟩ := ih (fun a ha => hreads a (List.mem_append_right _ ha)) hblock.agree
        exact ⟨hcount, hblock.trans hrest⟩
      · rw [if_neg hmore, if_neg hmore]
        exact ⟨rfl, hagree, fun a => .inr ⟨rfl, rfl⟩⟩

/-- **`ext2ReadFile`** is determined by what it reads of the image: it returns the same and leaves the
    same, but for what it does not write. -/
theorem ext2ReadFile_congr {inode : Inode} {outBuf bufLen offset n : UInt32} {m₁ : Mem}
    (h : ∀ a ∈ fileReads fs inode outBuf bufLen offset, m' a = m a)
    (hread : ext2ReadFile m fs inode outBuf bufLen offset = .ok (m₁, n)) :
    ∃ m₁', ext2ReadFile m' fs inode outBuf bufLen offset = .ok (m₁', n) ∧
      ∀ a, m₁' a = m₁ a ∨ m₁' a = m' a ∧ m₁ a = m a := by
  unfold ext2ReadFile at hread ⊢
  unfold fileReads at h
  by_cases hout : outBuf = 0
  · rw [if_pos hout] at hread ⊢
    obtain ⟨rfl, rfl⟩ := hread
    exact ⟨m', rfl, fun a => .inr ⟨rfl, rfl⟩⟩
  by_cases hend : offset ≥ inode.iSizeLo
  · rw [if_neg hout, if_pos hend] at hread ⊢
    obtain ⟨rfl, rfl⟩ := hread
    exact ⟨m', rfl, fun a => .inr ⟨rfl, rfl⟩⟩
  by_cases hdiv : fs.blockSize = 0
  · rw [if_neg hout, if_neg hend, if_pos hdiv] at hread
    cases hread
  · rw [if_neg hout, if_neg hend, if_neg hdiv] at hread ⊢
    rw [if_neg (by simp [hout, hend, hdiv])] at h
    obtain ⟨hcount, halike⟩ := ReadFile.loop_alike (R := (· ∈ _)) (fun a ha => ha) h
    obtain ⟨rfl, rfl⟩ := Prod.ext_iff.mp (Except.ok.inj hread)
    exact ⟨_, congrArg Except.ok (Prod.ext rfl hcount), halike.elsewhere⟩

end Congr

/-! ## Where the bytes are -/

theorem ReadFile.bytesInBlock_le {r : ReadFile} {b bytesRead : UInt32}
    (hoff : r.startOffset.toNat < r.fs.blockSize.toNat) (hmore : bytesRead < r.bufLen) :
    (if b = r.startBlock then r.startOffset else 0 : UInt32).toNat + (r.bytesInBlock b bytesRead).toNat
      ≤ r.fs.blockSize.toNat := by
  have hcopy : (if b = r.startBlock then r.startOffset else 0 : UInt32).toNat < r.fs.blockSize.toNat := by
    by_cases hb : b = r.startBlock
    · rw [if_pos hb]
      exact hoff
    · rw [if_neg hb]
      exact Nat.lt_of_le_of_lt (Nat.zero_le _) hoff
  unfold ReadFile.bytesInBlock
  generalize (if b = r.startBlock then r.startOffset else 0 : UInt32) = copyOffset at hcopy ⊢
  have hlt := UInt32.lt_iff_toNat_lt.mp hmore
  have hread := bytesRead.toNat_lt
  have hbuf := r.bufLen.toNat_lt
  have hblock : (r.fs.blockSize - copyOffset).toNat = r.fs.blockSize.toNat - copyOffset.toNat :=
    UInt32.toNat_sub_of_le _ _ (UInt32.le_iff_toNat_le.mpr (Nat.le_of_lt hcopy))
  have hrest : (r.bufLen - bytesRead).toNat = r.bufLen.toNat - bytesRead.toNat :=
    UInt32.toNat_sub_of_le _ _ (UInt32.le_iff_toNat_le.mpr (Nat.le_of_lt hlt))
  by_cases hcut : bytesRead + (r.fs.blockSize - copyOffset) > r.bufLen
  · have hgt := UInt32.lt_iff_toNat_lt.mp hcut
    rw [UInt32.toNat_add, hblock] at hgt
    simp only [if_pos hcut, hrest]
    omega
  · simp only [if_neg hcut, hblock]
    omega

/-- A file read reads in the blocks of the file. -/
theorem ReadFile.mem_reads {r : ReadFile} {fuel : Nat} {b bytesRead a : UInt32}
    (hoff : r.startOffset.toNat < r.fs.blockSize.toNat) (h : a ∈ r.reads fuel b bytesRead) :
    ∃ i < 12, r.inode.iBlock i ≠ 0 ∧ ∃ k < r.fs.blockSize.toNat, a = r.fs.blockAddr (r.inode.iBlock i) k := by
  induction fuel generalizing b bytesRead with
  | zero => exact absurd h (by simp [ReadFile.reads])
  | succ fuel ih =>
      rw [ReadFile.reads] at h
      by_cases hmore : b < 12 ∧ b < r.blocksToRead ∧ bytesRead < r.bufLen
      · rw [if_pos hmore] at h
        rcases List.mem_append.mp h with hhere | hrest
        · by_cases hhole : r.inode.iBlock b.toNat = 0
          · rw [if_pos hhole] at hhere
            exact absurd hhere (by simp)
          rw [if_neg hhole] at hhere
          obtain ⟨t, ht, rfl⟩ := mem_bytesFrom.mp hhere
          have hle := ReadFile.bytesInBlock_le (b := b) hoff hmore.2.2
          refine ⟨b.toNat, UInt32.lt_iff_toNat_lt.mp hmore.1, hhole, _,
            Nat.lt_of_lt_of_le (Nat.add_lt_add_left ht _) hle, ?_⟩
          rw [Ext2Fs.blockAddr, UInt32.ofNat_add, UInt32.ofNat_toNat, UInt32.add_assoc]
        · exact ih hrest
      · rw [if_neg hmore] at h
        exact absurd h (by simp)

theorem mem_fileReads {fs : Ext2Fs} {inode : Inode} {outBuf bufLen offset a : UInt32}
    (h : a ∈ fileReads fs inode outBuf bufLen offset) :
    ∃ i < 12, inode.iBlock i ≠ 0 ∧ ∃ k < fs.blockSize.toNat, a = fs.blockAddr (inode.iBlock i) k := by
  unfold fileReads at h
  by_cases hnone : outBuf = 0 ∨ offset ≥ inode.iSizeLo ∨ fs.blockSize = 0
  · rw [if_pos hnone] at h
    exact absurd h (by simp)
  · rw [if_neg hnone] at h
    rw [not_or, not_or] at hnone
    have hpos : 0 < fs.blockSize.toNat := toNat_pos hnone.2.2
    have hoff : (ReadFile.enter fs inode outBuf bufLen offset).startOffset.toNat < fs.blockSize.toNat := by
      show (offset % fs.blockSize).toNat < fs.blockSize.toNat
      rw [UInt32.toNat_mod]
      exact Nat.mod_lt _ hpos
    exact ReadFile.mem_reads (r := ReadFile.enter fs inode outBuf bufLen offset) hoff h

/-- How far a record that starts in a block may run past its end: 8 bytes, and a name of 255. -/
def recordOverrun : Nat := 262

/-- A byte of a record that starts in the block. -/
theorem mem_record {fs : Ext2Fs} {block offset d a : UInt32} {n : Nat} (hin : offset < fs.blockSize)
    (hd : d.toNat + n ≤ recordOverrun + 1) (h : a ∈ bytesFrom (block + offset + d) n) :
    ∃ k < fs.blockSize.toNat + recordOverrun, a = block + UInt32.ofNat k := by
  have hlt := UInt32.lt_iff_toNat_lt.mp hin
  obtain ⟨t, ht, rfl⟩ := mem_bytesFrom.mp h
  refine ⟨offset.toNat + (d.toNat + t), by omega, ?_⟩
  rw [UInt32.ofNat_add, UInt32.ofNat_add, UInt32.ofNat_toNat, UInt32.ofNat_toNat]
  grind

/-- What becomes of the context at the record at `de`, and whether the walk goes on. -/
def DirentCb.atRecord {σ : Type} (cb : DirentCb σ) (m : Mem) (de : UInt32) (ctx : σ) : Except Fault (σ × Bool) :=
  if m.read32 de ≠ 0 then cb ctx (direntName m de) (m.read32 de) else .ok (ctx, true)

/-- Bytes that are among those from `a` on. -/
theorem bytesFrom_subset {a d x : UInt32} {n l : Nat} (hd : d.toNat + n ≤ l) (h : x ∈ bytesFrom (a + d) n) :
    x ∈ bytesFrom a l := by
  obtain ⟨t, ht, rfl⟩ := mem_bytesFrom.mp h
  refine mem_bytesFrom.mpr ⟨d.toNat + t, by omega, ?_⟩
  rw [← add_ofNat_add, UInt32.ofNat_toNat]

/-- What the walk reads from one record on: bytes of its header, its name, or what it reads from the next
    one on. -/
theorem mem_dirBlockReads_succ {σ : Type} {m : Mem} {fs : Ext2Fs} {block : UInt32} {cb : DirentCb σ} {fuel : Nat}
    {offset : UInt32} {ctx : σ} {a : UInt32} (h : a ∈ dirBlockReads m fs block cb (fuel + 1) offset ctx) :
    offset < fs.blockSize ∧ (a ∈ bytesFrom (block + offset) 8 ∨
      (m.read32 (block + offset) ≠ 0 ∧ a ∈ bytesFrom (block + offset + 8) (m (block + offset + 6)).toNat) ∨
      ∃ ctx', cb.atRecord m (block + offset) ctx = .ok (ctx', true) ∧ m.read16 (block + offset + 4) ≠ 0 ∧
        a ∈ dirBlockReads m fs block cb fuel (offset + m.read16 (block + offset + 4)) ctx') := by
  rw [dirBlockReads] at h
  by_cases hin : offset < fs.blockSize
  case neg =>
    rw [if_neg hin] at h
    exact absurd h (by simp)
  rw [if_pos hin] at h
  refine ⟨hin, ?_⟩
  have hnext : ∀ ctx', cb.atRecord m (block + offset) ctx = .ok (ctx', true) →
      a ∈ bytesFrom (block + offset + 4) 2 ++ (if m.read16 (block + offset + 4) = 0 then []
        else dirBlockReads m fs block cb fuel (offset + m.read16 (block + offset + 4)) ctx') →
      a ∈ bytesFrom (block + offset) 8 ∨ ∃ ctx', cb.atRecord m (block + offset) ctx = .ok (ctx', true) ∧
        m.read16 (block + offset + 4) ≠ 0 ∧
        a ∈ dirBlockReads m fs block cb fuel (offset + m.read16 (block + offset + 4)) ctx' := by
    intro ctx' hgo hmem
    rcases List.mem_append.mp hmem with hlen | hrest
    · exact .inl (bytesFrom_subset (by decide) hlen)
    · by_cases hzero : m.read16 (block + offset + 4) = 0
      · rw [if_pos hzero] at hrest
        exact absurd hrest (by simp)
      · rw [if_neg hzero] at hrest
        exact .inr ⟨ctx', hgo, hzero, hrest⟩
  rcases List.mem_append.mp h with hinode | hrest
  · exact .inl (bytesFrom_subset (d := 0) (n := 4) (by decide) (by rw [UInt32.add_zero]; exact hinode))
  by_cases hlive : m.read32 (block + offset) ≠ 0
  · rw [if_pos hlive] at hrest
    rcases List.mem_append.mp hrest with hname | hrest
    · rcases List.mem_append.mp hname with hlen | hname
      · exact .inl (bytesFrom_subset (by decide) hlen)
      · exact .inr (.inl ⟨hlive, hname⟩)
    · cases hcb : cb ctx (direntName m (block + offset)) (m.read32 (block + offset)) with
      | error e =>
          rw [hcb] at hrest
          exact absurd hrest (by simp)
      | ok r =>
          obtain ⟨ctx', goOn⟩ := r
          rw [hcb] at hrest
          cases goOn with
          | false => exact absurd hrest (by simp)
          | true =>
              have hgo : cb.atRecord m (block + offset) ctx = .ok (ctx', true) := by
                rw [DirentCb.atRecord, if_pos hlive, hcb]
              exact (hnext ctx' hgo hrest).imp_right .inr
  · rw [if_neg hlive] at hrest
    have hgo : cb.atRecord m (block + offset) ctx = .ok (ctx, true) := by
      rw [DirentCb.atRecord, if_neg hlive]
    exact (hnext ctx hgo hrest).imp_right .inr

theorem mem_dirBlockReads {σ : Type} {m : Mem} {fs : Ext2Fs} {block : UInt32} {cb : DirentCb σ} {fuel : Nat}
    {offset : UInt32} {ctx : σ} {a : UInt32} (h : a ∈ dirBlockReads m fs block cb fuel offset ctx) :
    ∃ k < fs.blockSize.toNat + recordOverrun, a = block + UInt32.ofNat k := by
  induction fuel generalizing offset ctx with
  | zero => exact absurd h (by simp [dirBlockReads])
  | succ fuel ih =>
      obtain ⟨hin, hhere⟩ := mem_dirBlockReads_succ h
      rcases hhere with hheader | ⟨-, hname⟩ | ⟨ctx', -, -, hrest⟩
      · exact mem_record (d := 0) (n := 8) hin (by decide) (by rw [UInt32.add_zero]; exact hheader)
      · refine mem_record hin ?_ hname
        have := (m (block + offset + 6)).toNat_lt
        show 8 + _ ≤ 263
        omega
      · exact ih hrest

/-- A walk through a directory reads in its blocks, and a record beyond the end of one. -/
theorem mem_dirReads {σ : Type} {m : Mem} {fs : Ext2Fs} {dir : Inode} {cb : DirentCb σ} {ctx : σ} {a : UInt32}
    (h : a ∈ dirReads m fs dir cb ctx) :
    ∃ i < 12, dir.iBlock i ≠ 0 ∧ ∃ k < fs.blockSize.toNat + recordOverrun, a = fs.blockAddr (dir.iBlock i) k := by
  suffices hblocks : ∀ blkCount fuel b ctx, b + fuel ≤ 12 → a ∈ dirBlocksReads m fs dir blkCount cb fuel b ctx →
      ∃ i < 12, dir.iBlock i ≠ 0 ∧ ∃ k < fs.blockSize.toNat + recordOverrun, a = fs.blockAddr (dir.iBlock i) k by
    unfold dirReads at h
    by_cases hdiv : fs.blockSize / 512 = 0
    · rw [if_pos hdiv] at h
      exact absurd h (by simp)
    · rw [if_neg hdiv] at h
      exact hblocks _ 12 0 ctx (by decide) h
  intro blkCount fuel
  induction fuel with
  | zero => exact fun b ctx _ h => absurd h (by simp [dirBlocksReads])
  | succ fuel ih =>
      intro b ctx hb h
      rw [dirBlocksReads] at h
      by_cases hin : b < blkCount.toNat
      · rw [if_pos hin] at h
        by_cases hhole : dir.iBlock b = 0
        · rw [if_pos hhole] at h
          exact ih (b + 1) ctx (by omega) h
        rw [if_neg hhole] at h
        rcases List.mem_append.mp h with hhere | hrest
        · exact ⟨b, by omega, hhole, mem_dirBlockReads hhere⟩
        · cases hwalk : readDirBlock m fs (fs.image + dir.iBlock b * fs.blockSize) cb fs.blockSize.toNat 0 ctx with
          | error e =>
              rw [hwalk] at hrest
              exact absurd hrest (by simp)
          | ok r =>
              obtain ⟨ctx', goOn⟩ := r
              rw [hwalk] at hrest
              cases goOn with
              | false => exact absurd hrest (by simp)
              | true => exact ih (b + 1) ctx' (by omega) hrest
      · rw [if_neg hin] at h
        exact absurd h (by simp)

/-! ## What lies in the image -/

/-- The block pointers of an inode other than 0 lead to a block of an image of `len` bytes, with `extra` bytes
    after it. -/
def BlocksInside (fs : Ext2Fs) (inode : Inode) (extra len : Nat) : Prop :=
  ∀ b < 12, inode.iBlock b ≠ 0 →
    (inode.iBlock b * fs.blockSize).toNat + fs.blockSize.toNat + extra ≤ len

theorem BlocksInside.offset_lt {fs : Ext2Fs} {inode : Inode} {extra len : Nat} {a : UInt32}
    (h : BlocksInside fs inode extra len) (hlen : len < 2 ^ 32)
    (ha : ∃ i < 12, inode.iBlock i ≠ 0 ∧
      ∃ k < fs.blockSize.toNat + extra, a = fs.blockAddr (inode.iBlock i) k) :
    imageOffset fs.image a < len := by
  obtain ⟨i, hi, hptr, k, hk, rfl⟩ := ha
  have hin := h i hi hptr
  rw [Ext2Fs.blockAddr, imageOffset_add (by omega)]
  omega

/-- The bytes of an inode lie in the image when its first one does and there is room for it. -/
theorem bytesFrom_inside_iff {image a : UInt32} {n len : Nat} (hn : 0 < n) (hsmall : n < 2 ^ 32)
    (hlen : len < 2 ^ 32) : (∀ x ∈ bytesFrom a n, imageOffset image x < len) ↔ imageOffset image a + n ≤ len := by
  have hsplit : ∀ t, a + UInt32.ofNat t = image + (a - image) + UInt32.ofNat t := fun t => by grind
  have ha := (a - image).toNat_lt
  constructor
  · intro h
    rcases Nat.lt_or_ge ((a - image).toNat + (n - 1)) (2 ^ 32) with hfit | hwrap
    · have hlast := h _ (mem_bytesFrom.mpr ⟨n - 1, by omega, rfl⟩)
      rw [hsplit, imageOffset_add hfit] at hlast
      rw [imageOffset]
      omega
    -- otherwise the last address of all is among them
    · have htop := h _ (mem_bytesFrom.mpr ⟨2 ^ 32 - 1 - (a - image).toNat, by omega, rfl⟩)
      rw [hsplit, imageOffset_add (by omega)] at htop
      omega
  · intro h x hx
    obtain ⟨t, ht, rfl⟩ := mem_bytesFrom.mp hx
    rw [imageOffset] at h
    rw [hsplit, imageOffset_add (by omega)]
    omega

/-- **What is read of a mounted image.** Of an inode, bytes of the image only exactly when it is in the image;
    of a file and of a directory, when the block pointers that are followed lead there. Inode 0 and the block
    pointer 0 are not followed. -/
theorem imageReads_inside {m₀ m₁ : Mem} {s s' : PhysMem} {image : UInt32} {fs : Ext2Fs} {len : Nat}
    (hmount : ext2Mount m₀ s image = .ok (m₁, s', some fs)) (hbs : 1024 ≤ fs.blockSize.toNat)
    (hlen : len < 2 ^ 32) (m : Mem) :
    (∀ inodeNo, (∀ a ∈ inodeReads m fs inodeNo, imageOffset image a < len) ↔
      inodeNo = 0 ∨ fs.sb.sInodesPerGroup = 0 ∨
        imageOffset image (fs.inodeAddr m inodeNo) + inodeSize ≤ len) ∧
    ∀ inode : Inode,
      (BlocksInside fs inode 0 len → ∀ outBuf bufLen offset,
        ∀ a ∈ fileReads fs inode outBuf bufLen offset, imageOffset image a < len) ∧
      (BlocksInside fs inode recordOverrun len → ∀ (σ : Type) (cb : DirentCb σ) (ctx : σ),
        ∀ a ∈ dirReads m fs inode cb ctx, imageOffset image a < len) := by
  obtain ⟨-, -, rfl, -⟩ := ext2Mount_eq_some hmount
  constructor
  · intro inodeNo
    have hblock : fs.blockSize / UInt32.ofNat inodeSize ≠ 0 := by
      intro hzero
      have hdiv : fs.blockSize.toNat / 128 = 0 := by
        rw [← UInt32.toNat_inj, UInt32.toNat_div] at hzero
        exact hzero
      omega
    by_cases hrefused : inodeNo = 0 ∨ fs.sb.sInodesPerGroup = 0
    · rw [inodeReads, if_pos (or_assoc.mp (.inl hrefused))]
      exact iff_of_true (by simp) (or_assoc.mp (.inl hrefused))
    · obtain ⟨hno, hgroup⟩ := not_or.mp hrefused
      rw [inodeReads, if_neg (by simp only [hno, hgroup, hblock, or_self, not_false_eq_true]),
        bytesFrom_inside_iff (by decide) (by decide) hlen]
      simp only [hno, hgroup, false_or]
  · intro inode
    constructor
    · intro hinside outBuf bufLen offset a ha
      exact hinside.offset_lt hlen (mem_fileReads ha)
    · intro hinside σ cb ctx a ha
      exact hinside.offset_lt hlen (mem_dirReads ha)

/-- Inode 2 of the image without a file lies in it, and has no blocks. -/
theorem imageReads_inside_root :
    (∀ a ∈ inodeReads noProgramMounted smallFs 2, imageOffset 0x200000 a < 0x4000) ∧
    ∀ a ∈ fileReads smallFs fiveBytes 0x1000 5 0, imageOffset 0x200000 a < 0x4000 := by
  obtain ⟨s, hmount⟩ := noProgram_mount
  have hlen : 0x4000 < 2 ^ 32 := by decide
  have h := imageReads_inside hmount (by decide) hlen noProgramMounted
  refine ⟨(h.1 2).mpr (.inr (.inr ?_)), (h.2 fiveBytes).1 ?_ 0x1000 5 0⟩
  · decide +kernel
  · unfold BlocksInside
    decide +kernel

/-! ## Pointers are followed as they are -/

/-- The image without a file, its table of inodes said to be at block `0x1005`. -/
def strayTableMem : Mem := Function.update noProgramMem 0x200809 0x10

/-- The image without a file, with a root directory of one byte that is said to be at block `0x1000`. -/
def strayBlockMem : Mem :=
  Function.update (Function.update (Function.update noProgramMem 0x201484 1) 0x20149C 2) 0x2014A9 0x10

/-- Images of 16 blocks are mounted, and 4 MiB on is read as their root inode, their root directory, and a
    file. -/
theorem imageReads_stray :
    (∃ m s, ext2Mount strayTableMem (memPhysInit 0x100000 0x100000) 0x200000 = .ok (m, s, some smallFs) ∧
      ext2ReadInode m smallFs ext2RootIno = .ok (some (Inode.read m 0x601480)) ∧
      ∃ a ∈ inodeReads m smallFs ext2RootIno, 0x4000 ≤ imageOffset 0x200000 a) ∧
    ∃ m s root, ext2Mount strayBlockMem (memPhysInit 0x100000 0x100000) 0x200000 = .ok (m, s, some smallFs) ∧
      ext2ReadInode m smallFs ext2RootIno = .ok (some root) ∧
      (∃ a ∈ fileReads smallFs root 0x1000 1 0, 0x4000 ≤ imageOffset 0x200000 a) ∧
      ∃ a ∈ dirReads m smallFs root (fun (n : Nat) _ _ => .ok (n + 1, true)) 0,
        0x4000 ≤ imageOffset 0x200000 a := by
  constructor
  · obtain ⟨s, hmount⟩ := ext2Mount_smallFs (m := strayTableMem) (by decide +kernel)
    have haddr : smallFs.inodeAddr (kpmemcpy strayTableMem 0x100000 0x200800 32) ext2RootIno = 0x601480 := by
      decide +kernel
    refine ⟨_, s, hmount, ?_, ?_⟩
    · rw [ext2ReadInode_cases, haddr]
      rfl
    · decide +kernel
  · obtain ⟨s, hmount⟩ := ext2Mount_smallFs (m := strayBlockMem) (by decide +kernel)
    have haddr : smallFs.inodeAddr (kpmemcpy strayBlockMem 0x100000 0x200800 32) ext2RootIno = 0x201480 := by
      decide +kernel
    refine ⟨_, s, Inode.read (kpmemcpy strayBlockMem 0x100000 0x200800 32) 0x201480, hmount, ?_, ?_, ?_⟩
    · rw [ext2ReadInode_cases, haddr]
      rfl
    · decide +kernel
    · decide +kernel

end Drupe
