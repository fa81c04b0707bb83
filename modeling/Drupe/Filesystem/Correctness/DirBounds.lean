import Drupe.Filesystem.Correctness.DirHoles
import Drupe.Filesystem.Correctness.ImageReads
import Drupe.Filesystem.Correctness.ReadBounds

/-!
# `Filesystem.Correctness.DirBounds` — the walk through a block and its end

The walk of `ext2ReadDir` goes from record to record by lengths that it takes from the disk, and compares
the offset of a record with the end of the block, not the offset of what it reads there. `InChain` is the
chain of the records of a block as it lies on disk. Whatever the callback does, the walk comes to records
of that chain (`mem_dirBlockVisits`), and with a callback that goes on it comes to all of them
(`InChain.visited`). So a block is walked through without leaving it exactly when each record of its chain
fits (`readDirBlock_inside_iff`).
-/

namespace Drupe

/-- The offsets of the records that the walk through one block comes to. -/
def dirBlockVisits {σ : Type} (m : Mem) (fs : Ext2Fs) (block : UInt32) (cb : DirentCb σ) :
    (fuel : Nat) → (offset : UInt32) → σ → List UInt32
  | 0, _, _ => []
  | fuel + 1, offset, ctx =>
    if offset < fs.blockSize then
      offset :: match cb.atRecord m (block + offset) ctx with
        | .ok (ctx, true) =>
          if m.read16 (block + offset + 4) = 0 then []
          else dirBlockVisits m fs block cb fuel (offset + m.read16 (block + offset + 4)) ctx
        | _ => []
    else []

/-- **A walk that stays inside**: the header of each record that it comes to lies in the block, and so
    does the name of each live one, which is no longer than its record. A header counts as its 8 bytes, also
    where the record is not live and only 6 of them are read; for the reads themselves, see `WalkInside.reads`. -/
structure WalkInside {σ : Type} (m : Mem) (fs : Ext2Fs) (block : UInt32) (cb : DirentCb σ) (ctx : σ) : Prop where
  header : ∀ o ∈ dirBlockVisits m fs block cb fs.blockSize.toNat 0 ctx,
    ∀ a ∈ bytesFrom (block + o) 8, (a - block).toNat < fs.blockSize.toNat
  name : ∀ o ∈ dirBlockVisits m fs block cb fs.blockSize.toNat 0 ctx, m.read32 (block + o) ≠ 0 →
    ∀ a ∈ bytesFrom (block + o + 8) (m (block + o + 6)).toNat, (a - block).toNat < fs.blockSize.toNat
  own : ∀ o ∈ dirBlockVisits m fs block cb fs.blockSize.toNat 0 ctx, m.read32 (block + o) ≠ 0 →
    ∀ a ∈ bytesFrom (block + o + 8) (m (block + o + 6)).toNat,
      (a - (block + o)).toNat < (m.read16 (block + o + 4)).toNat

/-- The offsets of the records of a block, each from the length of the one before. -/
inductive InChain (m : Mem) (block : UInt32) (size : Nat) : Nat → Prop
  | first : InChain m block size 0
  | next {o : Nat} : InChain m block size o → o < size → m.read16 (block + UInt32.ofNat o + 4) ≠ 0 →
      InChain m block size (o + (m.read16 (block + UInt32.ofNat o + 4)).toNat)

/-- The record at offset `o` fits: its 8 bytes and, if it is live, its name end in the block, and the name
    ends in the record. -/
structure RecordFits (m : Mem) (block : UInt32) (size o : Nat) : Prop where
  header : o + 8 ≤ size
  name : m.read32 (block + UInt32.ofNat o) ≠ 0 → o + 8 + (m (block + UInt32.ofNat o + 6)).toNat ≤ size
  own : m.read32 (block + UInt32.ofNat o) ≠ 0 → (m (block + UInt32.ofNat o + 6)).toNat = 0 ∨
    8 + (m (block + UInt32.ofNat o + 6)).toNat ≤ (m.read16 (block + UInt32.ofNat o + 4)).toNat

section Walk

variable {σ : Type} {m : Mem} {fs : Ext2Fs} {block : UInt32} {cb : DirentCb σ}

/-- The offsets from a record on: its own, and those from the next one on. -/
theorem mem_dirBlockVisits_succ {fuel : Nat} {offset : UInt32} {ctx : σ} {o : UInt32} :
    o ∈ dirBlockVisits m fs block cb (fuel + 1) offset ctx ↔
      offset < fs.blockSize ∧ (o = offset ∨ ∃ ctx', cb.atRecord m (block + offset) ctx = .ok (ctx', true) ∧
        m.read16 (block + offset + 4) ≠ 0 ∧
        o ∈ dirBlockVisits m fs block cb fuel (offset + m.read16 (block + offset + 4)) ctx') := by
  rw [dirBlockVisits]
  by_cases hin : offset < fs.blockSize
  case neg =>
    rw [if_neg hin]
    exact iff_of_false (by simp) fun h => hin h.1
  rw [if_pos hin, List.mem_cons, and_iff_right hin]
  refine or_congr_right ?_
  rcases cb.atRecord m (block + offset) ctx with e | ⟨ctx', goOn⟩
  · exact iff_of_false (by simp) fun ⟨_, h, _⟩ => nomatch h
  · cases goOn with
    | false => exact iff_of_false (by simp) fun ⟨_, h, _⟩ => nomatch h
    | true =>
        by_cases hzero : m.read16 (block + offset + 4) = 0
        · simp only [if_pos hzero]
          exact iff_of_false (by simp) fun ⟨_, _, h, _⟩ => h hzero
        · simp only [if_neg hzero]
          constructor
          · exact fun h => ⟨ctx', rfl, hzero, h⟩
          · rintro ⟨ctx₁, heq, -, h⟩
            cases heq
            exact h

/-- A record is shorter than `2^16` bytes. -/
theorem Mem.read16_lt (m : Mem) (a : UInt32) : (m.read16 a).toNat < 65536 := by
  have hlow := (m (a + UInt32.ofNat 0)).toNat_lt
  have hhigh := (m (a + UInt32.ofNat 1)).toNat_lt
  have hbyte : 2 ^ ((8 : UInt32).toNat % 32) = 256 := rfl
  rw [Mem.read16, word16, UInt32.toNat_or, UInt32.toNat_shiftLeft, UInt8.toNat_toUInt32, UInt8.toNat_toUInt32,
    Nat.shiftLeft_eq, hbyte]
  apply Nat.or_lt_two_pow (n := 16)
  · omega
  · omega

/-- The next record, as a number. -/
theorem next_toNat {offset : UInt32} (hsmall : fs.blockSize.toNat ≤ 2 ^ 31) (hin : offset < fs.blockSize)
    (a : UInt32) :
    (offset + m.read16 a).toNat = offset.toNat + (m.read16 a).toNat := by
  have hlt := UInt32.lt_iff_toNat_lt.mp hin
  have hlen := m.read16_lt a
  rw [UInt32.toNat_add]
  omega

/-- **The walk comes to records of the chain.** -/
theorem mem_dirBlockVisits (hsmall : fs.blockSize.toNat ≤ 2 ^ 31) {fuel : Nat} {offset : UInt32} {ctx : σ}
    {o : UInt32}
    (hchain : InChain m block fs.blockSize.toNat offset.toNat)
    (h : o ∈ dirBlockVisits m fs block cb fuel offset ctx) :
    InChain m block fs.blockSize.toNat o.toNat ∧ o.toNat < fs.blockSize.toNat := by
  induction fuel generalizing offset ctx with
  | zero => exact absurd h (by simp [dirBlockVisits])
  | succ fuel ih =>
      obtain ⟨hin, hhere⟩ := mem_dirBlockVisits_succ.mp h
      have hlt := UInt32.lt_iff_toNat_lt.mp hin
      rcases hhere with rfl | ⟨ctx', -, hlen, hrest⟩
      · exact ⟨hchain, hlt⟩
      · refine ih ?_ hrest
        have hnext := hchain.next hlt (by rw [UInt32.ofNat_toNat]; exact hlen)
        rw [UInt32.ofNat_toNat, ← next_toNat hsmall hin] at hnext
        exact hnext

theorem DirentCb.always_goesOn (f : σ → List UInt8 → UInt32 → σ) (m : Mem) (de : UInt32) (ctx : σ) :
    ∃ ctx', (DirentCb.always f).atRecord m de ctx = .ok (ctx', true) := by
  unfold DirentCb.atRecord
  by_cases hlive : m.read32 de ≠ 0
  · rw [if_pos hlive]
    exact ⟨_, rfl⟩
  · rw [if_neg hlive]
    exact ⟨ctx, rfl⟩

/-- **The walk comes to the whole chain** when the callback goes on: a record is a byte long or more, so the
    records before offset `o` take `o` rounds at most. -/
theorem InChain.visited (hsmall : fs.blockSize.toNat ≤ 2 ^ 31) {o : Nat} (h : InChain m block fs.blockSize.toNat o)
    (f : σ → List UInt8 → UInt32 → σ) (ctx : σ) (ho : o < fs.blockSize.toNat) :
    UInt32.ofNat o ∈ dirBlockVisits m fs block (.always f) fs.blockSize.toNat 0 ctx := by
  -- the part of the walk from offset `o` on
  obtain ⟨fuel, ctx', hfuel, hpart⟩ : ∃ fuel ctx', fs.blockSize.toNat ≤ o + fuel ∧
      ∀ x ∈ dirBlockVisits m fs block (.always f) fuel (UInt32.ofNat o) ctx',
        x ∈ dirBlockVisits m fs block (.always f) fs.blockSize.toNat 0 ctx := by
    clear ho
    induction h with
    | first => exact ⟨fs.blockSize.toNat, ctx, by omega, fun x hx => hx⟩
    | @next o _ ho hlen ih =>
        obtain ⟨fuel, ctx', hfuel, hpart⟩ := ih
        obtain ⟨fuel, rfl⟩ : ∃ f, fuel = f + 1 := ⟨fuel - 1, by omega⟩
        obtain ⟨ctx₁, hctx⟩ := DirentCb.always_goesOn f m (block + UInt32.ofNat o) ctx'
        have hin : UInt32.ofNat o < fs.blockSize := by
          rw [UInt32.lt_iff_toNat_lt, UInt32.toNat_ofNat']
          omega
        have hpos : 0 < (m.read16 (block + UInt32.ofNat o + 4)).toNat := toNat_pos hlen
        refine ⟨fuel, ctx₁, by omega, fun x hx => hpart x ?_⟩
        rw [UInt32.ofNat_add, UInt32.ofNat_toNat] at hx
        exact mem_dirBlockVisits_succ.mpr ⟨hin, .inr ⟨ctx₁, hctx, hlen, hx⟩⟩
  obtain ⟨fuel, rfl⟩ : ∃ f, fuel = f + 1 := ⟨fuel - 1, by omega⟩
  have hin : UInt32.ofNat o < fs.blockSize := by
    rw [UInt32.lt_iff_toNat_lt, UInt32.toNat_ofNat']
    omega
  exact hpart _ (mem_dirBlockVisits_succ.mpr ⟨hin, .inl rfl⟩)

/-- The bytes that the walk reads are those of headers and names of the records it comes to. -/
theorem mem_dirBlockReads_visits {fuel : Nat} {offset : UInt32} {ctx : σ} {a : UInt32}
    (h : a ∈ dirBlockReads m fs block cb fuel offset ctx) :
    ∃ o ∈ dirBlockVisits m fs block cb fuel offset ctx, a ∈ bytesFrom (block + o) 8 ∨
      m.read32 (block + o) ≠ 0 ∧ a ∈ bytesFrom (block + o + 8) (m (block + o + 6)).toNat := by
  induction fuel generalizing offset ctx with
  | zero => exact absurd h (by simp [dirBlockReads])
  | succ fuel ih =>
      obtain ⟨hin, hhere⟩ := mem_dirBlockReads_succ h
      rcases hhere with hheader | hname | ⟨ctx', hgo, hlen, hrest⟩
      · exact ⟨offset, mem_dirBlockVisits_succ.mpr ⟨hin, .inl rfl⟩, .inl hheader⟩
      · exact ⟨offset, mem_dirBlockVisits_succ.mpr ⟨hin, .inl rfl⟩, .inr hname⟩
      · obtain ⟨o, ho, hread⟩ := ih hrest
        exact ⟨o, mem_dirBlockVisits_succ.mpr ⟨hin, .inr ⟨ctx', hgo, hlen, ho⟩⟩, hread⟩

/-- The records that are shown to a callback that goes on are the live ones of those it comes to. -/
theorem blockRecords_eq_visits (f : σ → List UInt8 → UInt32 → σ) {fuel : Nat} {offset : UInt32} {ctx : σ} :
    blockRecords m fs block fuel offset =
      ((dirBlockVisits m fs block (.always f) fuel offset ctx).filter fun o => m.read32 (block + o) ≠ 0).map
        fun o => (direntName m (block + o), m.read32 (block + o)) := by
  induction fuel generalizing offset ctx with
  | zero => rfl
  | succ fuel ih =>
      rw [blockRecords, dirBlockVisits]
      by_cases hin : offset < fs.blockSize
      case neg =>
        rw [if_neg hin, if_neg hin]
        rfl
      obtain ⟨ctx', hgo⟩ := DirentCb.always_goesOn f m (block + offset) ctx
      rw [if_pos hin, if_pos hin, hgo]
      have hrest : (if m.read16 (block + offset + 4) = 0 then []
          else blockRecords m fs block fuel (offset + m.read16 (block + offset + 4)))
          = ((if m.read16 (block + offset + 4) = 0 then []
            else dirBlockVisits m fs block (.always f) fuel (offset + m.read16 (block + offset + 4)) ctx').filter
              fun o => m.read32 (block + o) ≠ 0).map fun o => (direntName m (block + o), m.read32 (block + o)) := by
        by_cases hzero : m.read16 (block + offset + 4) = 0
        · rw [if_pos hzero, if_pos hzero]
          rfl
        · rw [if_neg hzero, if_neg hzero]
          exact ih
      simp only
      by_cases hlive : m.read32 (block + offset) ≠ 0
      · rw [if_pos hlive, List.filter_cons_of_pos (by simpa using hlive), List.map_cons]
        exact congrArg _ hrest
      · rw [if_neg hlive, List.filter_cons_of_neg (by simpa using hlive)]
        exact hrest

/-- So a walk that stays inside reads in the block only. -/
theorem WalkInside.reads {ctx : σ} (h : WalkInside m fs block cb ctx) :
    ∀ a ∈ dirBlockReads m fs block cb fs.blockSize.toNat 0 ctx, (a - block).toNat < fs.blockSize.toNat := by
  intro a ha
  obtain ⟨o, ho, hheader | ⟨hlive, hname⟩⟩ := mem_dirBlockReads_visits ha
  · exact h.header o ho a hheader
  · exact h.name o ho hlive a hname

end Walk

/-- A name without bytes lies anywhere. -/
theorem name_inside_iff {base a : UInt32} {n len : Nat} (hsmall : n < 2 ^ 32) (hlen : len < 2 ^ 32) :
    (∀ x ∈ bytesFrom a n, (x - base).toNat < len) ↔ n = 0 ∨ (a - base).toNat + n ≤ len := by
  rcases Nat.eq_zero_or_pos n with hzero | hpos
  · rw [hzero]
    exact iff_of_true (fun x hx => absurd hx (by simp [bytesFrom])) (.inl rfl)
  · rw [or_iff_right (Nat.ne_of_gt hpos)]
    exact bytesFrom_inside_iff hpos hsmall hlen

/-- The bytes of a record, at their addresses and at their offsets. -/
theorem recordFits_iff {m : Mem} {block o : UInt32} {size : Nat} (hsmall : size ≤ 2 ^ 31) (ho : o.toNat < size) :
    RecordFits m block size o.toNat ↔
      (∀ a ∈ bytesFrom (block + o) 8, (a - block).toNat < size) ∧
      (m.read32 (block + o) ≠ 0 →
        ∀ a ∈ bytesFrom (block + o + 8) (m (block + o + 6)).toNat, (a - block).toNat < size) ∧
      (m.read32 (block + o) ≠ 0 → ∀ a ∈ bytesFrom (block + o + 8) (m (block + o + 6)).toNat,
        (a - (block + o)).toNat < (m.read16 (block + o + 4)).toNat) := by
  have hlen := (m (block + o + 6)).toNat_lt
  have h8 : (8 : UInt32).toNat = 8 := rfl
  have hrec := m.read16_lt (block + o + 4)
  have hrecord : (block + o - block).toNat = o.toNat := by
    congr 1
    grind
  have hstart : (block + o + 8 - block).toNat = o.toNat + 8 := by
    have hdiff : block + o + 8 - block = o + 8 := by grind
    rw [hdiff, UInt32.toNat_add]
    omega
  have hown : (block + o + 8 - (block + o)).toNat = 8 := by
    have hdiff : block + o + 8 - (block + o) = 8 := by grind
    rw [hdiff, h8]
  have hheader : (∀ a ∈ bytesFrom (block + o) 8, (a - block).toNat < size) ↔
      (block + o - block).toNat + 8 ≤ size :=
    bytesFrom_inside_iff (by decide) (by decide) (by omega)
  rw [hrecord] at hheader
  rw [hheader, name_inside_iff (by omega) (by omega), name_inside_iff (by omega) (by omega), hstart, hown]
  constructor
  · rintro ⟨h, hname, hin⟩
    rw [UInt32.ofNat_toNat] at hname hin
    exact ⟨h, fun hlive => .inr (hname hlive), hin⟩
  · rintro ⟨h, hname, hin⟩
    refine ⟨h, fun hlive => ?_, fun hlive => ?_⟩
    · rw [UInt32.ofNat_toNat] at hlive ⊢
      have := hname hlive
      omega
    · rw [UInt32.ofNat_toNat] at hlive ⊢
      exact hin hlive

theorem Ext2Fs.BlockSized.le {fs : Ext2Fs} {k : Nat} (h : fs.BlockSized k) (hk : k ≤ 21) :
    fs.blockSize.toNat ≤ 2 ^ 31 := by
  rw [h]
  calc 1024 * 2 ^ k ≤ 1024 * 2 ^ 21 := Nat.mul_le_mul_left _ (Nat.pow_le_pow_right (by decide) hk)
    _ = 2 ^ 31 := by decide

/-- **When a walk stays inside.** For every block size, every memory and every block, whatever its bytes
    are: no callback makes the walk read a header or a name past the end of the block, or a name past the
    end of its record, exactly when each record of the chain that starts in the block fits. -/
theorem readDirBlock_inside_iff {fs : Ext2Fs} {k : Nat} (hk : k ≤ 21) (hsize : fs.BlockSized k) (m : Mem)
    (block : UInt32) :
    (∀ (σ : Type) (cb : DirentCb σ) (ctx : σ), WalkInside m fs block cb ctx) ↔
      ∀ o, InChain m block fs.blockSize.toNat o → o < fs.blockSize.toNat →
        RecordFits m block fs.blockSize.toNat o := by
  have hsmall := hsize.le hk
  constructor
  · intro h o hchain ho
    obtain ⟨hheader, hname, hown⟩ := h Unit (.always fun _ _ _ => ()) ()
    have hvisited := hchain.visited hsmall (fun _ _ _ => ()) () ho
    have hnat : (UInt32.ofNat o).toNat = o := by
      rw [UInt32.toNat_ofNat']
      omega
    have hiff := @recordFits_iff m block (UInt32.ofNat o) fs.blockSize.toNat hsmall (by omega)
    rw [hnat] at hiff
    exact hiff.mpr ⟨hheader _ hvisited, hname _ hvisited, hown _ hvisited⟩
  · intro h σ cb ctx
    have hfits : ∀ o ∈ dirBlockVisits m fs block cb fs.blockSize.toNat 0 ctx, _ := fun o ho =>
      have hchain := mem_dirBlockVisits hsmall InChain.first ho
      (recordFits_iff hsmall hchain.2).mp (h o.toNat hchain.1 hchain.2)
    exact ⟨fun o ho => (hfits o ho).1, fun o ho => (hfits o ho).2.1, fun o ho => (hfits o ho).2.2⟩

/-- The offsets in the chain of a block of well-formed records are those of its records. -/
theorem RecordsAt.inChain {m : Mem} {block : UInt32} {size : Nat} {rs : List DirRecord}
    (h : RecordsAt m block size 0 rs) {o : Nat} (hchain : InChain m block size o) :
    ∃ rs', RecordsAt m block size o rs' := by
  induction hchain with
  | first => exact ⟨rs, h⟩
  | next _ ho _ ih =>
      obtain ⟨rs', h'⟩ := ih
      cases rs' with
      | nil => exact absurd ho (Nat.not_lt.mpr (Nat.le_of_eq (Eq.symm h')))
      | cons r rs' =>
          refine ⟨rs', ?_⟩
          rw [h'.1.recLen_eq]
          exact h'.2

/-- A block of well-formed records is walked through without leaving it. -/
theorem RecordsAt.fits {m : Mem} {block : UInt32} {size : Nat} {rs : List DirRecord}
    (h : RecordsAt m block size 0 rs) {o : Nat} (hchain : InChain m block size o) (ho : o < size) :
    RecordFits m block size o := by
  obtain ⟨rs', h'⟩ := h.inChain hchain
  cases rs' with
  | nil => exact absurd ho (Nat.not_lt.mpr (Nat.le_of_eq (Eq.symm h')))
  | cons r rs' =>
      obtain ⟨hr, hrest⟩ := h'
      have hend := hrest.length_le
      have hlen := r.recLen_ge
      have hname := hr.nameLen_eq
      have hrec := hr.recLen_eq
      exact ⟨by omega, fun _ => by omega, fun _ => by omega⟩

theorem readDirBlock_inside_iff_oneRecord :
    WalkInside oneRecordMem smallFs 0x201400 (.always fun _ _ _ => ()) () :=
  (readDirBlock_inside_iff (by decide) smallFs_blockSized oneRecordMem 0x201400).mpr
    (fun _ hchain ho => oneRecord_at.fits hchain ho) Unit _ ()

/-- A record of 12 bytes with a name of 5, a record up to the last 4 bytes of the block, and one there. -/
def badRecordsMem : Mem := fun a =>
  (([(0x201400, 11), (0x201404, 12), (0x201406, 5), (0x201408, 104), (0x201409, 101), (0x20140A, 108),
    (0x20140B, 108), (0x20140C, 111), (0x201410, 0xF0), (0x201411, 3), (0x2017FC, 12)] :
    List (UInt32 × UInt8)).lookup a).getD 0

/-- The length of the last record is read in the next block, and the name of the first one goes on in the
    second. -/
theorem badRecords_leave :
    (0x201800 : UInt32) ∈ dirBlockReads badRecordsMem smallFs 0x201400 (.always fun _ _ _ => ()) 1024 0 () ∧
    blockRecords badRecordsMem smallFs 0x201400 1024 0 = [([104, 101, 108, 108, 111], 11), ([], 111), ([], 12)] ∧
    ¬ WalkInside badRecordsMem smallFs 0x201400 (.always fun _ _ _ => ()) () := by
  have hread : (0x201800 : UInt32) ∈
      dirBlockReads badRecordsMem smallFs 0x201400 (.always fun _ _ _ => ()) 1024 0 () := by
    decide +kernel
  refine ⟨hread, by decide +kernel, fun h => ?_⟩
  exact absurd (h.reads _ hread) (by decide)

end Drupe
