import Drupe.Filesystem.Correctness.DirBounds

/-!
# `Filesystem.Correctness.DirTermination` — the walk through a directory ends

`BlockWalk` and `BlocksWalk` are the two loops of `ext2ReadDir` without fuel: a derivation goes round as
often as the loop does, and ends by one of its exits. So that there is one says that the loop ends. The
offset of the inner loop grows in each round and does not wrap, as a record is shorter than `2^16` bytes
and a block no longer than `2^31` (`blockWalk_exists`). A record of length 0 is the last one.
-/

namespace Drupe

/-- The loop through one block, from `offset` on: the offsets of its rounds, and its answer. -/
inductive BlockWalk {σ : Type} (m : Mem) (fs : Ext2Fs) (block : UInt32) (cb : DirentCb σ) :
    UInt32 → σ → List UInt32 → σ × Bool → Prop
  /-- The end of the block. -/
  | past {offset : UInt32} {ctx : σ} : ¬ offset < fs.blockSize → BlockWalk m fs block cb offset ctx [] (ctx, true)
  /-- The callback asks to stop. -/
  | stop {offset : UInt32} {ctx ctx' : σ} : offset < fs.blockSize →
      cb.atRecord m (block + offset) ctx = .ok (ctx', false) →
      BlockWalk m fs block cb offset ctx [offset] (ctx', false)
  /-- A record of length 0. -/
  | last {offset : UInt32} {ctx ctx' : σ} : offset < fs.blockSize →
      cb.atRecord m (block + offset) ctx = .ok (ctx', true) → m.read16 (block + offset + 4) = 0 →
      BlockWalk m fs block cb offset ctx [offset] (ctx', true)
  | next {offset : UInt32} {ctx ctx' : σ} {os : List UInt32} {r : σ × Bool} : offset < fs.blockSize →
      cb.atRecord m (block + offset) ctx = .ok (ctx', true) → m.read16 (block + offset + 4) ≠ 0 →
      BlockWalk m fs block cb (offset + m.read16 (block + offset + 4)) ctx' os r →
      BlockWalk m fs block cb offset ctx (offset :: os) r

/-- The loop over the direct blocks, from block `b` on: the blocks that are walked through, each with the
    offsets of the rounds, and the context it ends with. -/
inductive BlocksWalk {σ : Type} (m : Mem) (fs : Ext2Fs) (dir : Inode) (blkCount : UInt32) (cb : DirentCb σ) :
    Nat → σ → List (Nat × List UInt32) → σ → Prop
  | done {b : Nat} {ctx : σ} : ¬ (b < blkCount.toNat ∧ b < 12) → BlocksWalk m fs dir blkCount cb b ctx [] ctx
  | hole {b : Nat} {ctx ctx' : σ} {ws : List (Nat × List UInt32)} : b < blkCount.toNat → b < 12 →
      dir.iBlock b = 0 → BlocksWalk m fs dir blkCount cb (b + 1) ctx ws ctx' →
      BlocksWalk m fs dir blkCount cb b ctx ws ctx'
  | stop {b : Nat} {ctx ctx' : σ} {os : List UInt32} : b < blkCount.toNat → b < 12 → dir.iBlock b ≠ 0 →
      BlockWalk m fs (fs.image + dir.iBlock b * fs.blockSize) cb 0 ctx os (ctx', false) →
      BlocksWalk m fs dir blkCount cb b ctx [(b, os)] ctx'
  | next {b : Nat} {ctx ctx' ctx'' : σ} {os : List UInt32} {ws : List (Nat × List UInt32)} :
      b < blkCount.toNat → b < 12 → dir.iBlock b ≠ 0 →
      BlockWalk m fs (fs.image + dir.iBlock b * fs.blockSize) cb 0 ctx os (ctx', true) →
      BlocksWalk m fs dir blkCount cb (b + 1) ctx' ws ctx'' →
      BlocksWalk m fs dir blkCount cb b ctx ((b, os) :: ws) ctx''

/-- **Strict progress**: the offsets of the rounds grow, inside the block, and none of the sums that lead
    from one to the next wraps. -/
structure Progress (m : Mem) (block : UInt32) (size : Nat) (os : List UInt32) : Prop where
  grows : os.Pairwise fun o o' => o.toNat < o'.toNat
  inside : ∀ o ∈ os, o.toNat < size
  sums : ∀ o ∈ os, (o + m.read16 (block + o + 4)).toNat = o.toNat + (m.read16 (block + o + 4)).toNat

/-- The offsets of the rounds that call the callback: those of live records. -/
def calledAt (m : Mem) (block : UInt32) (os : List UInt32) : List UInt32 :=
  os.filter fun o => m.read32 (block + o) ≠ 0

/-- A callback that returns on each call. -/
def DirentCb.Returns {σ : Type} (cb : DirentCb σ) : Prop := ∀ ctx name inode, ∃ r, cb ctx name inode = .ok r

section Walk

variable {σ : Type} {m : Mem} {fs : Ext2Fs} {block : UInt32} {cb : DirentCb σ}

theorem DirentCb.Returns.atRecord (hcb : cb.Returns) (m : Mem) (de : UInt32) (ctx : σ) :
    ∃ ctx' goOn, cb.atRecord m de ctx = .ok (ctx', goOn) := by
  unfold DirentCb.atRecord
  by_cases hlive : m.read32 de ≠ 0
  · obtain ⟨⟨ctx', goOn⟩, h⟩ := hcb ctx (direntName m de) (m.read32 de)
    rw [if_pos hlive]
    exact ⟨ctx', goOn, h⟩
  · rw [if_neg hlive]
    exact ⟨ctx, true, rfl⟩

/-- A round of the loop, by what the callback answers. -/
theorem readDirBlock_succ {fuel : Nat} {offset : UInt32} {ctx ctx' : σ} {goOn : Bool}
    (hin : offset < fs.blockSize) (hcb : cb.atRecord m (block + offset) ctx = .ok (ctx', goOn)) :
    readDirBlock m fs block cb (fuel + 1) offset ctx =
      if goOn = false then .ok (ctx', false)
      else if m.read16 (block + offset + 4) = 0 then .ok (ctx', true)
      else readDirBlock m fs block cb fuel (offset + m.read16 (block + offset + 4)) ctx' := by
  rw [readDirBlock, if_pos hin]
  unfold DirentCb.atRecord at hcb
  by_cases hlive : m.read32 (block + offset) ≠ 0
  · rw [if_pos hlive] at hcb
    simp only [if_pos hlive, hcb, ok_bind]
    cases goOn <;> rfl
  · rw [if_neg hlive] at hcb
    cases hcb
    simp only [if_neg hlive]
    rfl

/-- A loop that ends gives its answer with fuel for its rounds. -/
theorem BlockWalk.readDirBlock {offset : UInt32} {ctx : σ} {os : List UInt32} {r : σ × Bool}
    (h : BlockWalk m fs block cb offset ctx os r) {fuel : Nat} (hfuel : os.length ≤ fuel) :
    Drupe.readDirBlock m fs block cb fuel offset ctx = .ok r := by
  induction h generalizing fuel with
  | past hout =>
      cases fuel with
      | zero => rfl
      | succ fuel =>
          rw [Drupe.readDirBlock, if_neg hout]
          rfl
  | stop hin hcb =>
      obtain ⟨fuel, rfl⟩ : ∃ k, fuel = k + 1 := ⟨fuel - 1, by simp only [List.length_singleton] at hfuel; omega⟩
      rw [readDirBlock_succ hin hcb, if_pos rfl]
  | last hin hcb hlen =>
      obtain ⟨fuel, rfl⟩ : ∃ k, fuel = k + 1 := ⟨fuel - 1, by simp only [List.length_singleton] at hfuel; omega⟩
      rw [readDirBlock_succ hin hcb, if_neg (by decide), if_pos hlen]
  | next hin hcb hlen _ ih =>
      rw [List.length_cons] at hfuel
      obtain ⟨fuel, rfl⟩ : ∃ k, fuel = k + 1 := ⟨fuel - 1, by omega⟩
      rw [readDirBlock_succ hin hcb, if_neg (by decide), if_neg hlen]
      exact ih (by omega)

/-- A round that is not the last one leads to a larger offset. -/
theorem next_gt {offset : UInt32} (hsmall : fs.blockSize.toNat ≤ 2 ^ 31) (hin : offset < fs.blockSize)
    (hlen : m.read16 (block + offset + 4) ≠ 0) :
    offset.toNat < (offset + m.read16 (block + offset + 4)).toNat := by
  have := toNat_pos hlen
  rw [next_toNat hsmall hin]
  omega

/-- The offset grows. -/
theorem BlockWalk.progress (hsmall : fs.blockSize.toNat ≤ 2 ^ 31) {offset : UInt32} {ctx : σ}
    {os : List UInt32} {r : σ × Bool} (h : BlockWalk m fs block cb offset ctx os r) :
    Progress m block fs.blockSize.toNat os ∧ ∀ o ∈ os, offset.toNat ≤ o.toNat := by
  have hone : ∀ {offset : UInt32}, offset < fs.blockSize → Progress m block fs.blockSize.toNat [offset] ∧
      ∀ o ∈ [offset], offset.toNat ≤ o.toNat := by
    intro offset hin
    refine ⟨⟨List.pairwise_singleton _ _, ?_, ?_⟩, ?_⟩
    all_goals
      intro o ho
      obtain rfl := List.mem_singleton.mp ho
    · exact UInt32.lt_iff_toNat_lt.mp hin
    · exact next_toNat hsmall hin _
    · exact Nat.le_refl _
  induction h with
  | past _ => exact ⟨⟨List.Pairwise.nil, by simp, by simp⟩, by simp⟩
  | stop hin _ => exact hone hin
  | last hin _ _ => exact hone hin
  | @next offset _ _ os _ hin _ hlen _ ih =>
      obtain ⟨⟨hgrows, hinside, hsums⟩, hfrom⟩ := ih
      obtain ⟨⟨-, hinside₁, hsums₁⟩, -⟩ := hone hin
      have hgt := next_gt hsmall hin hlen
      refine ⟨⟨List.pairwise_cons.mpr ⟨fun o ho => ?_, hgrows⟩, ?_, ?_⟩, ?_⟩
      · exact Nat.lt_of_lt_of_le hgt (hfrom o ho)
      · intro o ho
        rcases List.mem_cons.mp ho with rfl | ho
        · exact hinside₁ o List.mem_cons_self
        · exact hinside o ho
      · intro o ho
        rcases List.mem_cons.mp ho with rfl | ho
        · exact hsums₁ o List.mem_cons_self
        · exact hsums o ho
      · intro o ho
        rcases List.mem_cons.mp ho with rfl | ho
        · exact Nat.le_refl _
        · exact Nat.le_of_lt (Nat.lt_of_lt_of_le hgt (hfrom o ho))

/-- Offsets that grow inside a block are no more than its bytes. -/
theorem Progress.length_le {size : Nat} {os : List UInt32} (h : Progress m block size os) : os.length ≤ size := by
  have hnodup : (os.map UInt32.toNat).Nodup :=
    List.pairwise_map.mpr (h.grows.imp fun hlt => Nat.ne_of_lt hlt)
  have hsub : os.map UInt32.toNat ⊆ List.range size := by
    intro n hn
    obtain ⟨o, ho, rfl⟩ := List.mem_map.mp hn
    exact List.mem_range.mpr (h.inside o ho)
  have hle := (List.subperm_of_subset hnodup hsub).length_le
  rw [List.length_map, List.length_range] at hle
  exact hle

/-- **The loop through a block ends**: what is left of the block gets smaller. -/
theorem blockWalk_exists (hsmall : fs.blockSize.toNat ≤ 2 ^ 31) (hcb : cb.Returns) (block offset : UInt32)
    (ctx : σ) : ∃ os r, BlockWalk m fs block cb offset ctx os r := by
  induction hleft : fs.blockSize.toNat - offset.toNat using Nat.strongRecOn generalizing offset ctx with
  | ind left ih =>
      by_cases hin : offset < fs.blockSize
      case neg => exact ⟨[], _, .past hin⟩
      obtain ⟨ctx', goOn, hcall⟩ := hcb.atRecord m (block + offset) ctx
      cases goOn with
      | false => exact ⟨_, _, .stop hin hcall⟩
      | true =>
          by_cases hlen : m.read16 (block + offset + 4) = 0
          · exact ⟨_, _, .last hin hcall hlen⟩
          · have hlt := UInt32.lt_iff_toNat_lt.mp hin
            have hgt := next_gt hsmall hin hlen
            obtain ⟨os, r, hrest⟩ := ih (fs.blockSize.toNat - (offset + m.read16 (block + offset + 4)).toNat)
              (by omega) _ ctx' rfl
            exact ⟨_, _, .next hin hcall hlen hrest⟩

/-- The loop over the blocks ends with what `readDirBlocks` returns. -/
theorem BlocksWalk.readDirBlocks (hsmall : fs.blockSize.toNat ≤ 2 ^ 31) {dir : Inode} {blkCount : UInt32}
    {b : Nat} {ctx ctx' : σ} {ws : List (Nat × List UInt32)}
    (h : BlocksWalk m fs dir blkCount cb b ctx ws ctx') {fuel : Nat} (hfuel : b + fuel = 12) :
    Drupe.readDirBlocks m fs dir blkCount cb fuel b ctx = .ok ctx' := by
  induction h generalizing fuel with
  | done hdone =>
      cases fuel with
      | zero => rfl
      | succ fuel =>
          rw [Drupe.readDirBlocks, if_neg fun hlt => hdone ⟨hlt, by omega⟩]
          rfl
  | hole hlt hb hhole _ ih =>
      obtain ⟨fuel, rfl⟩ : ∃ k, fuel = k + 1 := ⟨fuel - 1, by omega⟩
      rw [Drupe.readDirBlocks, if_pos hlt, if_pos hhole]
      exact ih (by omega)
  | stop hlt hb hhole hwalk =>
      obtain ⟨fuel, rfl⟩ : ∃ k, fuel = k + 1 := ⟨fuel - 1, by omega⟩
      rw [Drupe.readDirBlocks, if_pos hlt, if_neg hhole]
      simp only [hwalk.readDirBlock (hwalk.progress hsmall).1.length_le, ok_bind]
      rfl
  | next hlt hb hhole hwalk _ ih =>
      obtain ⟨fuel, rfl⟩ : ∃ k, fuel = k + 1 := ⟨fuel - 1, by omega⟩
      rw [Drupe.readDirBlocks, if_pos hlt, if_neg hhole]
      simp only [hwalk.readDirBlock (hwalk.progress hsmall).1.length_le, ok_bind]
      exact ih (by omega)

/-- Each block is walked through once at most, and there are 12. -/
theorem BlocksWalk.walked (hsmall : fs.blockSize.toNat ≤ 2 ^ 31) {dir : Inode} {blkCount : UInt32}
    {b : Nat} {ctx ctx' : σ} {ws : List (Nat × List UInt32)}
    (h : BlocksWalk m fs dir blkCount cb b ctx ws ctx') :
    (ws = [] ∨ b + ws.length ≤ 12) ∧
      ∀ w ∈ ws, Progress m (fs.image + dir.iBlock w.1 * fs.blockSize) fs.blockSize.toNat w.2 := by
  induction h with
  | done _ => exact ⟨.inl rfl, by simp⟩
  | hole _ _ _ _ ih => exact ⟨ih.1.imp_right fun h => by omega, ih.2⟩
  | stop _ hb _ hwalk =>
      refine ⟨.inr ?_, fun w hw => ?_⟩
      · rw [List.length_singleton]
        exact hb
      · obtain rfl := List.mem_singleton.mp hw
        exact (hwalk.progress hsmall).1
  | next _ hb _ hwalk _ ih =>
      obtain ⟨hlen, hall⟩ := ih
      refine ⟨.inr ?_, fun w hw => ?_⟩
      · rw [List.length_cons]
        rcases hlen with rfl | hlen
        · rw [List.length_nil]
          omega
        · omega
      · rcases List.mem_cons.mp hw with rfl | hw
        · exact (hwalk.progress hsmall).1
        · exact hall w hw

/-- **The loop over the blocks ends.** -/
theorem blocksWalk_exists (hsmall : fs.blockSize.toNat ≤ 2 ^ 31) (hcb : cb.Returns) (dir : Inode)
    (blkCount : UInt32) (b : Nat) (ctx : σ) : ∃ ws ctx', BlocksWalk m fs dir blkCount cb b ctx ws ctx' := by
  induction hleft : 12 - b generalizing b ctx with
  | zero => exact ⟨[], ctx, .done fun h => by omega⟩
  | succ left ih =>
      by_cases hlt : b < blkCount.toNat
      case neg => exact ⟨[], ctx, .done fun h => hlt h.1⟩
      have hb : b < 12 := by omega
      by_cases hhole : dir.iBlock b = 0
      · obtain ⟨ws, ctx', hrest⟩ := ih (b + 1) ctx (by omega)
        exact ⟨ws, ctx', .hole hlt hb hhole hrest⟩
      obtain ⟨os, ⟨ctx₁, goOn⟩, hwalk⟩ := blockWalk_exists (m := m) hsmall hcb
        (fs.image + dir.iBlock b * fs.blockSize) 0 ctx
      cases goOn with
      | false => exact ⟨_, ctx₁, .stop hlt hb hhole hwalk⟩
      | true =>
          obtain ⟨ws, ctx', hrest⟩ := ih (b + 1) ctx₁ (by omega)
          exact ⟨_, ctx', .next hlt hb hhole hwalk hrest⟩

end Walk

/-- **`ext2ReadDir` returns.** For every memory, every inode and every block size up to `2^31`, with a
    callback that returns: both loops end, in 12 rounds of the outer one at most. The rounds of the inner
    one go on from smaller offsets to larger ones, without a sum that wraps, so that in each block there
    are as many at most as it has bytes, and so many calls of the callback. -/
theorem ext2ReadDir_terminates {k : Nat} (hk : k ≤ 21) {fs : Ext2Fs} (hsize : fs.BlockSized k) {σ : Type}
    {cb : DirentCb σ} (hcb : cb.Returns) (m : Mem) (dir : Inode) (ctx : σ) :
    ∃ ws ctx', BlocksWalk m fs dir (dir.iBlocks / (fs.blockSize / 512)) cb 0 ctx ws ctx' ∧
      ext2ReadDir m fs dir cb ctx = .ok ctx' ∧ ws.length ≤ 12 ∧
      ∀ w ∈ ws, Progress m (fs.image + dir.iBlock w.1 * fs.blockSize) fs.blockSize.toNat w.2 ∧
        w.2.length ≤ fs.blockSize.toNat ∧
        (calledAt m (fs.image + dir.iBlock w.1 * fs.blockSize) w.2).length ≤ fs.blockSize.toNat := by
  have hsmall := hsize.le hk
  have hdiv : fs.blockSize / 512 ≠ 0 := by
    have hpow := Nat.one_le_two_pow (n := k)
    have h512 : (512 : UInt32).toNat = 512 := rfl
    have hzero : (0 : UInt32).toNat = 0 := rfl
    rw [Ne, ← UInt32.toNat_inj, UInt32.toNat_div, hsize, h512, hzero]
    omega
  obtain ⟨ws, ctx', hwalk⟩ := blocksWalk_exists (m := m) hsmall hcb dir (dir.iBlocks / (fs.blockSize / 512)) 0 ctx
  obtain ⟨hlen, hall⟩ := hwalk.walked hsmall
  refine ⟨ws, ctx', hwalk, ?_, ?_, fun w hw => ?_⟩
  · rw [ext2ReadDir_cases, if_neg hdiv]
    exact hwalk.readDirBlocks hsmall rfl
  · rcases hlen with rfl | hlen
    · exact Nat.zero_le _
    · omega
  · have hle := (hall w hw).length_le
    exact ⟨hall w hw, hle, Nat.le_trans (List.length_filter_le _ _) hle⟩

/-- The directory with one record. -/
theorem ext2ReadDir_terminates_oneRecord : ∃ ws ctx',
    BlocksWalk oneRecordMem smallFs firstBlockDir (firstBlockDir.iBlocks / (smallFs.blockSize / 512))
      (.always fun calls _ _ => calls + 1) 0 0 ws ctx' ∧ (ctx' : Nat) = 1 ∧ ws.length ≤ 12 := by
  have hcounts : DirentCb.Returns (.always fun (calls : Nat) _ _ => calls + 1) := fun ctx _ _ =>
    ⟨(ctx + 1, true), rfl⟩
  obtain ⟨ws, ctx', hwalk, hreturns, hlen, -⟩ := ext2ReadDir_terminates (k := 0) (by decide) smallFs_blockSized
    hcounts oneRecordMem firstBlockDir 0
  have hone : ext2ReadDir oneRecordMem smallFs firstBlockDir (.always fun (calls : Nat) _ _ => calls + 1) 0
      = .ok 1 := by decide +kernel
  rw [hone] at hreturns
  cases hreturns
  exact ⟨ws, 1, hwalk, rfl, hlen⟩

end Drupe
