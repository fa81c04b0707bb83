import Mathlib.Algebra.BigOperators.Group.List.Basic
import Drupe.Boot.Multiboot

/-!
# `Boot.Correctness.AvailableMemory` — what the memory map adds up to

`TagsAt` is an information structure read as a list of tags. The loop of `mb2GetMemory` follows that list to
the first memory-map tag (`tagLoop_skip`), and from there the list of its entries (`mmapLoop_eq`), so the
answer is the sum over the available ones (`mb2GetMemory_eq`). Padding, the trailing bytes of an entry and
the tags after the first memory map do not occur in it.
-/

namespace Drupe

/-- `multiboot_tag_t` -/
structure Tag where
  type : UInt32
  size : UInt32

/-- The size of a tag with its padding. -/
def Tag.stride (t : Tag) : Nat := (t.size.toNat + 7) / 8 * 8

/-- The tags at address `a`, up to the tag of type 0 that ends them, which ends within the address space. -/
def TagsAt (m : Mem) : (a : Nat) → List Tag → Prop
  | a, [] => m.read32 (UInt32.ofNat a) = multibootTagTypeEnd ∧ a + 8 ≤ 2 ^ 32
  | a, t :: ts =>
    m.read32 (UInt32.ofNat a) = t.type ∧ t.type ≠ multibootTagTypeEnd ∧
    m.read32 (UInt32.ofNat a + 4) = t.size ∧ 8 ≤ t.size.toNat ∧ TagsAt m (a + t.stride) ts

/-- The fields of a `multiboot_mmap_entry_t` that are read. -/
structure MmapEntry where
  len : UInt64
  type : UInt32

/-- The `n` entries at address `a`, `entrySize` bytes apart. -/
def mmapEntries (m : Mem) (entrySize : Nat) : (n a : Nat) → List MmapEntry
  | 0, _ => []
  | n + 1, a =>
    ⟨m.read64 (UInt32.ofNat a + 8), m.read32 (UInt32.ofNat a + 16)⟩ ::
      mmapEntries m entrySize n (a + entrySize)

/-- The bytes of the available entries, each entry counted once. -/
def availableBytes (entries : List MmapEntry) : Nat :=
  ((entries.filter fun e => e.type = multibootMemoryAvailable).map fun e => e.len.toNat).sum

/-! ## Rounding -/

/-- Bit `i` of `~7`. -/
theorem testBit_not_seven (i : Nat) : (~~~7 : UInt32).toNat.testBit i = decide (3 ≤ i ∧ i < 32) := by
  rcases Nat.lt_or_ge i 32 with hlt | hge
  · have hall : ∀ j : Fin 32, (~~~7 : UInt32).toNat.testBit j = decide (3 ≤ j.val ∧ j.val < 32) := by
      decide
    exact hall ⟨i, hlt⟩
  · have hsmall : (~~~7 : UInt32).toNat < 2 ^ i :=
      Nat.lt_of_lt_of_le (UInt32.toNat_lt _) (Nat.pow_le_pow_right (by decide) hge)
    rw [Nat.testBit_lt_two_pow hsmall]
    simp only [Nat.not_lt.mpr hge, and_false, decide_false]

/-- `x & ~7` rounds down to a multiple of 8. -/
theorem toNat_and_not_seven (x : UInt32) : (x &&& ~~~7).toNat = x.toNat / 8 * 8 := by
  apply Nat.eq_of_testBit_eq
  intro i
  rw [UInt32.toNat_and, Nat.testBit_and, testBit_not_seven, show (8 : Nat) = 2 ^ 3 from rfl,
    Nat.testBit_mul_two_pow, Nat.testBit_div_two_pow]
  by_cases h3 : 3 ≤ i
  · rw [Nat.sub_add_cancel h3]
    rcases Nat.lt_or_ge i 32 with hlt | hge
    · simp [h3, hlt]
    · have hsmall : x.toNat < 2 ^ i :=
        Nat.lt_of_lt_of_le x.toNat_lt (Nat.pow_le_pow_right (by decide) hge)
      simp [Nat.testBit_lt_two_pow hsmall]
  · simp [h3]

/-- The tag after `t` is where the loop goes on. -/
theorem next_tag {t : Tag} {a : Nat} (h : a + t.stride < 2 ^ 32) :
    UInt32.ofNat a + ((t.size + 7) &&& ~~~7) = UInt32.ofNat (a + t.stride) := by
  have hround : ((t.size + 7) &&& ~~~7).toNat = t.stride := by
    have hsize := t.size.toNat_lt
    unfold Tag.stride at h ⊢
    rw [toNat_and_not_seven, UInt32.toNat_add]
    show (t.size.toNat + 7) % 4294967296 / 8 * 8 = _
    omega
  rw [UInt32.ofNat_add, ← hround, UInt32.ofNat_toNat]

/-! ## The loop over the tags -/

/-- The bytes of a list of tags with their padding. -/
def strides (ts : List Tag) : Nat := (ts.map Tag.stride).sum

section Tags

variable {m : Mem}

/-- The tags end within the address space, and there are at most as many as fit there. -/
theorem TagsAt.fits {ts : List Tag} {a : Nat} (h : TagsAt m a ts) :
    a + strides ts + 8 ≤ 2 ^ 32 ∧ 8 * ts.length ≤ strides ts := by
  induction ts generalizing a with
  | nil => exact ⟨h.2, Nat.le_refl 0⟩
  | cons t ts ih =>
      obtain ⟨-, -, -, hsize, hrest⟩ := h
      obtain ⟨hend, hlen⟩ := ih hrest
      have hcons : strides (t :: ts) = t.stride + strides ts := rfl
      have hstride : 8 ≤ t.stride := by
        unfold Tag.stride
        omega
      rw [hcons, List.length_cons]
      omega

/-- Tags of another type than the memory map are passed over. -/
theorem tagLoop_skip {pre ts : List Tag} {a : Nat} (h : TagsAt m a (pre ++ ts))
    (hpre : ∀ t ∈ pre, t.type ≠ multibootTagTypeMmap) (fuel : Nat) :
    TagsAt m (a + strides pre) ts ∧
    tagLoop m (pre.length + fuel) (UInt32.ofNat a) = tagLoop m fuel (UInt32.ofNat (a + strides pre)) := by
  induction pre generalizing a with
  | nil => exact ⟨h, by rw [List.length_nil, Nat.zero_add]; rfl⟩
  | cons t pre ih =>
      have hfits := h.fits.1
      obtain ⟨htype, hend, hsize, -, hrest⟩ := h
      have hcons : strides (t :: pre) = t.stride + strides pre := rfl
      have hmore : strides (t :: pre ++ ts) = t.stride + strides (pre ++ ts) := rfl
      obtain ⟨hts, hloop⟩ := ih hrest (fun x hx => hpre x (List.mem_cons_of_mem _ hx))
      rw [hcons, ← Nat.add_assoc]
      refine ⟨hts, ?_⟩
      rw [List.length_cons, Nat.add_right_comm, tagLoop, htype, if_neg hend,
        if_neg (hpre t List.mem_cons_self), hsize, next_tag (by omega)]
      exact hloop

end Tags

/-! ## The loop over the entries -/

/-- What the entries add up to, from `available` on. -/
theorem mmapLoop_eq {m : Mem} {e : UInt32} (he : 0 < e.toNat) (n : Nat) {a fuel : Nat} (available : Nat)
    (hend : a + n * e.toNat < 2 ^ 32) (hfuel : n < fuel) :
    mmapLoop m e (UInt32.ofNat (a + n * e.toNat)) fuel (UInt32.ofNat a) (UInt64.ofNat available)
      = .ok (UInt64.ofNat (available + availableBytes (mmapEntries m e.toNat n a))) := by
  obtain ⟨fuel, rfl⟩ : ∃ k, fuel = k + 1 := ⟨fuel - 1, by omega⟩
  induction n generalizing a available fuel with
  | zero =>
      rw [mmapLoop, if_neg (by rw [Nat.zero_mul]; exact UInt32.lt_irrefl _)]
      rfl
  | succ n ih =>
      rw [Nat.succ_mul] at hend
      have hlt : UInt32.ofNat a < UInt32.ofNat (a + (n + 1) * e.toNat) := by
        rw [UInt32.lt_iff_toNat_lt, UInt32.toNat_ofNat', UInt32.toNat_ofNat', Nat.succ_mul]
        omega
      have hnext : UInt32.ofNat a + e = UInt32.ofNat (a + e.toNat) := by
        rw [UInt32.ofNat_add, UInt32.ofNat_toNat]
      have hsame : a + (n + 1) * e.toNat = a + e.toNat + n * e.toNat := by
        rw [Nat.succ_mul]
        omega
      obtain ⟨fuel, rfl⟩ : ∃ k, fuel = k + 1 := ⟨fuel - 1, by omega⟩
      rw [mmapLoop, if_pos hlt, hnext, hsame, mmapEntries]
      unfold availableBytes
      by_cases htype : m.read32 (UInt32.ofNat a + 16) = multibootMemoryAvailable
      · have hadd : UInt64.ofNat available + m.read64 (UInt32.ofNat a + 8)
            = UInt64.ofNat (available + (m.read64 (UInt32.ofNat a + 8)).toNat) := by
          rw [UInt64.ofNat_add, UInt64.ofNat_toNat]
        simp only [if_pos htype, hadd]
        rw [ih _ (by omega) fuel (by omega), List.filter_cons_of_pos (by simpa using htype),
          List.map_cons, List.sum_cons, ← Nat.add_assoc]
        rfl
      · simp only [if_neg htype]
        rw [ih _ (by omega) fuel (by omega), List.filter_cons_of_neg (by simpa using htype)]
        rfl

/-- **The available memory.** For every information structure laid out as a list of tags: without a
    memory-map tag the answer is 0; otherwise, when the first one holds `n` entries of `e ≥ 24` bytes, the
    answer is the number of bytes of those that are available, modulo `2^64`. -/
theorem mb2GetMemory_eq {m : Mem} {addr : UInt32} {tags : List Tag}
    (htags : TagsAt m (addr.toNat + 8) tags) :
    ((∀ t ∈ tags, t.type ≠ multibootTagTypeMmap) → mb2GetMemory m multiboot2Magic addr = .ok 0) ∧
    ∀ pre t post, tags = pre ++ t :: post → (∀ x ∈ pre, x.type ≠ multibootTagTypeMmap) →
      t.type = multibootTagTypeMmap →
      ∀ (e : UInt32) (n : Nat), m.read32 (UInt32.ofNat (addr.toNat + 8 + strides pre) + 8) = e →
        24 ≤ e.toNat → t.size.toNat = 16 + n * e.toNat →
        mb2GetMemory m multiboot2Magic addr = .ok (UInt64.ofNat (availableBytes
          (mmapEntries m e.toNat n (addr.toNat + 8 + strides pre + 16)))) := by
  have hstart : mb2GetMemory m multiboot2Magic addr
      = tagLoop m (2 ^ 32) (UInt32.ofNat (addr.toNat + 8)) := by
    rw [UInt32.ofNat_add, UInt32.ofNat_toNat]
    exact if_neg (not_not.mpr rfl)
  obtain ⟨hend, hlen⟩ := htags.fits
  rw [hstart]
  constructor
  · intro hnone
    have happ : TagsAt m (addr.toNat + 8) (tags ++ []) := by rw [List.append_nil]; exact htags
    obtain ⟨fuel, hfuel⟩ : ∃ k, 2 ^ 32 = tags.length + (k + 1) := ⟨2 ^ 32 - tags.length - 1, by omega⟩
    obtain ⟨hlast, hloop⟩ := tagLoop_skip happ hnone (fuel + 1)
    rw [hfuel, hloop, tagLoop, if_pos hlast.1]
  · intro pre t post htags' hpre htype e n he he24 hsize
    rw [htags'] at htags hend hlen
    have hsplit : strides (pre ++ t :: post) = strides pre + (t.stride + strides post) := by
      unfold strides
      rw [List.map_append, List.sum_append, List.map_cons, List.sum_cons]
    rw [List.length_append] at hlen
    obtain ⟨fuel, hfuel⟩ : ∃ k, 2 ^ 32 = pre.length + (k + 1) := ⟨2 ^ 32 - pre.length - 1, by omega⟩
    obtain ⟨⟨htag, -, htsize, -, -⟩, hloop⟩ := tagLoop_skip htags hpre (fuel + 1)
    have hstride : t.size.toNat ≤ t.stride := by
      unfold Tag.stride
      omega
    have hcount : n ≤ n * e.toNat := Nat.le_mul_of_pos_right n (by omega)
    -- the entries begin after the header, and end where the tag does
    have hfirst : UInt32.ofNat (addr.toNat + 8 + strides pre) + mmapTagSize
        = UInt32.ofNat (addr.toNat + 8 + strides pre + 16) := by
      rw [UInt32.ofNat_add (addr.toNat + 8 + strides pre) 16]
      rfl
    have hlast : UInt32.ofNat (addr.toNat + 8 + strides pre) + t.size
        = UInt32.ofNat (addr.toNat + 8 + strides pre + 16 + n * e.toNat) := by
      rw [Nat.add_assoc (addr.toNat + 8 + strides pre), ← hsize,
        UInt32.ofNat_add (addr.toNat + 8 + strides pre), UInt32.ofNat_toNat]
    rw [hfuel, hloop, tagLoop, htag, htype, if_neg (by decide), if_pos rfl, htsize, he, hfirst, hlast]
    have hsum := mmapLoop_eq (m := m) (by omega) n 0
      (show addr.toNat + 8 + strides pre + 16 + n * e.toNat < 2 ^ 32 by omega)
      (show n < 2 ^ 32 by omega)
    rw [Nat.zero_add] at hsum
    exact hsum

/-- A structure at `0x1000`: a tag of 9 bytes with its padding, a memory map with one available entry and one
    that is not, and the end tag. -/
def bootInfo : Mem := fun a =>
  ([80, 0, 0, 0, 0, 0, 0, 0] ++ [1, 0, 0, 0, 9, 0, 0, 0, 65, 1, 2, 3, 4, 5, 6, 7] ++
    [6, 0, 0, 0, 64, 0, 0, 0, 24, 0, 0, 0, 0, 0, 0, 0] ++
    [0, 0, 0, 0, 0, 0, 0, 0, 0, 0, 32, 0, 0, 0, 0, 0, 1, 0, 0, 0, 0, 0, 0, 0] ++
    [0, 0, 64, 0, 0, 0, 0, 0, 0, 0, 1, 0, 0, 0, 0, 0, 2, 0, 0, 0, 0, 0, 0, 0])[(a - 0x1000).toNat]?.getD 0

theorem mb2GetMemory_eq_bootInfo :
    mb2GetMemory bootInfo multiboot2Magic 0x1000 = .ok 0x200000 := by
  have htags : TagsAt bootInfo ((0x1000 : UInt32).toNat + 8) [⟨1, 9⟩, ⟨6, 64⟩] :=
    ⟨by decide, by decide, by decide, by decide, by decide, by decide, by decide, by decide, by decide,
      by decide⟩
  have hmap := (mb2GetMemory_eq htags).2 [⟨1, 9⟩] ⟨6, 64⟩ [] rfl
    (fun x hx => by rw [List.mem_singleton.mp hx]; decide) rfl 24 2 (by decide) (by decide) (by decide)
  rw [hmap]
  decide

end Drupe
