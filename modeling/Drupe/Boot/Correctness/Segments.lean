import Drupe.Boot.Correctness.Integrity
import Drupe.Boot.Correctness.IoPorts
import Drupe.Lib.Segment

/-!
# `Boot.Correctness.Segments` — the segments that the kernel uses

`gdt_set_entry` takes a base and a limit apart, and the processor puts them together again
(`gdtSetEntry_segment`). After any of the kernel's own operations on the tables, each selector that its code loads
names the segment that the code relies on, and ring 3 gets at none but its own (`run_selectors`).
-/

namespace Drupe

open Lib Lib.X86

/-- An entry, as the processor reads it. -/
def GdtEntry.segment (e : GdtEntry) : Segment where
  base := e.baseLow.toNat + 65536 * e.baseMiddle.toNat + 16777216 * e.baseHigh.toNat
  limit := e.limit
  access := e.access
  wide := e.granularity &&& 0x40 ≠ 0

/-- The segment of a selector. The first entry is none. -/
def Gdt.segment (g : Gdt) (sel : UInt16) : Option Segment :=
  if sel &&& 4 ≠ 0 ∨ selectorIndex sel = 0 then none else g.gdtEntries[selectorIndex sel]?.map GdtEntry.segment

/-- The parts of a base. -/
theorem toNat_parts (a : UInt32) : (a &&& 0xFFFF).toUInt16.toNat = a.toNat % 65536 ∧
    ((a >>> 16) &&& 0xFF).toUInt8.toNat = a.toNat / 65536 % 256 ∧
    ((a >>> 24) &&& 0xFF).toUInt8.toNat = a.toNat / 16777216 ∧
    ((a >>> 16) &&& 0x0F).toUInt8.toNat = a.toNat / 65536 % 16 := by
  have ha := a.toNat_lt
  have h16 : (a >>> 16).toNat = a.toNat / 65536 := by
    rw [UInt32.toNat_shiftRight]
    exact Nat.shiftRight_eq_div_pow a.toNat 16
  have h24 : (a >>> 24).toNat = a.toNat / 16777216 := by
    rw [UInt32.toNat_shiftRight]
    exact Nat.shiftRight_eq_div_pow a.toNat 24
  have hlow : (a &&& 0xFFFF).toNat = a.toNat % 65536 := by
    rw [UInt32.toNat_and]
    exact Nat.and_two_pow_sub_one_eq_mod a.toNat 16
  have hmiddle : ((a >>> 16) &&& 0xFF).toNat = a.toNat / 65536 % 256 := by
    rw [UInt32.toNat_and, h16]
    exact Nat.and_two_pow_sub_one_eq_mod _ 8
  have hhigh : ((a >>> 24) &&& 0xFF).toNat = a.toNat / 16777216 % 256 := by
    rw [UInt32.toNat_and, h24]
    exact Nat.and_two_pow_sub_one_eq_mod _ 8
  have hlimit : ((a >>> 16) &&& 0x0F).toNat = a.toNat / 65536 % 16 := by
    rw [UInt32.toNat_and, h16]
    exact Nat.and_two_pow_sub_one_eq_mod _ 4
  rw [UInt32.toNat_toUInt16, UInt32.toNat_toUInt8, UInt32.toNat_toUInt8, UInt32.toNat_toUInt8, hlow, hmiddle, hhigh,
    hlimit]
  omega

/-- The two halves of a granularity byte. -/
theorem granularity_parts {x : UInt8} (hx : x.toNat < 16) (gran : UInt8) :
    ((x ||| (gran &&& 0xF0)) &&& 0xF).toNat = x.toNat ∧ (x ||| (gran &&& 0xF0)) &&& 0x80 = gran &&& 0x80 ∧
      (x ||| (gran &&& 0xF0)) &&& 0x40 = gran &&& 0x40 := by
  have hlow : ∀ i : Fin 16, (UInt8.ofNat i &&& 0xF).toNat = i ∧ UInt8.ofNat i &&& 0x80 = 0 ∧
      UInt8.ofNat i &&& 0x40 = 0 := by decide
  obtain ⟨hdigit, hgranular, hwide⟩ := hlow ⟨x.toNat, hx⟩
  rw [UInt8.ofNat_toNat] at hdigit hgranular hwide
  have hf : (0xF0 : UInt8) &&& 0xF = 0 := by decide
  have h80 : (0xF0 : UInt8) &&& 0x80 = 0x80 := by decide
  have h40 : (0xF0 : UInt8) &&& 0x40 = 0x40 := by decide
  have hsplit : ∀ m, (x ||| (gran &&& 0xF0)) &&& m = (x &&& m) ||| (gran &&& (0xF0 &&& m)) := by
    intro m
    rw [← UInt8.and_assoc, ← UInt8.toBitVec_inj]
    exact BitVec.and_or_distrib_right
  rw [hsplit, hsplit, hsplit, hf, h80, h40, hgranular, hwide, UInt8.and_zero, UInt8.or_zero, UInt8.zero_or,
    UInt8.zero_or]
  exact ⟨hdigit, rfl, rfl⟩

/-- The other entries stay. -/
theorem gdtSetEntry_ne (entries : Vector GdtEntry gdtEntriesCount) {index : Int} (base limit : UInt32)
    (access gran : UInt8) {j : Nat} (hj : (j : Int) ≠ index) :
    (gdtSetEntry entries index base limit access gran)[j]? = entries[j]? := by
  unfold gdtSetEntry
  split
  · rfl
  · rw [Vector.getElem?_setIfInBounds, if_neg (by omega)]

/-- **`gdt_set_entry` and the processor agree**: in the table that it leaves, the entry is a segment with the base, the
    access byte and the flags that it was given, and the low 20 bits of the limit. The other entries stay, byte for
    byte, and an index that is out of the table changes nothing. -/
theorem gdtSetEntry_segment (entries : Vector GdtEntry gdtEntriesCount) (index : Int) (base limit : UInt32)
    (access gran : UInt8) (j : Nat) :
    (gdtSetEntry entries index base limit access gran)[j]?.map GdtEntry.segment =
      (if (j : Int) = index ∧ j < gdtEntriesCount then some
        { base := base.toNat
          limit := if gran &&& 0x80 = 0 then limit.toNat % 1048576 else 4096 * (limit.toNat % 1048576) + 4095
          access
          wide := gran &&& 0x40 ≠ 0 }
      else entries[j]?.map GdtEntry.segment) ∧
    ((j : Int) ≠ index → (gdtSetEntry entries index base limit access gran)[j]? = entries[j]?) := by
  refine ⟨?_, fun hj => gdtSetEntry_ne entries base limit access gran hj⟩
  unfold gdtSetEntry
  by_cases hout : index < 0 ∨ index ≥ gdtEntriesCount
  · rw [if_pos hout, if_neg (by omega)]
  · obtain ⟨i, rfl⟩ : ∃ i : Nat, (i : Int) = index := ⟨index.toNat, by omega⟩
    rw [if_neg hout, Int.toNat_natCast, Vector.getElem?_setIfInBounds]
    by_cases hij : i = j
    · subst hij
      have hi : i < gdtEntriesCount := by omega
      obtain ⟨hbase, hmiddle, hhigh, -⟩ := toNat_parts base
      obtain ⟨hlimit, -, -, hdigit⟩ := toNat_parts limit
      obtain ⟨hnibble, hgranular, hwide⟩ := granularity_parts (by rw [hdigit]; omega) gran
      have hsum : base.toNat % 65536 + 65536 * (base.toNat / 65536 % 256) + 16777216 * (base.toNat / 16777216)
          = base.toNat := by omega
      have hlow : limit.toNat % 65536 + 65536 * (limit.toNat / 65536 % 16) = limit.toNat % 1048576 := by omega
      rw [if_pos rfl, if_pos hi, if_pos ⟨rfl, hi⟩, Option.map_some]
      unfold GdtEntry.segment GdtEntry.limit
      simp only [hbase, hmiddle, hhigh, hlimit, hnibble, hdigit, hgranular, hwide, hsum, hlow]
    · have hcast : ¬ ((j : Int) = (i : Int) ∧ j < gdtEntriesCount) := by omega
      rw [if_neg hij, if_neg hcast]

/-- The segments of `gdt_setup`, by their indexes. -/
def kernelSegments : List Segment :=
  [⟨0, 0, 0, false⟩, ⟨0, 0xFFFFFFFF, 0x9B, true⟩, ⟨0, 0xFFFFFFFF, 0x93, true⟩, ⟨0, 0xFFFFFFFF, 0xFA, true⟩,
    ⟨0, 0xFFFFFFFF, 0xF2, true⟩]

/-- What a selector names, in a table with some entry for the task state segment. -/
theorem segment_eq {g : Gdt} {e : GdtEntry}
    (hentries : g.gdtEntries = (gdtLoad gdtTable).setIfInBounds gdtTssEntry e) (sel : UInt16) :
    g.segment sel = if sel &&& 4 ≠ 0 ∨ selectorIndex sel = 0 then none
      else (kernelSegments ++ [e.segment])[selectorIndex sel]? := by
  have hkernel : ∀ i < 5, ((gdtLoad gdtTable)[i]?).map GdtEntry.segment = kernelSegments[i]? := by
    decide
  unfold Gdt.segment
  split
  · rfl
  generalize selectorIndex sel = i
  rw [hentries, Vector.getElem?_setIfInBounds]
  rcases Nat.lt_trichotomy i 5 with hlt | rfl | hgt
  · rw [if_neg (show ¬ gdtTssEntry = i from (Nat.ne_of_lt hlt).symm), hkernel i hlt, List.getElem?_append_left hlt]
  · rfl
  · rw [if_neg (show ¬ gdtTssEntry = i from Nat.ne_of_lt hgt), List.getElem?_eq_none (show 6 ≤ i from hgt),
      Vector.getElem?_eq_none (show 6 ≤ i from hgt)]
    rfl

theorem tssDescriptor_segment (tssAddr : UInt32) :
    (tssDescriptor tssAddr).segment = ⟨tssAddr.toNat, 103, 0x89, false⟩ := by
  obtain ⟨hlow, hmiddle, hhigh, -⟩ := toNat_parts tssAddr
  have hsum : tssAddr.toNat % 65536 + 65536 * (tssAddr.toNat / 65536 % 256) + 16777216 * (tssAddr.toNat / 16777216)
      = tssAddr.toNat := by omega
  unfold GdtEntry.segment
  rw [tssDescriptor_limit]
  simp only [tssDescriptor, hlow, hmiddle, hhigh, hsum, Segment.mk.injEq, true_and]
  exact decide_eq_false (by decide)

/-- The entry of the task state segment after a run. -/
theorem run_entries (addrs : TableAddrs) (t : Tables) (ops : List TableOp) :
    ∃ e, (ops.foldl (Tables.apply addrs) (t.gdtSetup addrs)).gdt.gdtEntries
        = (gdtLoad gdtTable).setIfInBounds gdtTssEntry e ∧
      ((UpToDate ops ∧ e.segment = ⟨0, 0, 0, false⟩) ∨
        (¬ UpToDate ops ∧ e.segment = ⟨addrs.tss.toNat, 103, 0x89, false⟩)) := by
  rcases run_gdt addrs t ops with ⟨huptodate, hgdt⟩ | ⟨hstale, hgdt⟩
  · refine ⟨⟨0, 0, 0, 0, 0, 0⟩, ?_, .inl ⟨huptodate, by decide⟩⟩
    rw [hgdt]
    exact show gdtLoad gdtTable = _ by decide
  · refine ⟨tssDescriptor addrs.tss, ?_, .inr ⟨hstale, tssDescriptor_segment _⟩⟩
    rw [hgdt]
    rfl

/-- **The selectors of the kernel**, after `gdt_setup` and any number of operations on the tables, in any order: they
    name flat segments of their rings, and the task state segment, which is there from `idt_setup` up to the next
    `gdt_setup`. In ring 3 only the segments of the program can be opened. -/
theorem run_selectors (addrs : TableAddrs) (t : Tables) (ops : List TableOp) :
    let g := (ops.foldl (Tables.apply addrs) (t.gdtSetup addrs)).gdt
    (∃ s, g.segment 0x08 = some s ∧ s.Flat ∧ s.Enters 0x08) ∧
    (∃ s, g.segment 0x10 = some s ∧ s.Flat ∧ s.Holds 0x10 ∧ s.Opens 0x10 0) ∧
    (∃ s, g.segment 0x1B = some s ∧ s.Flat ∧ s.Enters 0x1B) ∧
    (∃ s, g.segment 0x23 = some s ∧ s.Flat ∧ s.Holds 0x23 ∧ s.Opens 0x23 3) ∧
    (∃ s, g.segment 0x28 = some s ∧ (s.Present ↔ ¬ UpToDate ops) ∧
      (¬ UpToDate ops → s.IsTask ∧ s.dpl = 0 ∧ s.base = addrs.tss.toNat ∧ s.limit = 103)) ∧
    ∀ sel s, g.segment sel = some s → s.Opens sel 3 → selectorIndex sel = 3 ∨ selectorIndex sel = 4 := by
  obtain ⟨e, hentries, htask⟩ := run_entries addrs t ops
  have hsegment := segment_eq hentries
  refine ⟨⟨_, (hsegment 0x08).trans rfl, by decide, by decide⟩,
    ⟨_, (hsegment 0x10).trans rfl, by decide, by decide, by decide⟩,
    ⟨_, (hsegment 0x1B).trans rfl, by decide, by decide⟩,
    ⟨_, (hsegment 0x23).trans rfl, by decide, by decide, by decide⟩, ⟨e.segment, (hsegment 0x28).trans rfl, ?_⟩, ?_⟩
  · rcases htask with ⟨huptodate, he⟩ | ⟨hstale, he⟩
    · rw [he]
      exact ⟨iff_of_false (by decide) (not_not.mpr huptodate), fun hstale => absurd huptodate hstale⟩
    · rw [he]
      exact ⟨iff_of_true (show (0x89 : UInt8) &&& 0x80 ≠ 0 by decide) hstale, fun _ =>
        ⟨show (0x89 : UInt8) &&& 0x1F = 0x09 by decide, show (((0x89 : UInt8) >>> 5) &&& 3).toUInt16 = 0 by decide, rfl,
          rfl⟩⟩
  · intro sel s hs hopens
    have hclosed : ¬ e.segment.Opens sel 3 := by
      rcases htask with ⟨-, he⟩ | ⟨-, he⟩
      · rw [he]
        exact fun h => absurd h.1 (by decide)
      · rw [he]
        exact fun h => absurd h.2.1 (show ¬ ((0x89 : UInt8) &&& 0x1E = 0x12 ∨ (0x89 : UInt8) &&& 0x1A = 0x1A) by decide)
    have hinner : ∀ s ∈ kernelSegments.take 3, ¬ s.Present ∨ ¬ (3 : UInt16) ≤ s.dpl := by decide
    rw [hsegment sel] at hs
    split at hs
    · cases hs
    obtain ⟨hindex, hget⟩ := List.getElem?_eq_some_iff.mp hs
    rcases Nat.lt_or_ge (selectorIndex sel) 3 with hlt | hge
    · rw [List.getElem?_append_left (show _ < 5 by omega)] at hs
      have hmem : s ∈ kernelSegments.take 3 := by
        rw [← List.getElem?_take_of_lt hlt] at hs
        exact List.mem_of_getElem? hs
      rcases hinner s hmem with habsent | hring
      · exact absurd hopens.1 habsent
      · exact absurd hopens.2.2.1 hring
    rcases Nat.lt_or_ge (selectorIndex sel) 5 with hlt | hge'
    · omega
    · have hlast : selectorIndex sel = 5 := Nat.le_antisymm (Nat.le_of_lt_succ hindex) hge'
      rw [hlast] at hs
      exact absurd (Option.some.inj hs ▸ hopens) hclosed

end Drupe
