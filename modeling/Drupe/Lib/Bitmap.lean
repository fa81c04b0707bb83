import Mathlib.Data.Nat.Bitwise

/-!
# `Lib.Bitmap` — bitmaps stored in arrays of bytes

Bit `k` of a bitmap is bit `k % 8` of byte `k / 8`. `bitSet`, `clearBit` and `setBit` are the usual mask
expressions (`c & (1 << b)`, `c & ~(1 << b)`, `c | (1 << b)`); `Bitmap.bitAt`, `Bitmap.clearAt`
and `Bitmap.setAt` lift them to a whole map. Everything a client needs is how the three compose
(`bitAt_clearAt`, `bitAt_setAt`), stated on bit numbers, with no mask left in it.
-/

namespace Lib

/-! ## One byte -/

/-- `c & (1 << b)` is non-zero. -/
def bitSet (c : UInt8) (b : Nat) : Bool := c &&& (1 <<< UInt8.ofNat b) != 0

/-- `c & ~(1 << b)`. -/
def clearBit (c : UInt8) (b : Nat) : UInt8 := c &&& ~~~(1 <<< UInt8.ofNat b)

/-- `c | (1 << b)`. -/
def setBit (c : UInt8) (b : Nat) : UInt8 := c ||| (1 <<< UInt8.ofNat b)

theorem toBitVec_mask {b : Nat} (hb : b < 8) :
    (1 <<< UInt8.ofNat b : UInt8).toBitVec = BitVec.twoPow 8 b := by
  have hall : ∀ i : Fin 8, (1 <<< UInt8.ofNat i : UInt8).toBitVec = BitVec.twoPow 8 i := by decide
  exact hall ⟨b, hb⟩

/-- The mask test reads the bit. -/
theorem bitSet_eq_getLsbD (c : UInt8) {b : Nat} (hb : b < 8) : bitSet c b = c.toBitVec.getLsbD b := by
  have hne : BitVec.twoPow 8 b ≠ 0#8 := by
    intro h
    have hbit : (BitVec.twoPow 8 b).getLsbD b = false := by rw [h]; simp
    simp [hb] at hbit
  have hz : (c &&& (1 <<< UInt8.ofNat b) = 0) ↔ c.toBitVec.getLsbD b = false := by
    rw [← UInt8.toBitVec_inj, UInt8.toBitVec_and, toBitVec_mask hb, BitVec.and_twoPow]
    cases c.toBitVec.getLsbD b
    · simp
    · simpa using hne
  unfold bitSet
  cases hc : c.toBitVec.getLsbD b
  · simpa using hz.mpr hc
  · rw [bne_iff_ne]
    intro h0
    rw [hz.mp h0] at hc
    exact Bool.noConfusion hc

theorem bitSet_clearBit (c : UInt8) {b i : Nat} (hb : b < 8) (hi : i < 8) :
    bitSet (clearBit c b) i = (bitSet c i && decide (i ≠ b)) := by
  rw [bitSet_eq_getLsbD _ hi, bitSet_eq_getLsbD _ hi]
  simp only [clearBit, UInt8.toBitVec_and, UInt8.toBitVec_not, toBitVec_mask hb,
    BitVec.getLsbD_and, BitVec.getLsbD_not, BitVec.getLsbD_twoPow]
  by_cases h : i = b
  · subst h; simp [hi]
  · have h' : b ≠ i := fun hc => h hc.symm
    simp [h, h', hi]

theorem bitSet_setBit (c : UInt8) {b i : Nat} (hb : b < 8) (hi : i < 8) :
    bitSet (setBit c b) i = (bitSet c i || decide (i = b)) := by
  rw [bitSet_eq_getLsbD _ hi, bitSet_eq_getLsbD _ hi]
  simp only [setBit, UInt8.toBitVec_or, toBitVec_mask hb, BitVec.getLsbD_or, BitVec.getLsbD_twoPow]
  by_cases h : i = b
  · subst h; simp [hi]
  · have h' : b ≠ i := fun hc => h hc.symm
    simp [h, h']

theorem bitSet_zero (b : Nat) : bitSet 0 b = false := by simp [bitSet]

theorem bitSet_ones {b : Nat} (hb : b < 8) : bitSet 0xFF b = true := by
  have hall : ∀ i : Fin 8, bitSet 0xFF i = true := by decide
  exact hall ⟨b, hb⟩

/-! ## A whole map -/

/-- A bitmap of `n` bytes. -/
abbrev Bitmap (n : Nat) := Vector UInt8 n

namespace Bitmap

variable {n : Nat}

/-- Bit `k`; bits past the end of the map read as clear. -/
def bitAt (m : Bitmap n) (k : Nat) : Bool := bitSet (m[k / 8]?.getD 0) (k % 8)

/-- The map with bit `k` cleared (`k` past the end: the map itself). -/
def clearAt (m : Bitmap n) (k : Nat) : Bitmap n :=
  m.setIfInBounds (k / 8) (clearBit (m[k / 8]?.getD 0) (k % 8))

/-- The map with bit `k` set (`k` past the end: the map itself). -/
def setAt (m : Bitmap n) (k : Nat) : Bitmap n :=
  m.setIfInBounds (k / 8) (setBit (m[k / 8]?.getD 0) (k % 8))

theorem bitAt_of_le {m : Bitmap n} {k : Nat} (h : 8 * n ≤ k) : bitAt m k = false := by
  have hk : n ≤ k / 8 := by omega
  rw [bitAt, Vector.getElem?_eq_none hk, Option.getD_none, bitSet_zero]

/-- A set bit is within the map. -/
theorem lt_of_bitAt {m : Bitmap n} {k : Nat} (h : bitAt m k = true) : k < 8 * n := by
  by_contra hk
  rw [bitAt_of_le (by omega)] at h
  exact Bool.noConfusion h

/-- **Extensionality.** Two maps with the same bits are the same map. -/
theorem ext_bitAt {m m' : Bitmap n} (h : ∀ k < 8 * n, bitAt m k = bitAt m' k) : m = m' := by
  apply Vector.ext
  intro i hi
  apply UInt8.toBitVec_inj.mp
  apply BitVec.eq_of_getLsbD_eq
  intro b hb
  have hdiv : (i * 8 + b) / 8 = i := by omega
  have hmod : (i * 8 + b) % 8 = b := by omega
  have hbit := h (i * 8 + b) (by omega)
  rw [bitAt, bitAt, hdiv, hmod, Vector.getElem?_eq_getElem hi, Vector.getElem?_eq_getElem hi,
    Option.getD_some, Option.getD_some, bitSet_eq_getLsbD _ hb, bitSet_eq_getLsbD _ hb] at hbit
  exact hbit

/-- **Clearing a bit** clears that bit and no other. -/
theorem bitAt_clearAt (m : Bitmap n) (k i : Nat) :
    bitAt (clearAt m k) i = (bitAt m i && decide (i ≠ k)) := by
  unfold clearAt bitAt
  by_cases hbyte : k / 8 = i / 8
  · have hsame : i % 8 ≠ k % 8 ↔ i ≠ k := by omega
    rcases Nat.lt_or_ge (i / 8) n with hlt | hge
    · rw [hbyte, Vector.getElem?_setIfInBounds_self_of_lt hlt, Option.getD_some,
        bitSet_clearBit _ (Nat.mod_lt _ (by decide)) (Nat.mod_lt _ (by decide))]
      simp only [hsame]
    · rw [Vector.getElem?_eq_none hge, Vector.getElem?_eq_none hge]
      simp [bitSet_zero]
  · have hne : i ≠ k := fun h => hbyte (by rw [h])
    rw [Vector.getElem?_setIfInBounds_ne hbyte]
    simp [hne]

/-- **Setting a bit** of the map sets that bit and no other. -/
theorem bitAt_setAt (m : Bitmap n) {k : Nat} (hk : k < 8 * n) (i : Nat) :
    bitAt (setAt m k) i = (bitAt m i || decide (i = k)) := by
  unfold setAt bitAt
  by_cases hbyte : k / 8 = i / 8
  · have hsame : i % 8 = k % 8 ↔ i = k := by omega
    have hlt : i / 8 < n := by omega
    rw [hbyte, Vector.getElem?_setIfInBounds_self_of_lt hlt, Option.getD_some,
      bitSet_setBit _ (Nat.mod_lt _ (by decide)) (Nat.mod_lt _ (by decide))]
    simp only [hsame]
  · have hne : i ≠ k := fun h => hbyte (by rw [h])
    rw [Vector.getElem?_setIfInBounds_ne hbyte]
    simp [hne]

/-- In the map of all ones every bit is set. -/
theorem bitAt_replicate {k : Nat} (hk : k < 8 * n) : bitAt (Vector.replicate n 0xFF) k = true := by
  have hlt : k / 8 < n := by omega
  rw [bitAt, Vector.getElem?_replicate, if_pos hlt, Option.getD_some]
  exact bitSet_ones (Nat.mod_lt _ (by decide))

/-- Bits `i`, `i + 1`, … cleared one after the other, `len` of them. -/
def clearRun (m : Bitmap n) (i : Nat) : Nat → Bitmap n
  | 0 => m
  | len + 1 => clearRun (clearAt m i) (i + 1) len

/-- **Clearing a run** clears exactly the bits of the run. -/
theorem bitAt_clearRun (m : Bitmap n) (i len k : Nat) :
    bitAt (clearRun m i len) k = (bitAt m k && decide (k < i ∨ i + len ≤ k)) := by
  induction len generalizing m i with
  | zero =>
      have : k < i ∨ i ≤ k := by omega
      simp [clearRun, this]
  | succ len ih =>
      rw [clearRun, ih, bitAt_clearAt, Bool.and_assoc, ← Bool.decide_and]
      congr 2
      exact propext (by omega)

end Bitmap
end Lib
