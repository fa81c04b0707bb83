import Mathlib.Logic.Function.Basic

/-!
# `Machine` — the 32-bit machine the kernel runs on

Addresses, `size_t`, `uintptr_t` and `uint32_t` are `UInt32`, so address arithmetic wraps as it does on
the machine. Memory is flat: one byte for each address, nothing protected. What does not come back with a
value is a `Fault`.
-/

namespace Drupe

/-- Why a call does not return a value. -/
inductive Fault
  /-- A static array is indexed past its end. -/
  | outOfBounds
  /-- `div` by zero: the processor raises `#DE`, and the handler halts. -/
  | divideError
  /-- A loop whose condition never becomes false. -/
  | hang
  /-- A null pointer is followed. -/
  | nullPointer
deriving DecidableEq, Repr

@[simp] theorem ok_bind {α β : Type} (a : α) (f : α → Except Fault β) : Except.ok a >>= f = f a := rfl

@[simp] theorem error_bind {α β : Type} (e : Fault) (f : α → Except Fault β) :
    Except.error e >>= f = .error e := rfl

/-- If a computation in two parts returns, so does its first part, and the second part from there. -/
theorem bind_eq_ok {α β : Type} {x : Except Fault α} {f : α → Except Fault β} {b : β} :
    x >>= f = .ok b ↔ ∃ a, x = .ok a ∧ f a = .ok b := by
  cases x with
  | error e =>
      constructor
      · intro h; cases h
      · rintro ⟨a, ha, -⟩; cases ha
  | ok a =>
      constructor
      · intro h; exact ⟨a, rfl, h⟩
      · rintro ⟨a', ha, h⟩; cases ha; exact h

theorem map_eq_ok {α β : Type} {x : Except Fault α} {f : α → β} {b : β} :
    x.map f = .ok b ↔ ∃ a, x = .ok a ∧ f a = b := by
  cases x with
  | error e =>
      constructor
      · intro h; cases h
      · rintro ⟨a, ha, -⟩; cases ha
  | ok a =>
      constructor
      · intro h; exact ⟨a, rfl, Except.ok.inj h⟩
      · rintro ⟨a', ha, h⟩; cases ha; exact congrArg Except.ok h

/-! ## Integers -/

/-- The C `int` of an unsigned word. -/
def signed (x : UInt32) : Int := if x < 0x80000000 then x.toNat else (x.toNat : Int) - 4294967296

theorem toNat_pos {x : UInt32} (h : x ≠ 0) : 0 < x.toNat :=
  UInt32.lt_iff_toNat_lt.mp (UInt32.pos_iff_ne_zero.mpr h)

theorem signed_toNat (x : UInt32) : (signed x).toNat ≤ x.toNat ∧ (signed x).toNat < 2147483648 := by
  unfold signed
  split
  · rename_i h
    have : x.toNat < 2147483648 := UInt32.lt_iff_toNat_lt.mp h
    omega
  · have := x.toNat_lt
    omega

/-! ## Memory -/

/-- The bytes of memory, by address. -/
abbrev Mem := UInt32 → UInt8

/-- A little-endian word of the bytes `b 0`, …, `b 3`. -/
def word32 (b : Nat → UInt8) : UInt32 :=
  (b 0).toUInt32 ||| (b 1).toUInt32 <<< 8 ||| (b 2).toUInt32 <<< 16 ||| (b 3).toUInt32 <<< 24

/-- A little-endian word of the bytes `b 0` and `b 1`. -/
def word16 (b : Nat → UInt8) : UInt32 := (b 0).toUInt32 ||| (b 1).toUInt32 <<< 8

/-- A `uint32_t` in memory. -/
def Mem.read32 (m : Mem) (a : UInt32) : UInt32 := word32 fun i => m (a + UInt32.ofNat i)

/-- A `uint16_t` in memory. -/
def Mem.read16 (m : Mem) (a : UInt32) : UInt32 := word16 fun i => m (a + UInt32.ofNat i)

/-- A `uint64_t` in memory. -/
def Mem.read64 (m : Mem) (a : UInt32) : UInt64 :=
  (m.read32 a).toUInt64 ||| (m.read32 (a + 4)).toUInt64 <<< 32

/-- Equal bytes make equal words. -/
theorem Mem.read32_congr {m m' : Mem} {a b : UInt32}
    (h : ∀ i < 4, m (a + UInt32.ofNat i) = m' (b + UInt32.ofNat i)) : m.read32 a = m'.read32 b := by
  unfold Mem.read32 word32
  simp only [h 0 (by decide), h 1 (by decide), h 2 (by decide), h 3 (by decide)]

/-- The characters of the C string at the start of `bytes`: those before the first NUL. -/
def cString (bytes : List UInt8) : List UInt8 := bytes.takeWhile (· ≠ 0)

/-! ## Address arithmetic -/

theorem toNat_add_ofNat {a : UInt32} {k : Nat} (h : a.toNat + k < 4294967296) :
    (a + UInt32.ofNat k).toNat = a.toNat + k := by
  rw [UInt32.toNat_add, UInt32.toNat_ofNat']
  omega

theorem ofNat_inj {i j : Nat} (hi : i < 4294967296) (hj : j < 4294967296)
    (h : UInt32.ofNat i = UInt32.ofNat j) : i = j := by
  have hnat := congrArg UInt32.toNat h
  rw [UInt32.toNat_ofNat', UInt32.toNat_ofNat'] at hnat
  omega

/-- Offsets below `2^32` from one base are told apart by the addresses they give. -/
theorem add_ofNat_inj {a : UInt32} {i j : Nat} (hi : i < 4294967296) (hj : j < 4294967296)
    (h : a + UInt32.ofNat i = a + UInt32.ofNat j) : i = j :=
  ofNat_inj hi hj (by grind)

theorem add_ofNat_add (a : UInt32) (i j : Nat) :
    a + UInt32.ofNat i + UInt32.ofNat j = a + UInt32.ofNat (i + j) := by
  rw [UInt32.ofNat_add, UInt32.add_assoc]

end Drupe
