import Drupe.Lib.Numeral
import Drupe.Shell.Shell
import Mathlib.Data.List.DropRight

/-!
# `Shell.Correctness.Putint` — the numbers that are printed

`putintBytes` is what `sh_putint` passes to `sh_putc`. It is the canonical numeral of the value, as far as the
buffer of the digits goes (`putintBytes_eq`): 31 digits are enough in every base but 2, where the values from
2³¹ on have 32 (`putintBytes_canonical_iff`).
-/

namespace Drupe

open Lib

/-- The value of a call of `sh_putint`: with a sign in base 10, without one in the others. -/
def putintValue (value base : UInt32) : Int := if base = 10 then signed value else value.toNat

/-- `0` to `9`, then `a` to `f`. -/
def digitByte (d : Nat) : UInt8 := if d < 10 then UInt8.ofNat (48 + d) else UInt8.ofNat (87 + d)

/-- The sign of a number that is printed. -/
def signBytes (z : Int) : List UInt8 := if z < 0 then [45] else []

/-- The text of a number: a sign if it is negative, and the numeral of its magnitude. -/
def Canonical (b : Nat) (z : Int) (bytes : List UInt8) : Prop :=
  ∃ ds, IsNumeral b z.natAbs ds ∧ bytes = signBytes z ++ ds.map digitByte

/-- The bytes that `sh_putint` passes to `sh_putc`, in order. -/
def putintBytes (value base : UInt32) : List UInt8 :=
  let negative : Bool := base = 10 ∧ 0x80000000 ≤ value
  let uvalue := if negative then -value else value
  (if negative then [45] else []) ++
    if uvalue = 0 then [48] else (putintDigits base 31 uvalue).reverse

theorem shPutint_eq (sh : Shell) (value base : UInt32) :
    shPutint sh value base = (putintBytes value base).foldl shPutc sh := by
  unfold shPutint putintBytes
  simp only
  split
  · split <;> rfl
  · split <;> rfl

/-! ## The digits -/

theorem digits_digitByte {d : Nat} (h : d < 16) : digits[d]?.getD 0 = digitByte d := by
  have hall : ∀ d : Fin 16, digits[d.val]?.getD 0 = digitByte d.val := by decide
  exact hall ⟨d, h⟩

/-- The digits are split off from the lowest on, while there is room for them. -/
theorem putintDigits_eq {base : UInt32} (h2 : 2 ≤ base.toNat) (h16 : base.toNat ≤ 16) (fuel : Nat)
    (uvalue : UInt32) : putintDigits base fuel uvalue
      = ((Nat.digits base.toNat uvalue.toNat).take fuel).map digitByte := by
  induction fuel generalizing uvalue with
  | zero => rfl
  | succ fuel ih =>
      rw [putintDigits]
      by_cases hzero : uvalue = 0
      · have hnone : Nat.digits base.toNat (0 : UInt32).toNat = [] := Nat.digits_zero _
        rw [if_pos hzero, hzero, hnone, List.take_nil, List.map_nil]
      · have hpos : 0 < uvalue.toNat :=
          Nat.pos_of_ne_zero fun heq => hzero (UInt32.toNat_inj.mp heq)
        have hdigit : uvalue.toNat % base.toNat < 16 := Nat.lt_of_lt_of_le (Nat.mod_lt _ (by omega)) h16
        rw [if_neg hzero, ih, Nat.digits_def' (by omega) hpos, List.take_succ_cons, List.map_cons,
          UInt32.toNat_div, UInt32.toNat_mod, digits_digitByte hdigit]

/-- The test of the source for a negative value. -/
def PrintsSign (value base : UInt32) : Prop := base = 10 ∧ 0x80000000 ≤ value

instance (value base : UInt32) : Decidable (PrintsSign value base) := inferInstanceAs (Decidable (_ ∧ _))

theorem putintValue_neg {value base : UInt32} (h : PrintsSign value base) :
    putintValue value base = value.toNat - 4294967296 := by
  obtain ⟨rfl, hge⟩ := h
  exact if_neg (UInt32.not_lt.mpr hge)

theorem putintValue_nonneg {value base : UInt32} (h : ¬ PrintsSign value base) :
    putintValue value base = value.toNat := by
  unfold putintValue
  by_cases hten : base = 10
  · have hlt : value < 0x80000000 := UInt32.not_le.mp fun hge => h ⟨hten, hge⟩
    rw [if_pos hten]
    exact if_pos hlt
  · rw [if_neg hten]

theorem putintValue_neg_iff (value base : UInt32) : putintValue value base < 0 ↔ PrintsSign value base := by
  have hvalue := value.toNat_lt
  by_cases hsign : PrintsSign value base
  · rw [putintValue_neg hsign]
    exact iff_of_true (by omega) hsign
  · rw [putintValue_nonneg hsign]
    exact iff_of_false (by omega) hsign

/-- The magnitude that is split into digits: the negation of the most negative `int` is itself. -/
theorem uvalue_toNat (value base : UInt32) :
    (if PrintsSign value base then -value else value).toNat = (putintValue value base).natAbs := by
  have hvalue := value.toNat_lt
  by_cases hsign : PrintsSign value base
  · have hge := UInt32.le_iff_toNat_le.mp hsign.2
    have hhalf : (0x80000000 : UInt32).toNat = 2147483648 := rfl
    have hwhole : UInt32.size = 4294967296 := rfl
    rw [if_pos hsign, putintValue_neg hsign, UInt32.toNat_neg, hwhole]
    omega
  · rw [if_neg hsign, putintValue_nonneg hsign]
    rfl

theorem putintBytes_sign (value base : UInt32) : putintBytes value base = signBytes (putintValue value base) ++
    if (if PrintsSign value base then -value else value) = 0 then [48]
    else (putintDigits base 31 (if PrintsSign value base then -value else value)).reverse := by
  unfold putintBytes signBytes
  simp only [decide_eq_true_eq, putintValue_neg_iff]
  rfl

/-- **The digits that are printed** are the last 31 of the numeral. -/
theorem putintBytes_eq {base : UInt32} (h2 : 2 ≤ base.toNat) (h16 : base.toNat ≤ 16) (value : UInt32) :
    putintBytes value base = signBytes (putintValue value base) ++
      ((numeral base.toNat (putintValue value base).natAbs).rtake 31).map digitByte := by
  rw [putintBytes_sign, ← uvalue_toNat]
  generalize (if PrintsSign value base then -value else value) = uvalue
  congr 1
  by_cases hzero : uvalue = 0
  · rw [if_pos hzero, hzero]
    rfl
  · have hne : uvalue.toNat ≠ 0 := fun heq => hzero (UInt32.toNat_inj.mp heq)
    rw [if_neg hzero, putintDigits_eq h2 h16, numeral_of_pos hne, List.rtake_eq_reverse_take_reverse,
      List.reverse_reverse, List.map_reverse]

/-- There is room for all digits. -/
theorem numeral_fits_iff {base : UInt32} (h2 : 2 ≤ base.toNat) (value : UInt32) :
    (numeral base.toNat (putintValue value base).natAbs).length ≤ 31 ↔ ¬ (base = 2 ∧ 0x80000000 ≤ value) := by
  have hsmall := (if PrintsSign value base then -value else value).toNat_lt
  rw [uvalue_toNat] at hsmall
  by_cases htwo : base = 2
  · subst htwo
    have hvalue : (putintValue value 2).natAbs = value.toNat := by
      rw [putintValue_nonneg fun hsign => absurd hsign.1 (by decide)]
      rfl
    have hhalf : (2 : UInt32).toNat ^ 31 = (0x80000000 : UInt32).toNat := rfl
    rw [hvalue, numeral_length_le_iff h2 (by decide), hhalf, ← UInt32.lt_iff_toNat_lt, UInt32.not_le.symm]
    simp
  · have hne : base.toNat ≠ 2 := fun heq => htwo (UInt32.toNat_inj.mp heq)
    have hpow : 3 ^ 31 ≤ base.toNat ^ 31 := Nat.pow_le_pow_left (by omega) 31
    refine iff_of_true ?_ fun h => htwo h.1
    rw [numeral_length_le_iff h2 (by decide)]
    omega

/-- A canonical numeral has room in the buffer. -/
theorem Canonical.fits {value base : UInt32} (h2 : 2 ≤ base.toNat) (h16 : base.toNat ≤ 16)
    (h : Canonical base.toNat (putintValue value base) (putintBytes value base)) :
    (numeral base.toNat (putintValue value base).natAbs).length ≤ 31 := by
  obtain ⟨ds, hnumeral, hbytes⟩ := h
  rw [putintBytes_eq h2 h16] at hbytes
  have hdigits := congrArg List.length (List.append_cancel_left hbytes)
  rw [hnumeral.eq_numeral h2, List.length_map, List.length_map, List.rtake_eq_reverse_take_reverse,
    List.length_reverse, List.length_take, List.length_reverse] at hdigits
  omega

/-- One that has room is printed whole. -/
theorem putintBytes_of_fits {value base : UInt32} (h2 : 2 ≤ base.toNat) (h16 : base.toNat ≤ 16)
    (hfits : (numeral base.toNat (putintValue value base).natAbs).length ≤ 31) :
    putintBytes value base = signBytes (putintValue value base) ++
      (numeral base.toNat (putintValue value base).natAbs).map digitByte := by
  rw [putintBytes_eq h2 h16, List.rtake_eq_reverse_take_reverse,
    List.take_of_length_le (by rwa [List.length_reverse]), List.reverse_reverse]

/-- **When the numeral is the canonical one**: for every value, in every base from 2 to 16. -/
theorem putintBytes_canonical_iff {base : UInt32} (h2 : 2 ≤ base.toNat) (h16 : base.toNat ≤ 16) (value : UInt32) :
    (∀ sh, shPutint sh value base = (putintBytes value base).foldl shPutc sh) ∧
      (Canonical base.toNat (putintValue value base) (putintBytes value base) ↔
        ¬ (base = 2 ∧ 0x80000000 ≤ value)) := by
  refine ⟨fun sh => shPutint_eq sh value base, ?_⟩
  rw [← numeral_fits_iff h2]
  constructor
  · exact Canonical.fits h2 h16
  · exact fun hfits => ⟨_, isNumeral_numeral h2 _, putintBytes_of_fits h2 h16 hfits⟩

/-- The most negative `int` in base 10. -/
theorem putintBytes_canonical_iff_min :
    (∀ sh, shPutint sh 0x80000000 10 = (putintBytes 0x80000000 10).foldl shPutc sh) ∧
      (Canonical 10 (-2147483648) (putintBytes 0x80000000 10) ↔ ¬ ((10 : UInt32) = 2 ∧ 0x80000000 ≤ 0x80000000)) :=
  putintBytes_canonical_iff (by decide) (by decide) 0x80000000

/-- In base 2 the highest digit of 2³¹ is lost, and a numeral of zeros is left. -/
theorem putintBytes_binary : putintBytes 0x80000000 2 = List.replicate 31 48 ∧
    ¬ Canonical 2 2147483648 (putintBytes 0x80000000 2) := by
  have hlong : ¬ (numeral (2 : UInt32).toNat (putintValue 0x80000000 2).natAbs).length ≤ 31 := fun hfits =>
    (numeral_fits_iff (by decide) 0x80000000).mp hfits ⟨rfl, by decide⟩
  exact ⟨by decide +kernel, fun h => hlong (Canonical.fits (by decide) (by decide) h)⟩

end Drupe
