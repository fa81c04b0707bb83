import Mathlib.Data.Nat.Digits.Lemmas

/-!
# `Lib.Numeral` — canonical numerals

A numeral is a list of digits, the highest first, that reads back as the number and has no leading zero; the
one of zero is a single zero. There is exactly one for each number (`isNumeral_numeral`,
`IsNumeral.eq_numeral`).
-/

namespace Lib

/-- The numeral of `n` in base `b`. -/
def numeral (b n : Nat) : List Nat := if n = 0 then [0] else (Nat.digits b n).reverse

structure IsNumeral (b n : Nat) (ds : List Nat) : Prop where
  lt : ∀ d ∈ ds, d < b
  value : Nat.ofDigits b ds.reverse = n
  ne_nil : ds ≠ []
  leading : ∀ ds', ds = 0 :: ds' → ds' = []

variable {b n : Nat} {ds : List Nat}

theorem numeral_of_pos (hn : n ≠ 0) : numeral b n = (Nat.digits b n).reverse := if_neg hn

theorem isNumeral_numeral (hb : 1 < b) (n : Nat) : IsNumeral b n (numeral b n) := by
  by_cases hn : n = 0
  · subst hn
    refine ⟨?_, rfl, List.cons_ne_nil _ _, fun ds' h => (List.cons.inj h).2.symm⟩
    intro d hd
    obtain rfl := List.mem_singleton.mp hd
    omega
  · have hne : Nat.digits b n ≠ [] := Nat.digits_ne_nil_iff_ne_zero.mpr hn
    rw [numeral_of_pos hn]
    refine ⟨fun d hd => Nat.digits_lt_base hb (List.mem_reverse.mp hd), ?_, ?_, fun ds' h => ?_⟩
    · rw [List.reverse_reverse]
      exact Nat.ofDigits_digits b n
    · rwa [Ne, List.reverse_eq_nil_iff]
    -- the highest digit is the last that is split off
    · have hlast := Nat.getLast_digit_ne_zero b hn
      rw [← List.head_reverse (by rwa [Ne, List.reverse_eq_nil_iff])] at hlast
      simp only [h, List.head_cons] at hlast
      exact absurd rfl hlast

/-- **There is one numeral.** -/
theorem IsNumeral.eq_numeral (hb : 1 < b) (h : IsNumeral b n ds) : ds = numeral b n := by
  obtain ⟨hlt, hvalue, hne, hleading⟩ := h
  by_cases hzero : ds.head hne = 0
  · obtain ⟨d, ds', rfl⟩ := List.exists_cons_of_ne_nil hne
    obtain rfl : d = 0 := hzero
    obtain rfl := hleading ds' rfl
    have hn : n = 0 := hvalue.symm
    rw [hn]
    rfl
  · have hdigits : Nat.digits b n = ds.reverse := by
      rw [← hvalue]
      apply Nat.digits_ofDigits b hb
      · exact fun d hd => hlt d (List.mem_reverse.mp hd)
      · intro hrev
        rwa [List.getLast_reverse]
    have hn : n ≠ 0 := by
      rintro rfl
      rw [Nat.digits_zero, eq_comm, List.reverse_eq_nil_iff] at hdigits
      exact hne hdigits
    rw [numeral_of_pos hn, hdigits, List.reverse_reverse]

theorem numeral_length_le_iff (hb : 1 < b) {k : Nat} (hk : 0 < k) : (numeral b n).length ≤ k ↔ n < b ^ k := by
  by_cases hn : n = 0
  · subst hn
    exact iff_of_true hk (Nat.pow_pos (Nat.zero_lt_of_lt hb))
  · rw [numeral_of_pos hn, List.length_reverse]
    exact Nat.digits_length_le_iff hb n

end Lib
