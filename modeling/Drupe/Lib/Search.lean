/-!
# `Lib.Search` — bounded search loops

`search f fuel i` is the loop `for (k = i; k < i + fuel; k++)` that returns from inside its body: `f k` is
what iteration `k` returns, or `none` where it falls through to the next one. A client needs only that
the answer is the one of the *first* iteration that has one (`search_eq_some_iff`).
-/

namespace Lib

variable {α : Type}

/-- The answer of the first of the iterations `i`, …, `i + fuel - 1` that has one. -/
def search (f : Nat → Option α) : (fuel i : Nat) → Option α
  | 0, _ => none
  | fuel + 1, i =>
    match f i with
    | some a => some a
    | none => search f fuel (i + 1)

variable {f : Nat → Option α}

/-- **No answer** is the answer of every iteration. -/
theorem search_eq_none_iff {fuel i : Nat} :
    search f fuel i = none ↔ ∀ k, i ≤ k → k < i + fuel → f k = none := by
  induction fuel generalizing i with
  | zero =>
      constructor
      · intro _ k h1 h2; omega
      · intro _; rfl
  | succ fuel ih =>
      rw [search]
      cases hf : f i with
      | some a =>
          simp only [reduceCtorEq, false_iff]
          intro h
          rw [h i (Nat.le_refl i) (by omega)] at hf
          exact absurd hf (by simp)
      | none =>
          simp only
          rw [ih]
          constructor
          · intro h k h1 h2
            rcases Nat.eq_or_lt_of_le h1 with rfl | hlt
            · exact hf
            · exact h k hlt (by omega)
          · intro h k h1 h2
            exact h k (by omega) (by omega)

/-- **The answer** is that of the first iteration that has one. -/
theorem search_eq_some_iff {fuel i : Nat} {a : α} :
    search f fuel i = some a ↔
      ∃ k, i ≤ k ∧ k < i + fuel ∧ f k = some a ∧ ∀ j, i ≤ j → j < k → f j = none := by
  induction fuel generalizing i with
  | zero =>
      constructor
      · intro h; exact absurd h (by simp [search])
      · rintro ⟨k, h1, h2, -, -⟩; omega
  | succ fuel ih =>
      rw [search]
      cases hf : f i with
      | some b =>
          simp only
          constructor
          · intro h
            exact ⟨i, Nat.le_refl i, by omega, hf.trans h, fun j h1 h2 => by omega⟩
          · rintro ⟨k, h1, -, hk, hbefore⟩
            rcases Nat.eq_or_lt_of_le h1 with rfl | hlt
            · exact hf.symm.trans hk
            · rw [hbefore i (Nat.le_refl i) hlt] at hf
              exact absurd hf (by simp)
      | none =>
          simp only
          rw [ih]
          constructor
          · rintro ⟨k, h1, h2, hk, hbefore⟩
            refine ⟨k, by omega, by omega, hk, ?_⟩
            intro j hj1 hj2
            rcases Nat.eq_or_lt_of_le hj1 with rfl | hlt
            · exact hf
            · exact hbefore j hlt hj2
          · rintro ⟨k, h1, h2, hk, hbefore⟩
            have hne : k ≠ i := by
              rintro rfl
              rw [hf] at hk
              exact absurd hk (by simp)
            exact ⟨k, by omega, by omega, hk, fun j hj1 hj2 => hbefore j (by omega) hj2⟩

end Lib
