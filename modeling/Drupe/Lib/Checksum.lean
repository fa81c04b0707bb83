import Mathlib.Logic.Function.Basic

/-!
# `Lib.Checksum` — accumulators that tell lists apart

A checksum that is accumulated element by element, by a step that is injective in the accumulator and in the
element, tells a list from any other that differs from it in one place: the accumulators part there, and no
later step brings them together again.
-/

namespace Lib

variable {σ α : Type*}

/-- Two lists of one length that differ in one place. -/
structure DifferInOne (l l' : List α) : Prop where
  length_eq : l.length = l'.length
  differ : ∃ i : Nat, l[i]? ≠ l'[i]? ∧ ∀ j : Nat, j ≠ i → l[j]? = l'[j]?

variable {f : σ → α → σ}

/-- Different accumulators stay different. -/
theorem foldl_injective (hf : ∀ a, Function.Injective fun s => f s a) (l : List α) :
    Function.Injective fun s => l.foldl f s := by
  induction l with
  | nil => exact fun s t h => h
  | cons a l ih => exact fun s t h => hf a (ih h)

/-- **One place** is enough for another checksum. -/
theorem DifferInOne.foldl_ne {l l' : List α} (h : DifferInOne l l')
    (hacc : ∀ a, Function.Injective fun s => f s a) (helem : ∀ s, Function.Injective (f s)) (s : σ) :
    l.foldl f s ≠ l'.foldl f s := by
  obtain ⟨hlen, i, hi, hrest⟩ := h
  induction l generalizing l' i s with
  | nil =>
      obtain rfl := List.eq_nil_of_length_eq_zero hlen.symm
      exact absurd rfl hi
  | cons a l ih =>
      cases l' with
      | nil => exact absurd hlen (by simp)
      | cons b l' =>
          cases i with
          | zero =>
              have htail : l = l' := List.ext_getElem? fun j => hrest (j + 1) (by simp)
              have hab : a ≠ b := by simpa using hi
              rw [← htail]
              exact fun heq => hab (helem s (foldl_injective hacc l heq))
          | succ i =>
              have hab : a = b := by simpa using hrest 0 (by simp)
              rw [← hab]
              apply ih (f s a) (by simpa using hlen) i
              · simpa using hi
              · intro j hj
                simpa using hrest (j + 1) (by simpa using hj)

end Lib
