import Mathlib.Data.Finset.Card
import Mathlib.Data.Nat.Find
import Mathlib.Logic.Function.Iterate

/-!
# `Lib.Iterate` — loops that follow a chain

A loop that goes from a state to the next one comes to an end when the chain of states arrives at one where it
stops. In a finite type it arrives within as many rounds as there are states, or never (`arrivesIn_iff`): with
that much fuel a loop that runs out of it has no end.
-/

namespace Lib

variable {σ : Type*} (next : σ → σ) (stop pass : σ → Prop)

/-- The chain from `s` arrives at a stop, and passes each state before it. -/
def Arrives (s : σ) : Prop := ∃ n, stop (next^[n] s) ∧ ∀ i < n, pass (next^[i] s)

/-- It does in fewer than `fuel` steps. -/
def ArrivesIn (fuel : Nat) (s : σ) : Prop := ∃ n < fuel, stop (next^[n] s) ∧ ∀ i < n, pass (next^[i] s)

variable {next stop pass} {s : σ}

theorem not_arrivesIn_zero : ¬ ArrivesIn next stop pass 0 s := by
  rintro ⟨n, hn, -⟩
  exact Nat.not_lt_zero n hn

/-- **One round.** -/
theorem arrivesIn_succ (fuel : Nat) : ArrivesIn next stop pass (fuel + 1) s ↔
    stop s ∨ (pass s ∧ ArrivesIn next stop pass fuel (next s)) := by
  constructor
  · rintro ⟨n, hn, hstop, hpass⟩
    cases n with
    | zero => exact .inl hstop
    | succ n =>
        refine .inr ⟨hpass 0 (Nat.succ_pos n), n, Nat.lt_of_succ_lt_succ hn, hstop, fun i hi => ?_⟩
        exact hpass (i + 1) (Nat.succ_lt_succ hi)
  · rintro (hstop | ⟨hfirst, n, hn, hstop, hpass⟩)
    · exact ⟨0, Nat.succ_pos fuel, hstop, fun i hi => absurd hi (Nat.not_lt_zero i)⟩
    · refine ⟨n + 1, Nat.succ_lt_succ hn, hstop, fun i hi => ?_⟩
      cases i with
      | zero => exact hfirst
      | succ i => exact hpass i (Nat.lt_of_succ_lt_succ hi)

/-- The states before the first stop are different: a chain that comes back to one of them goes round. -/
theorem iterate_injOn {n : Nat} (hstop : stop (next^[n] s)) (hfirst : ∀ i < n, ¬ stop (next^[i] s)) :
    Set.InjOn (fun i => next^[i] s) (Finset.range (n + 1)) := by
  have hlt : ∀ i j, i < j → j ≤ n → next^[i] s ≠ next^[j] s := by
    intro i j hij hj heq
    -- from the earlier of the two it is as far to the stop as from the later one
    have hearly : next^[n - j + i] s = next^[n] s := by
      rw [Function.iterate_add_apply, heq, ← Function.iterate_add_apply, Nat.sub_add_cancel hj]
    exact hfirst (n - j + i) (by omega) (hearly ▸ hstop)
  intro i hi j hj heq
  have hi := Finset.mem_range.mp hi
  have hj := Finset.mem_range.mp hj
  rcases Nat.lt_trichotomy i j with h | h | h
  · exact absurd heq (hlt i j h (by omega))
  · exact h
  · exact absurd heq.symm (hlt j i h (by omega))

/-- **As many rounds as there are states are enough.** -/
theorem arrivesIn_iff {N : Nat} (code : σ → Nat) (hinj : Function.Injective code) (hlt : ∀ s, code s < N) :
    ArrivesIn next stop pass N s ↔ Arrives next stop pass s := by
  classical
  constructor
  · rintro ⟨n, -, h⟩
    exact ⟨n, h⟩
  · rintro ⟨n, hstop, hpass⟩
    have hexists : ∃ n, stop (next^[n] s) := ⟨n, hstop⟩
    have hleast := Nat.find_min' hexists hstop
    have hdistinct := iterate_injOn (Nat.find_spec hexists) fun i hi => Nat.find_min hexists hi
    have hcount : (Finset.range (Nat.find hexists + 1)).card ≤ (Finset.range N).card := by
      apply Finset.card_le_card_of_injOn (fun i => code (next^[i] s))
      · intro i _
        exact Finset.mem_coe.mpr (Finset.mem_range.mpr (hlt _))
      · exact fun i hi j hj heq => hdistinct hi hj (hinj heq)
    rw [Finset.card_range, Finset.card_range] at hcount
    exact ⟨Nat.find hexists, hcount, Nat.find_spec hexists, fun i hi => hpass i (Nat.lt_of_lt_of_le hi hleast)⟩

end Lib
