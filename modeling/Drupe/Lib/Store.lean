import Mathlib.Logic.Function.Basic

/-!
# `Lib.Store` — loops that store one cell after the other

`store dst val n i m` is the loop `for (k = i; k < i + n; k++) m[dst k] = val m k`, in which the stored value
may depend on what was stored before. Copying (forward, overlapping or not) and filling are cases of it.

Such a loop is understood through what it *transfers*: `Transferred m₀ m dst F k` says that `m` is `m₀` with
the first `k` cells of the destination holding `F`. A store step extends it (`Transferred.step`), a loop whose
iterations compute `F` completes it (`store_transferred`), and it determines the memory
(`Transferred.unique`).

Overlap of the destination with a region one still wants to read is governed by `Transferred.stable`: the
region keeps its contents when each cell of it that is written is written with what it held. A loop that
copies from anywhere transfers what the cells held at its start exactly when it overwrites no cell that it
reads later with another value (`store_transferred_iff`, `Undisturbed`).

Where only the cells matter, and not what they get, `StoredTo` lists them, in the order of the stores.
-/

namespace Lib

variable {ι β : Type*} [DecidableEq ι]

/-- The loop over the indices `i`, …, `i + n - 1`. -/
def store (dst : Nat → ι) (val : (ι → β) → Nat → β) : (n i : Nat) → (ι → β) → ι → β
  | 0, _, m => m
  | n + 1, i, m => store dst val n (i + 1) (Function.update m (dst i) (val m i))

/-- A loop is its first iterations, then the others. -/
theorem store_append (dst : Nat → ι) (val : (ι → β) → Nat → β) (n l i : Nat) (m : ι → β) :
    store dst val (n + l) i m = store dst val l (i + n) (store dst val n i m) := by
  induction n generalizing i m with
  | zero => rw [Nat.zero_add, Nat.add_zero, store]
  | succ n ih => rw [Nat.succ_add, store, store, ih, Nat.succ_add_eq_add_succ]

/-- Loops that store the same values to the same cells, their indices shifted. -/
theorem store_congr {dst dst' : Nat → ι} {val val' : (ι → β) → Nat → β} {n i k : Nat}
    (hdst : ∀ t < n, dst (i + t) = dst' (k + t)) (hval : ∀ t < n, ∀ m, val m (i + t) = val' m (k + t))
    (m : ι → β) : store dst val n i m = store dst' val' n k m := by
  induction n generalizing i k m with
  | zero => rfl
  | succ n ih =>
      have hdst0 : dst i = dst' k := hdst 0 (Nat.succ_pos n)
      have hval0 : val m i = val' m k := hval 0 (Nat.succ_pos n) m
      rw [store, store, hdst0, hval0]
      apply ih
      · intro t ht
        rw [Nat.succ_add_eq_add_succ, Nat.succ_add_eq_add_succ]
        exact hdst (t + 1) (Nat.succ_lt_succ ht)
      · intro t ht m
        rw [Nat.succ_add_eq_add_succ, Nat.succ_add_eq_add_succ]
        exact hval (t + 1) (Nat.succ_lt_succ ht) m

/-! ## Which cells -/

/-- One store to each of the cells, in order, leads from `m` to `m'`. -/
inductive StoredTo : List ι → (ι → β) → (ι → β) → Prop
  | nil (m : ι → β) : StoredTo [] m m
  | cons {a : ι} {as : List ι} {m m' : ι → β} (b : β) (h : StoredTo as (Function.update m a b) m') :
      StoredTo (a :: as) m m'

theorem StoredTo.append {as as' : List ι} {m₀ m m' : ι → β} (h : StoredTo as m₀ m) (h' : StoredTo as' m m') :
    StoredTo (as ++ as') m₀ m' := by
  induction h with
  | nil => exact h'
  | cons b _ ih => exact .cons b (ih h')

/-- The others are left. -/
theorem StoredTo.frame {as : List ι} {m m' : ι → β} (h : StoredTo as m m') {a : ι} (ha : a ∉ as) : m' a = m a := by
  induction h with
  | nil => rfl
  | cons b _ ih =>
      obtain ⟨hne, hrest⟩ := List.ne_and_not_mem_of_not_mem_cons ha
      rw [ih hrest]
      exact Function.update_of_ne hne _ _

theorem store_storedTo (dst : Nat → ι) (val : (ι → β) → Nat → β) (n i : Nat) (m : ι → β) :
    StoredTo ((List.range n).map fun t => dst (i + t)) m (store dst val n i m) := by
  induction n generalizing i m with
  | zero => exact .nil m
  | succ n ih =>
      have hrest := ih (i + 1) (Function.update m (dst i) (val m i))
      rw [List.range_succ_eq_map, List.map_cons, List.map_map, store]
      refine .cons (val m i) ?_
      have hshift : ((fun t => dst (i + t)) ∘ Nat.succ) = fun t => dst (i + 1 + t) := by
        funext t
        exact congrArg dst (Nat.succ_add_eq_add_succ i t).symm
      rw [hshift]
      exact hrest

/-! ## What they get -/

/-- `m` is `m₀` with `F` stored to the cells `dst 0`, …, `dst (k - 1)`. -/
structure Transferred (m₀ m : ι → β) (dst : Nat → ι) (F : Nat → β) (k : Nat) : Prop where
  written : ∀ j < k, m (dst j) = F j
  frame : ∀ a, (∀ j < k, a ≠ dst j) → m a = m₀ a

variable {m₀ m : ι → β} {dst : Nat → ι} {F : Nat → β} {k : Nat}

omit [DecidableEq ι] in
theorem Transferred.refl (m : ι → β) (dst : Nat → ι) (F : Nat → β) : Transferred m m dst F 0 :=
  ⟨fun j hj => absurd hj (Nat.not_lt_zero j), fun _ _ => rfl⟩

/-- One more cell, one that was not written yet. -/
theorem Transferred.step (h : Transferred m₀ m dst F k) (hfresh : ∀ j < k, dst j ≠ dst k) :
    Transferred m₀ (Function.update m (dst k) (F k)) dst F (k + 1) where
  written := by
    intro j hj
    rcases Nat.eq_or_lt_of_le (Nat.le_of_lt_succ hj) with rfl | hlt
    · exact Function.update_self _ _ _
    · rw [Function.update_of_ne (hfresh j hlt)]
      exact h.written j hlt
  frame := by
    intro a ha
    rw [Function.update_of_ne (ha k (Nat.lt_succ_self k))]
    exact h.frame a fun j hj => ha j (Nat.lt_succ_of_lt hj)

/-! ## Copying -/

/-- **Loop rule.** A loop transfers `F` when each iteration computes its part of it from what the iterations
    before it left. -/
theorem store_transferred {val : (ι → β) → Nat → β} {n : Nat} {m : ι → β}
    (hinj : ∀ j k, j < k → k < n → dst j ≠ dst k)
    (hval : ∀ k < n, Transferred m (store dst val k 0 m) dst F k → val (store dst val k 0 m) k = F k) :
    Transferred m (store dst val n 0 m) dst F n := by
  induction n with
  | zero => exact Transferred.refl m dst F
  | succ n ih =>
      have hprev := ih (fun j k hj hk => hinj j k hj (Nat.lt_succ_of_lt hk))
        (fun k hk => hval k (Nat.lt_succ_of_lt hk))
      have hlast := hval n (Nat.lt_succ_self n) hprev
      rw [store_append, Nat.zero_add]
      show Transferred m (Function.update _ (dst n) (val (store dst val n 0 m) n)) dst F (n + 1)
      rw [hlast]
      exact hprev.step fun j hj => hinj j n hj (Nat.lt_succ_self n)

/-- A loop leaves the cells it does not store to. -/
theorem store_frame {val : (ι → β) → Nat → β} {n i : Nat} {m : ι → β} {a : ι}
    (h : ∀ t < n, a ≠ dst (i + t)) : store dst val n i m a = m a := by
  induction n generalizing i m with
  | zero => rfl
  | succ n ih =>
      rw [store, ih (fun t ht => by rw [Nat.succ_add_eq_add_succ]; exact h (t + 1) (Nat.succ_lt_succ ht))]
      exact Function.update_of_ne (h 0 (Nat.succ_pos n)) _ _

/-- **Locality.** When the stored values depend only on a region, memories that agree on the region agree,
    after the loop, on the region and on all that was stored. -/
theorem store_agree {val : (ι → β) → Nat → β} {n i : Nat} {R : ι → Prop} {m m' : ι → β}
    (hval : ∀ t < n, ∀ m m', (∀ a, R a → m a = m' a) → val m (i + t) = val m' (i + t))
    (hagree : ∀ a, R a → m a = m' a) {a : ι} (ha : R a ∨ ∃ t < n, a = dst (i + t)) :
    store dst val n i m a = store dst val n i m' a := by
  induction n generalizing i R m m' with
  | zero =>
      rcases ha with ha | ⟨t, ht, -⟩
      · exact hagree a ha
      · exact absurd ht (Nat.not_lt_zero t)
  | succ n ih =>
      have hfirst : val m i = val m' i := hval 0 (Nat.succ_pos n) m m' hagree
      rw [store, store, hfirst]
      -- the region grows by the cell that is stored
      apply ih (R := fun a => R a ∨ a = dst i)
      · intro t ht m₁ m₁' h
        rw [Nat.succ_add_eq_add_succ]
        exact hval (t + 1) (Nat.succ_lt_succ ht) m₁ m₁' fun b hb => h b (.inl hb)
      · intro b hb
        by_cases hdst : b = dst i
        · rw [hdst, Function.update_self, Function.update_self]
        · rw [Function.update_of_ne hdst, Function.update_of_ne hdst]
          exact hagree b (hb.resolve_right hdst)
      · rcases ha with ha | ⟨t, ht, rfl⟩
        · exact .inl (.inl ha)
        · rcases Nat.eq_zero_or_pos t with rfl | hpos
          · exact .inl (.inr rfl)
          · refine .inr ⟨t - 1, by omega, ?_⟩
            congr 1
            omega

/-- A cell holds what its own iteration stored there. -/
theorem store_written {val : (ι → β) → Nat → β} {n k : Nat} (m : ι → β)
    (hinj : ∀ j k, j < k → k < n → dst j ≠ dst k) (hk : k < n) :
    store dst val n 0 m (dst k) = val (store dst val k 0 m) k := by
  obtain ⟨l, rfl⟩ := Nat.exists_eq_add_of_lt hk
  rw [Nat.add_assoc, store_append, Nat.zero_add, Nat.add_comm l 1, store_append, store_frame]
  · exact Function.update_self _ _ _
  · intro t ht
    exact hinj k (k + 1 + t) (by omega) (by omega)

/-- What one iteration of a copy stores: a cell of memory, or the constant `z`. -/
def fetch (z : β) (src : Option ι) (m : ι → β) : β :=
  match src with
  | none => z
  | some a => m a

/-- No cell is overwritten before it is read, except with what it held. -/
def Undisturbed (z : β) (src : Nat → Option ι) (dst : Nat → ι) (m : ι → β) (n : Nat) : Prop :=
  ∀ k < n, ∀ j < k, src k = some (dst j) → fetch z (src j) m = fetch z (src k) m

/-- **Copying.** A copy transfers what the cells held at its start exactly when they are undisturbed. -/
theorem store_transferred_iff {z : β} {src : Nat → Option ι} {n : Nat} {m : ι → β}
    (hinj : ∀ j k, j < k → k < n → dst j ≠ dst k) :
    Transferred m (store dst (fun m k => fetch z (src k) m) n 0 m) dst (fun k => fetch z (src k) m) n ↔
      Undisturbed z src dst m n := by
  constructor
  · intro h k hk j hj hsrc
    have hjn := h.written j (Nat.lt_trans hj hk)
    have hkn := h.written k hk
    rw [store_written m hinj (Nat.lt_trans hj hk)] at hjn
    rw [store_written m hinj hk, hsrc] at hkn
    -- iteration `k` reads what iteration `j` stored
    have hread : store dst (fun m k => fetch z (src k) m) k 0 m (dst j)
        = fetch z (src j) (store dst (fun m k => fetch z (src k) m) j 0 m) :=
      store_written m (fun i l hi hl => hinj i l hi (Nat.lt_trans hl hk)) hj
    rw [← hjn, ← hread, hsrc]
    exact hkn
  · intro hsame
    apply store_transferred hinj
    intro k hk hprev
    cases hsrc : src k with
    | none => rfl
    | some a =>
        show store _ _ k 0 m a = m a
        by_cases hwritten : ∃ j < k, a = dst j
        · obtain ⟨j, hj, rfl⟩ := hwritten
          rw [hprev.written j hj, hsame k hk j hj hsrc, hsrc]
          rfl
        · exact hprev.frame a fun j hj heq => hwritten ⟨j, hj, heq⟩

omit [DecidableEq ι] in
/-- **Overlap.** A region keeps its contents when the cells of it that are written get what they held. -/
theorem Transferred.stable (h : Transferred m₀ m dst F k) {R : ι → Prop}
    (hsame : ∀ j < k, R (dst j) → m₀ (dst j) = F j) : ∀ a, R a → m a = m₀ a := by
  intro a ha
  by_cases hwritten : ∃ j < k, a = dst j
  · obtain ⟨j, hj, rfl⟩ := hwritten
    rw [h.written j hj, hsame j hj ha]
  · exact h.frame a fun j hj heq => hwritten ⟨j, hj, heq⟩

omit [DecidableEq ι] in
/-- A transfer determines the memory. -/
theorem Transferred.unique {m' : ι → β} (h : Transferred m₀ m dst F k) (h' : Transferred m₀ m' dst F k) :
    m = m' := by
  funext a
  by_cases hwritten : ∃ j < k, a = dst j
  · obtain ⟨j, hj, rfl⟩ := hwritten
    rw [h.written j hj, h'.written j hj]
  · have hnot : ∀ j < k, a ≠ dst j := fun j hj heq => hwritten ⟨j, hj, heq⟩
    rw [h.frame a hnot, h'.frame a hnot]

omit [DecidableEq ι] in
/-- Two transfers, of neighbouring parts of one destination, are one. -/
theorem Transferred.trans {m' : ι → β} {l : Nat} {dst' : Nat → ι} {F' : Nat → β}
    (h : Transferred m₀ m dst F k) (h' : Transferred m m' dst' F' l)
    (hdst : ∀ j < l, dst' j = dst (k + j)) (hF : ∀ j < l, F' j = F (k + j))
    (hfresh : ∀ i < k, ∀ j < l, dst i ≠ dst (k + j)) : Transferred m₀ m' dst F (k + l) where
  written := by
    intro j hj
    rcases Nat.lt_or_ge j k with hlt | hge
    · rw [h'.frame (dst j) (fun i hi => by rw [hdst i hi]; exact hfresh j hlt i hi)]
      exact h.written j hlt
    · have hl : j - k < l := by omega
      have hval := h'.written (j - k) hl
      rwa [hdst _ hl, hF _ hl, Nat.add_sub_cancel' hge] at hval
  frame := by
    intro a ha
    rw [h'.frame a (fun j hj => by rw [hdst j hj]; exact ha (k + j) (by omega))]
    exact h.frame a fun j hj => ha j (by omega)

end Lib
