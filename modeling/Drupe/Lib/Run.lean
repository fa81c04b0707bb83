import Mathlib.Logic.Basic

/-!
# `Lib.Run` — runs of a labelled step relation

A run records, for every step it takes, the state the step was taken in and the label of the step.
A property of *every call made in the run* is then a statement about the members of that list, and a
property of *every state reached* is a statement about the end of a run (each prefix is a run again).

## Contents
- `Run`, and the part of a run before a visited state (`Run.split_of_mem`).
- **Invariants.** `Run.invariant` (steps preserve it; `Run.invariant_of_visited` when some steps do) and
  `Run.visited_invariant` (so every visited state has it, and the recorded step really was taken there).
- **Refinement.** `Run.refines`, `Run.projects` and `Run.simulates`: a step-wise refinement, by a function or by a
  relation, lifts to runs.
- **Accounts.** `Run.accounts`: what goes in and out in every step goes in and out in a run.
- **Hidden steps.** `Run.unseen`: what two runs have in common that differ in their hidden steps.
-/

namespace Lib

variable {σ ι τ κ : Type*}

/-- A run of `step`: the visited `(state, label)` pairs, in order, and the two end states. -/
inductive Run (step : σ → ι → σ → Prop) : σ → List (σ × ι) → σ → Prop
  | nil {s} : Run step s [] s
  | cons {s i t vis u} : step s i t → Run step t vis u → Run step s ((s, i) :: vis) u

variable {step : σ → ι → σ → Prop}

/-- Two runs, one after the other. -/
theorem Run.append {s t u : σ} {vis vis' : List (σ × ι)} (h : Run step s vis t) (h' : Run step t vis' u) :
    Run step s (vis ++ vis') u := by
  induction h with
  | nil => exact h'
  | cons hi _ ih => exact .cons hi (ih h')

theorem Run.split_append {s u : σ} {vis vis' : List (σ × ι)} (h : Run step s (vis ++ vis') u) :
    ∃ t, Run step s vis t ∧ Run step t vis' u := by
  induction vis generalizing s with
  | nil => exact ⟨s, .nil, h⟩
  | cons x vis ih =>
      cases h with
      | cons hi hrest =>
          obtain ⟨t, hfirst, hsecond⟩ := ih hrest
          exact ⟨t, .cons hi hfirst, hsecond⟩

/-- A run passes through each state it visits: up to there it is a run, and the recorded step is taken
    there. -/
theorem Run.split_of_mem {s u : σ} {vis : List (σ × ι)} (h : Run step s vis u) :
    ∀ x ∈ vis, ∃ pre t, Run step s pre x.1 ∧ (∀ y ∈ pre, y ∈ vis) ∧ step x.1 x.2 t := by
  induction h with
  | nil => intro x hx; exact absurd hx (by simp)
  | @cons s i t vis u hi _ ih =>
      intro x hx
      rcases List.mem_cons.mp hx with rfl | hx
      · exact ⟨[], t, .nil, by simp, hi⟩
      · obtain ⟨pre, t', hpre, hsub, ht'⟩ := ih x hx
        refine ⟨(s, i) :: pre, t', .cons hi hpre, ?_, ht'⟩
        intro y hy
        rcases List.mem_cons.mp hy with rfl | hy
        · exact List.mem_cons_self
        · exact List.mem_cons_of_mem _ (hsub y hy)

/-- **Invariant rule.** What every step preserves holds at the end of a run that starts with it. -/
theorem Run.invariant {Inv : σ → Prop} (hstep : ∀ ⦃s i t⦄, Inv s → step s i t → Inv t)
    {s u : σ} {vis : List (σ × ι)} (h : Run step s vis u) (hs : Inv s) : Inv u := by
  induction h with
  | nil => exact hs
  | cons hi _ ih => exact ih (hstep hs hi)

/-- **Invariant rule, for the runs whose steps all meet a condition.** -/
theorem Run.invariant_of_visited {Inv : σ → Prop} {P : σ → ι → Prop}
    (hstep : ∀ ⦃s i t⦄, Inv s → P s i → step s i t → Inv t) {s u : σ} {vis : List (σ × ι)} (h : Run step s vis u)
    (hvis : ∀ x ∈ vis, P x.1 x.2) (hs : Inv s) : Inv u := by
  induction h with
  | nil => exact hs
  | cons hi _ ih =>
      exact ih (fun x hx => hvis x (List.mem_cons_of_mem _ hx)) (hstep hs (hvis _ List.mem_cons_self) hi)

/-- **Invariant rule, for the visited states.** Every visited state has the invariant, and the step
    recorded with it is a step from there. -/
theorem Run.visited_invariant {Inv : σ → Prop} (hstep : ∀ ⦃s i t⦄, Inv s → step s i t → Inv t)
    {s u : σ} {vis : List (σ × ι)} (h : Run step s vis u) (hs : Inv s) :
    ∀ x ∈ vis, Inv x.1 ∧ ∃ t, step x.1 x.2 t := by
  intro x hx
  obtain ⟨pre, t, hpre, -, ht⟩ := h.split_of_mem x hx
  exact ⟨hpre.invariant hstep hs, t, ht⟩

/-- **Refinement rule.** If every step from a state with the invariant is, under an abstraction of states
    and labels, a step of another relation, then every run is a run of that relation. -/
theorem Run.refines {Inv : σ → Prop} {f : σ → τ} {g : ι → κ} {astep : τ → κ → τ → Prop}
    (hstep : ∀ ⦃s i t⦄, Inv s → step s i t → Inv t)
    (hsim : ∀ ⦃s i t⦄, Inv s → step s i t → astep (f s) (g i) (f t))
    {s u : σ} {vis : List (σ × ι)} (h : Run step s vis u) (hs : Inv s) :
    Run astep (f s) (vis.map fun x => (f x.1, g x.2)) (f u) := by
  induction h with
  | nil => exact .nil
  | cons hi _ ih => exact .cons (hsim hs hi) (ih (hstep hs hi))

/-- **Projection rule.** If every step, from a state with the invariant, either has a label that a projection keeps and
    is a step of another relation, or is not seen there, then every run is a run of that relation. -/
theorem Run.projects {Inv : σ → Prop} {f : σ → τ} {g : ι → Option κ} {astep : τ → κ → τ → Prop}
    (hstep : ∀ ⦃s i t⦄, Inv s → step s i t → Inv t)
    (hseen : ∀ ⦃s i t k⦄, Inv s → step s i t → g i = some k → astep (f s) k (f t))
    (hunseen : ∀ ⦃s i t⦄, Inv s → step s i t → g i = none → f t = f s)
    {s u : σ} {vis : List (σ × ι)} (h : Run step s vis u) (hs : Inv s) :
    ∃ avis, Run astep (f s) avis (f u) ∧ avis.map Prod.snd = vis.filterMap fun x => g x.2 := by
  induction h with
  | nil => exact ⟨[], .nil, rfl⟩
  | @cons s i t vis u hi _ ih =>
      obtain ⟨avis, hrun, hlabels⟩ := ih (hstep hs hi)
      cases hg : g i with
      | none =>
          have hskip : ((s, i) :: vis).filterMap (fun x => g x.2) = vis.filterMap fun x => g x.2 :=
            List.filterMap_cons_none hg
          rw [← hunseen hs hi hg, hskip]
          exact ⟨avis, hrun, hlabels⟩
      | some k =>
          have hkeep : ((s, i) :: vis).filterMap (fun x => g x.2) = k :: vis.filterMap fun x => g x.2 :=
            List.filterMap_cons_some hg
          rw [hkeep, ← hlabels]
          exact ⟨(f s, k) :: avis, .cons (hseen hs hi hg) hrun, rfl⟩

/-- **Simulation rule.** If every step from a state related to an abstract one is matched by an abstract step
    with the matching label, to a related state, then every run is matched by a run. -/
theorem Run.simulates {R : σ → τ → Prop} {g : ι → κ} {astep : τ → κ → τ → Prop}
    (hsim : ∀ ⦃s i t a⦄, R s a → step s i t → ∃ b, astep a (g i) b ∧ R t b)
    {s u : σ} {vis : List (σ × ι)} (h : Run step s vis u) {a : τ} (hs : R s a) :
    ∃ avis b, Run astep a avis b ∧ avis.map Prod.snd = vis.map (fun x => g x.2) ∧ R u b := by
  induction h generalizing a with
  | nil => exact ⟨[], a, .nil, rfl, hs⟩
  | @cons s i t vis u hi _ ih =>
      obtain ⟨b, hab, hb⟩ := hsim hs hi
      obtain ⟨avis, c, hrun, hlabels, hc⟩ := ih hb
      refine ⟨(a, g i) :: avis, c, .cons hab hrun, ?_, hc⟩
      rw [List.map_cons, List.map_cons, hlabels]

/-! ## Accounts -/

section Accounts

variable {α β : Type*}

/-- The transitions of a run that ends in `u`: state, label and next state. -/
def transitions : List (σ × ι) → σ → List (σ × ι × σ)
  | [], _ => []
  | x :: vis, u => (x.1, x.2, (vis.head?.map Prod.fst).getD u) :: transitions vis u

theorem Run.next {s u : σ} {vis : List (σ × ι)} (h : Run step s vis u) : (vis.head?.map Prod.fst).getD u = s := by
  cases h with
  | nil => rfl
  | cons => rfl

/-- What goes in and what comes out of a run. -/
def putIn (inp : σ → ι → List α) (vis : List (σ × ι)) : List α := vis.flatMap fun x => inp x.1 x.2

def takenOut (out : σ → ι → σ → List β) (vis : List (σ × ι)) (u : σ) : List β :=
  (transitions vis u).flatMap fun x => out x.1 x.2.1 x.2.2

/-- **Accounting rule.** An account that every step keeps, from a state related to an abstract one, is kept by every
    run, if accounts add up. -/
theorem Run.accounts {R : σ → τ → Prop} {P : τ → List α → List β → τ → Prop} (inp : σ → ι → List α)
    (out : σ → ι → σ → List β) (hrefl : ∀ a, P a [] [] a)
    (htrans : ∀ ⦃a b c xs ys xs' ys'⦄, P a xs ys b → P b xs' ys' c → P a (xs ++ xs') (ys ++ ys') c)
    (hstep : ∀ ⦃s i t a⦄, R s a → step s i t → ∃ b, R t b ∧ P a (inp s i) (out s i t) b)
    {s u : σ} {vis : List (σ × ι)} (h : Run step s vis u) {a : τ} (hs : R s a) :
    ∃ b, R u b ∧ P a (putIn inp vis) (takenOut out vis u) b := by
  induction h generalizing a with
  | nil => exact ⟨a, hs, hrefl a⟩
  | @cons s i t vis u hi hrest ih =>
      obtain ⟨b, hb, hfirst⟩ := hstep hs hi
      obtain ⟨c, hc, hlast⟩ := ih hb
      rw [← hrest.next] at hfirst
      exact ⟨c, hc, htrans hfirst hlast⟩

end Accounts

/-! ## Runs that differ in hidden steps -/

section Hidden

variable {A : σ → σ → Prop} {hidden : ι → Prop} [DecidablePred hidden]

/-- The labels of a run that are not hidden. -/
def seen (hidden : ι → Prop) [DecidablePred hidden] (vis : List (σ × ι)) : List ι :=
  (vis.map Prod.snd).filter fun i => ¬ hidden i

theorem seen_hidden {vis : List (σ × ι)} {s : σ} {i : ι} (h : hidden i) :
    seen hidden ((s, i) :: vis) = seen hidden vis := by
  unfold seen
  rw [List.map_cons, List.filter_cons_of_neg (by simpa using h)]

theorem seen_cons {vis : List (σ × ι)} {s : σ} {i : ι} (h : ¬ hidden i) :
    seen hidden ((s, i) :: vis) = i :: seen hidden vis := by
  unfold seen
  rw [List.map_cons, List.filter_cons_of_pos (by simpa using h)]

/-- **Unwinding.** States are alike when hidden steps on either side leave them so, and equal steps on both. Then two
    runs from alike states with the same steps, the hidden ones apart, end in alike states. -/
theorem Run.unseen {P : σ → ι → Prop}
    (hleft : ∀ ⦃s s' i t⦄, A s s' → hidden i → step s i t → A t s')
    (hright : ∀ ⦃s s' i t'⦄, A s s' → hidden i → step s' i t' → A s t')
    (hboth : ∀ ⦃s s' i t t'⦄, A s s' → ¬ hidden i → P s i → step s i t → step s' i t' → A t t')
    {s t s' t' : σ} {vis vis' : List (σ × ι)} (h : Run step s vis t) (h' : Run step s' vis' t')
    (hvis : ∀ x ∈ vis, P x.1 x.2) (hseen : seen hidden vis = seen hidden vis') (halike : A s s') : A t t' := by
  induction h generalizing s' t' vis' with
  | nil =>
      -- only hidden steps are left on the other side
      induction h' with
      | nil => exact halike
      | @cons s' i t' vis' u' hstep _ ih =>
          by_cases hi : hidden i
          · rw [seen_hidden hi] at hseen
            exact ih hseen (hright halike hi hstep)
          · rw [seen_cons hi] at hseen
            cases hseen
  | @cons s i t vis u hstep hrest ih =>
      have hlater : ∀ x ∈ vis, P x.1 x.2 := fun x hx => hvis x (List.mem_cons_of_mem _ hx)
      have hfirst : P s i := hvis _ List.mem_cons_self
      by_cases hi : hidden i
      · rw [seen_hidden hi] at hseen
        exact ih h' hlater hseen (hleft halike hi hstep)
      · rw [seen_cons hi] at hseen
        -- the other side comes to the same step after hidden ones
        have hmeet : ∀ {s' t' vis'}, Run step s' vis' t' → i :: seen hidden vis = seen hidden vis' → A s s' →
            A u t' := by
          intro s' t' vis' h' hseen halike
          induction h' with
          | nil => cases hseen
          | @cons s' j t' vis' u' hstep' hrest' ih' =>
              by_cases hj : hidden j
              · rw [seen_hidden hj] at hseen
                exact ih' hseen (hright halike hj hstep')
              · rw [seen_cons hj] at hseen
                obtain ⟨rfl, hothers⟩ := List.cons.inj hseen
                exact ih hrest' hlater hothers (hboth halike hi hfirst hstep hstep')
        exact hmeet h' hseen halike

end Hidden

end Lib
