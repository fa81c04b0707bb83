/-!
# `Lib.Visit` — traversals with a callback

A traversal that shows its elements to a callback, one after the other, and stops when the callback says
so, is `visit` over the list of the elements. The code that produces the elements and the callback then
meet in that list only: a producer is shown to be `visit` of some list, and a callback is understood by
what `visit` makes of it (`visit_total`, `visit_always`, `visit_find`).

A loop over a list that checks each of its accesses does what the loop without the checks does, as long as no
check fails (`foldlM_checked`).
-/

namespace Lib

variable {ε σ α : Type}

/-- Show the elements to `cb`, which updates the context and answers whether to go on. The answer is whether
    all elements were shown. -/
def visit (cb : σ → α → Except ε (σ × Bool)) : List α → σ → Except ε (σ × Bool)
  | [], ctx => .ok (ctx, true)
  | a :: as, ctx =>
    match cb ctx a with
    | .ok (ctx, true) => visit cb as ctx
    | .ok (ctx, false) => .ok (ctx, false)
    | .error e => .error e

/-- Visit the elements of `bs` unless the traversal has stopped. -/
def visitMore (cb : σ → α → Except ε (σ × Bool)) (bs : List α) (r : Except ε (σ × Bool)) :
    Except ε (σ × Bool) :=
  match r with
  | .ok (ctx, true) => visit cb bs ctx
  | .ok (ctx, false) => .ok (ctx, false)
  | .error e => .error e

variable {cb : σ → α → Except ε (σ × Bool)}

theorem visit_cons (a : α) (as : List α) (ctx : σ) :
    visit cb (a :: as) ctx = visitMore cb as (cb ctx a) := by
  rw [visit.eq_def, visitMore.eq_def]

theorem visit_append (as bs : List α) (ctx : σ) :
    visit cb (as ++ bs) ctx = visitMore cb bs (visit cb as ctx) := by
  induction as generalizing ctx with
  | nil => rfl
  | cons a as ih =>
      rw [List.cons_append, visit_cons, visit_cons]
      rcases cb ctx a with e | ⟨ctx, goOn⟩
      · rfl
      · cases goOn with
        | false => rfl
        | true => exact ih ctx

/-- A callback that always returns is shown elements until it stops the traversal. -/
theorem visit_total (hcb : ∀ ctx a, ∃ r, cb ctx a = .ok r) (as : List α) (ctx : σ) :
    ∃ r, visit cb as ctx = .ok r := by
  induction as generalizing ctx with
  | nil => exact ⟨_, rfl⟩
  | cons a as ih =>
      obtain ⟨⟨ctx', goOn⟩, hr⟩ := hcb ctx a
      rw [visit_cons, hr]
      cases goOn with
      | false => exact ⟨_, rfl⟩
      | true => exact ih ctx'

/-- **No stop.** A callback that always goes on is shown all elements, in order. -/
theorem visit_always (f : σ → α → σ) (as : List α) (ctx : σ) :
    visit (fun ctx a => (.ok (f ctx a, true) : Except ε (σ × Bool))) as ctx = .ok (as.foldl f ctx, true) := by
  induction as generalizing ctx with
  | nil => rfl
  | cons a as ih => exact ih (f ctx a)

/-- **Search.** A callback that stops at the elements with `p`, and does nothing at the others, finds the
    first element with `p`. -/
theorem visit_find {p : α → Bool} {found : α → σ} {ctx : σ}
    (hcb : ∀ a, cb ctx a = .ok (if p a then (found a, false) else (ctx, true))) (as : List α) :
    visit cb as ctx = .ok (match as.find? p with
      | some a => (found a, false)
      | none => (ctx, true)) := by
  induction as with
  | nil => rfl
  | cons a as ih =>
      rw [visit_cons, hcb, List.find?_cons]
      cases hp : p a with
      | true => rfl
      | false => exact ih

/-- **A loop passes its checks** when its body does, under an invariant that the body keeps. -/
theorem foldlM_checked {f : σ → α → Except ε σ} {g : σ → α → σ} (P : σ → Prop) {l : List α} {s : σ} (h : P s)
    (hbody : ∀ s a, P s → a ∈ l → f s a = .ok (g s a) ∧ P (g s a)) :
    l.foldlM f s = .ok (l.foldl g s) ∧ P (l.foldl g s) := by
  induction l generalizing s with
  | nil => exact ⟨rfl, h⟩
  | cons a l ih =>
      obtain ⟨hcheck, hkept⟩ := hbody s a h List.mem_cons_self
      obtain ⟨hloop, hend⟩ := ih hkept fun s b hs hb => hbody s b hs (List.mem_cons_of_mem a hb)
      refine ⟨?_, hend⟩
      rw [List.foldlM_cons, hcheck, List.foldl_cons, ← hloop]
      rfl

end Lib
