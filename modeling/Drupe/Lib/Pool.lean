import Mathlib.Data.Finset.Card
import Mathlib.Data.List.Nodup
import Mathlib.Logic.Relation

/-!
# `Lib.Pool` — an abstract pool of exclusive resources

What an allocator of indivisible units is for, whatever the units are and however the free ones are
found: a unit is either free or held by somebody, and handing out moves it from one side to the other.
A pool may also *lose* units (they leave the free side without anybody holding them), which is what a
caller that cannot use an answer does to the allocator.

The one invariant is `Pool.Ok`: nothing is held twice and nothing held is free. It gives exclusivity
(`Pool.Ok.take_fresh`), and with it the moves that lose nothing keep the number of units
(`Pool.size_take`, `Pool.size_give`).
-/

namespace Lib

variable {α : Type*} [DecidableEq α]

/-- A pool: the free units, and the units handed out and not given back (a list, so that a unit handed
    out twice would show). -/
structure Pool (α : Type*) where
  free : Finset α
  held : List α

namespace Pool

/-- Nothing is held twice, and nothing held is free. -/
structure Ok (p : Pool α) : Prop where
  nodup : p.held.Nodup
  held_not_free : ∀ x ∈ p.held, x ∉ p.free

/-- One move of a unit or of several. -/
inductive Step : Pool α → Pool α → Prop
  /-- Free units are handed out. -/
  | take {p : Pool α} {xs : List α} (hnd : xs.Nodup) (hfree : ∀ x ∈ xs, x ∈ p.free) :
      Step p ⟨p.free \ xs.toFinset, xs ++ p.held⟩
  /-- Units stop being free without being handed out. -/
  | lose {p : Pool α} (xs : List α) : Step p ⟨p.free \ xs.toFinset, p.held⟩
  /-- A held unit is given back. -/
  | give {p : Pool α} {x : α} (hx : x ∈ p.held) : Step p ⟨insert x p.free, p.held.erase x⟩

/-- The pool in which everything of `univ` is free. -/
def full (univ : Finset α) : Pool α := ⟨univ, []⟩

omit [DecidableEq α] in
theorem full_ok (univ : Finset α) : (full univ).Ok where
  nodup := List.nodup_nil
  held_not_free := by simp [full]

omit [DecidableEq α] in
/-- **Exclusivity.** A unit handed out now was not held by anybody. -/
theorem Ok.take_fresh {p : Pool α} (h : p.Ok) {xs : List α} (hfree : ∀ x ∈ xs, x ∈ p.free) :
    ∀ x ∈ xs, x ∉ p.held := by
  intro x hx hheld
  exact h.held_not_free x hheld (hfree x hx)

/-- Every move keeps the invariant. -/
theorem Step.ok {p q : Pool α} (hs : Step p q) (h : p.Ok) : q.Ok := by
  cases hs with
  | @take xs hnd hfree =>
      have hfresh := h.take_fresh hfree
      refine ⟨?_, ?_⟩
      · exact List.Nodup.append hnd h.nodup (fun x hx hheld => hfresh x hx hheld)
      · intro x hx hxf
        rw [Finset.mem_sdiff, List.mem_toFinset] at hxf
        rcases List.mem_append.mp hx with hx | hx
        · exact hxf.2 hx
        · exact h.held_not_free x hx hxf.1
  | lose xs =>
      refine ⟨h.nodup, ?_⟩
      intro x hx hxf
      exact h.held_not_free x hx (Finset.mem_sdiff.mp hxf).1
  | @give y hy =>
      refine ⟨h.nodup.erase y, ?_⟩
      intro x hx hxf
      rw [h.nodup.mem_erase_iff] at hx
      rcases Finset.mem_insert.mp hxf with rfl | hxf
      · exact hx.1 rfl
      · exact h.held_not_free x hx.2 hxf

/-- Every run of moves keeps the invariant. -/
theorem ok_of_steps {p q : Pool α} (hs : Relation.ReflTransGen Step p q) (h : p.Ok) : q.Ok := by
  induction hs with
  | refl => exact h
  | tail _ hstep ih => exact hstep.ok ih

/-! ## How many units there are -/

/-- The units of a pool, free or held. -/
def size (p : Pool α) : Nat := p.free.card + p.held.length

omit [DecidableEq α] in
theorem size_full (univ : Finset α) : (full univ).size = univ.card := rfl

/-- Handing out keeps the number of units. -/
theorem size_take {p : Pool α} {xs : List α} (hnd : xs.Nodup) (hfree : ∀ x ∈ xs, x ∈ p.free) :
    size ⟨p.free \ xs.toFinset, xs ++ p.held⟩ = p.size := by
  have hsub : xs.toFinset ⊆ p.free := by
    intro x hx
    exact hfree x (List.mem_toFinset.mp hx)
  have hle := Finset.card_le_card hsub
  unfold size
  rw [Finset.card_sdiff_of_subset hsub, List.length_append]
  rw [List.toFinset_card_of_nodup hnd] at hle ⊢
  omega

/-- Giving back keeps the number of units: what is held is not free already. -/
theorem size_give {p : Pool α} (h : p.Ok) {x : α} (hx : x ∈ p.held) :
    size ⟨insert x p.free, p.held.erase x⟩ = p.size := by
  have hpos := List.length_pos_of_mem hx
  unfold size
  rw [Finset.card_insert_of_notMem (h.held_not_free x hx), List.length_erase_of_mem hx]
  omega

end Pool
end Lib
