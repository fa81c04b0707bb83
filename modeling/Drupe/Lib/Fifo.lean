import Mathlib.Data.Nat.ModEq
import Drupe.Lib.Run

/-!
# `Lib.Fifo` — FIFO queues, and ring buffers that hold one

The first half is the abstract queue: a list, `put` at its end and `get` at its front, with the one law a
client wants (`Fifo.conservation`): what went in is what came out followed by what is still there.

The second half reads a queue off an array: `ring data tail count` is the list of the `count` cells from
`tail` on, wrapping around. `ring_put` and `ring_get` are the two updates of such an array.
-/

namespace Lib

variable {α : Type*}

namespace Fifo

/-- One transfer: the elements put in, or the elements got out, oldest first. -/
inductive Event (α : Type*)
  | put (xs : List α)
  | get (xs : List α)

/-- What a transfer put in. -/
def Event.accepted : Event α → List α
  | put xs => xs
  | get _ => []

/-- What a transfer got out. -/
def Event.delivered : Event α → List α
  | put _ => []
  | get xs => xs

/-- A queue that holds at most `cap` elements. -/
inductive Step (cap : Nat) : List α → Event α → List α → Prop
  | put {q xs : List α} (hcap : (q ++ xs).length ≤ cap) : Step cap q (.put xs) (q ++ xs)
  | get {q xs : List α} : Step cap (xs ++ q) (.get xs) q

/-- All that the transfers of a run put in, in order. -/
def accepted {σ : Type*} (vis : List (σ × Event α)) : List α := vis.flatMap fun x => x.2.accepted

/-- All that the transfers of a run got out, in order. -/
def delivered {σ : Type*} (vis : List (σ × Event α)) : List α := vis.flatMap fun x => x.2.delivered

/-- **Conservation.** Nothing is lost, duplicated or reordered. -/
theorem conservation {cap : Nat} {q q' : List α} {vis : List (List α × Event α)}
    (h : Run (Step cap) q vis q') : q ++ accepted vis = delivered vis ++ q' := by
  induction h with
  | nil => simp [accepted, delivered]
  | @cons s e t vis u hstep _ ih =>
      -- the head of each of the two lists is what the first transfer did
      show s ++ (e.accepted ++ accepted vis) = (e.delivered ++ delivered vis) ++ u
      cases hstep with
      | @put _ xs _ =>
          show s ++ (xs ++ accepted vis) = delivered vis ++ u
          rw [← List.append_assoc, ih]
      | @get _ xs =>
          show (xs ++ t) ++ accepted vis = (xs ++ delivered vis) ++ u
          rw [List.append_assoc, ih, List.append_assoc]

end Fifo

/-! ## Ring buffers -/

section Ring

variable {n : Nat} [NeZero n]

/-- The `count` cells of `data` from `tail` on, wrapping around. -/
def ring (data : Vector α n) (tail count : Nat) : List α :=
  (List.range count).map fun k => data.get (Fin.ofNat n (tail + k))

@[simp] theorem ring_length (data : Vector α n) (tail count : Nat) :
    (ring data tail count).length = count := by simp [ring]

/-- A ring may begin at any representative of its first cell. -/
theorem ring_mod (data : Vector α n) (tail count : Nat) :
    ring data (tail % n) count = ring data tail count := by
  unfold ring
  apply List.map_congr_left
  intro k _
  congr 1
  apply Fin.ext
  show (tail % n + k) % n = (tail + k) % n
  rw [Nat.mod_add_mod]

/-- **Put.** The cell after the last one takes the new element, as long as there is a free cell. -/
theorem ring_put (data : Vector α n) (x : α) {tail count : Nat} (hcount : count < n) :
    ring (data.setIfInBounds ((tail + count) % n) x) tail (count + 1)
      = ring data tail count ++ [x] := by
  have hcell : ∀ k : Nat, (data.setIfInBounds ((tail + count) % n) x).get (Fin.ofNat n (tail + k))
      = if (tail + count) % n = (tail + k) % n then x else data.get (Fin.ofNat n (tail + k)) :=
    fun k => Vector.getElem_setIfInBounds (Nat.mod_lt (tail + k) (Nat.pos_of_ne_zero (NeZero.ne n)))
  unfold ring
  rw [List.range_succ, List.map_append]
  congr 1
  · apply List.map_congr_left
    intro k hk
    have hlt : k < count := List.mem_range.mp hk
    rw [hcell, if_neg]
    -- two cells less than `n` apart are different cells
    intro heq
    have hmod : (tail + k) ≡ (tail + count) [MOD n] := heq.symm
    have : k % n = count % n := Nat.ModEq.add_left_cancel' tail hmod
    rw [Nat.mod_eq_of_lt (by omega), Nat.mod_eq_of_lt hcount] at this
    omega
  · rw [List.map_singleton, hcell, if_pos rfl]

/-- **Get.** The cell at `tail` leaves the front of the queue. -/
theorem ring_get (data : Vector α n) (tail count : Nat) :
    ring data tail (count + 1) = data.get (Fin.ofNat n tail) :: ring data (tail + 1) count := by
  unfold ring
  rw [List.range_succ_eq_map, List.map_cons, List.map_map]
  congr 1
  apply List.map_congr_left
  intro k _
  show data.get (Fin.ofNat n (tail + (k + 1))) = data.get (Fin.ofNat n (tail + 1 + k))
  rw [Nat.add_assoc, Nat.add_comm 1 k]

end Ring
end Lib
