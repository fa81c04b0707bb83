import Drupe.Lib.Run

/-!
# `Lib.Pipe` — pipes that may jam

A pipe takes in elements at one end and lets them out at the other, in order. It holds at most `cap` of them.
Its history is all that it ever took in, and there may be histories that jam it: then nothing leaves it, and
as a history only grows, nothing will (`Pipe.jammed_run`). A pipe that is not jammed lets something out
whenever it is asked for something and has something.

A pipe that is flushed after everything it takes in is empty as long as it is not jammed, and what it lets out
is all up to the one that jams it (`Pipe.Settled.flush`).
-/

namespace Lib

/-- What a pipe took in, oldest first, and how many of these it let out. -/
structure Pipe (α : Type*) where
  history : List α
  taken : Nat
  taken_le : taken ≤ history.length

namespace Pipe

variable {α : Type*}

def empty : Pipe α := ⟨[], 0, Nat.le_refl 0⟩

/-- What is in the pipe. -/
def waiting (p : Pipe α) : List α := p.history.drop p.taken

def put (p : Pipe α) (xs : List α) : Pipe α where
  history := p.history ++ xs
  taken := p.taken
  taken_le := by
    rw [List.length_append]
    exact Nat.le_add_right_of_le p.taken_le

def get (p : Pipe α) (n : Nat) : Pipe α where
  history := p.history
  taken := min (p.taken + n) p.history.length
  taken_le := Nat.min_le_right _ _

/-- All of it is let out. -/
def emptied (p : Pipe α) : Pipe α := ⟨p.history, p.history.length, Nat.le_refl _⟩

/-- One transfer: what was offered to the pipe, or what was got out of it and for how many there was room. -/
inductive Event (α : Type*)
  | put (offered : List α)
  | get (room : Nat) (xs : List α)

/-- The first elements of an offer, as many as there is room for. -/
def accepts (cap : Nat) (p : Pipe α) (offered : List α) : List α := offered.take (cap - p.waiting.length)

/-- What a transfer got out. -/
def Event.delivered : Event α → List α
  | put _ => []
  | get _ xs => xs

inductive Step (cap : Nat) (Jams : List α → Prop) : Pipe α → Event α → Pipe α → Prop
  | put (p : Pipe α) (offered : List α) : Step cap Jams p (.put offered) (p.put (p.accepts cap offered))
  | get (p : Pipe α) {room n : Nat} (hroom : n ≤ room) (hn : n ≤ p.waiting.length)
      (hjam : Jams p.history → n = 0) (hflow : ¬ Jams p.history → 0 < room → 0 < p.waiting.length → 0 < n) :
      Step cap Jams p (.get room (p.waiting.take n)) (p.get n)

/-! ## What is in a pipe -/

@[simp] theorem history_put (p : Pipe α) (xs : List α) : (p.put xs).history = p.history ++ xs := rfl

@[simp] theorem history_get (p : Pipe α) (n : Nat) : (p.get n).history = p.history := rfl

@[simp] theorem history_emptied (p : Pipe α) : p.emptied.history = p.history := rfl

theorem waiting_put (p : Pipe α) (xs : List α) : (p.put xs).waiting = p.waiting ++ xs :=
  List.drop_append_of_le_length p.taken_le

theorem waiting_get (p : Pipe α) {n : Nat} (hn : n ≤ p.waiting.length) : (p.get n).waiting = p.waiting.drop n := by
  have hle : p.taken + n ≤ p.history.length := by
    rw [waiting, List.length_drop] at hn
    have := p.taken_le
    omega
  unfold waiting get
  simp only [Nat.min_eq_left hle, List.drop_drop]

@[simp] theorem waiting_emptied (p : Pipe α) : p.emptied.waiting = [] := List.drop_length

theorem get_zero (p : Pipe α) : p.get 0 = p := by
  cases p with
  | mk history taken hle =>
      unfold get
      simp only [Nat.add_zero, Nat.min_eq_left hle]

/-! ## Runs -/

variable {cap : Nat} {Jams : List α → Prop}

/-- All that the transfers of a run got out, in order. -/
def delivered {σ : Type*} (vis : List (σ × Event α)) : List α := vis.flatMap fun x => x.2.delivered

/-- One transfer loses nothing: what was in the pipe and what came in is what went out and what is in it. -/
theorem Step.conserves {p q : Pipe α} {e : Event α} (h : Step cap Jams p e q) :
    ∃ accepted, q.history = p.history ++ accepted ∧ p.waiting ++ accepted = e.delivered ++ q.waiting ∧
      (p.waiting.length ≤ cap → q.waiting.length ≤ cap) := by
  cases h with
  | put offered =>
      refine ⟨p.accepts cap offered, rfl, (p.waiting_put _).symm, fun hcap => ?_⟩
      rw [waiting_put, List.length_append, accepts, List.length_take]
      omega
  | @get room n hroom hn hjam hflow =>
      refine ⟨[], by simp, ?_, fun hcap => ?_⟩
      · rw [waiting_get p hn, List.append_nil]
        exact (List.take_append_drop n p.waiting).symm
      · rw [waiting_get p hn, List.length_drop]
        omega

/-- **Conservation.** What a run lets out is the first part of what was in the pipe and what came in. -/
theorem run_conserves {p q : Pipe α} {vis : List (Pipe α × Event α)} (h : Run (Step cap Jams) p vis q) :
    ∃ accepted, q.history = p.history ++ accepted ∧ p.waiting ++ accepted = delivered vis ++ q.waiting ∧
      (p.waiting.length ≤ cap → q.waiting.length ≤ cap) := by
  induction h with
  | nil => exact ⟨[], by simp, by simp [delivered], id⟩
  | @cons s e t vis u hstep _ ih =>
      obtain ⟨first, hfirst, hsplit, hcap⟩ := hstep.conserves
      obtain ⟨rest, hrest, hsplit', hcap'⟩ := ih
      refine ⟨first ++ rest, by rw [hrest, hfirst, List.append_assoc], ?_, fun hle => hcap' (hcap hle)⟩
      show s.waiting ++ (first ++ rest) = (e.delivered ++ delivered vis) ++ u.waiting
      rw [← List.append_assoc, hsplit, List.append_assoc, hsplit', List.append_assoc]

/-- A transfer of a jammed pipe lets nothing out, and leaves it jammed. -/
theorem Step.jammed (hmono : ∀ w v, Jams w → Jams (w ++ v)) {p q : Pipe α} {e : Event α}
    (h : Step cap Jams p e q) (hjam : Jams p.history) : e.delivered = [] ∧ Jams q.history := by
  cases h with
  | put offered => exact ⟨rfl, hmono _ _ hjam⟩
  | get hroom hn hnone hflow =>
      obtain rfl := hnone hjam
      exact ⟨rfl, hjam⟩

/-- **A jammed pipe stays jammed**: no run gets anything out of it, and it takes in no more than there is room
    for at the beginning. -/
theorem jammed_run (hmono : ∀ w v, Jams w → Jams (w ++ v)) {p q : Pipe α} {vis : List (Pipe α × Event α)}
    (h : Run (Step cap Jams) p vis q) (hjam : Jams p.history) : delivered vis = [] ∧ Jams q.history ∧
      (p.waiting.length ≤ cap → q.history.length ≤ p.history.length + (cap - p.waiting.length)) := by
  have hnothing : delivered vis = [] ∧ Jams q.history := by
    induction h with
    | nil => exact ⟨rfl, hjam⟩
    | @cons s e t vis u hstep _ ih =>
        obtain ⟨hdel, hnext⟩ := hstep.jammed hmono hjam
        obtain ⟨hrest, hlast⟩ := ih hnext
        refine ⟨?_, hlast⟩
        show e.delivered ++ delivered vis = []
        rw [hdel, hrest, List.append_nil]
  refine ⟨hnothing.1, hnothing.2, fun hcap => ?_⟩
  obtain ⟨accepted, hhistory, hsplit, hle⟩ := run_conserves h
  rw [hnothing.1, List.nil_append] at hsplit
  have hlen := congrArg List.length hsplit
  rw [List.length_append] at hlen
  have := hle hcap
  rw [hhistory, List.length_append]
  omega

/-! ## What passes through -/

/-- From `p` to `q`, `accepted` came in and `got` went out, all in order. -/
def Passes (p : Pipe α) (accepted got : List α) (q : Pipe α) : Prop := p.waiting ++ accepted = got ++ q.waiting

theorem passes_refl (p : Pipe α) : Passes p [] [] p := List.append_nil _

theorem passes_put (p : Pipe α) (xs : List α) : Passes p xs [] (p.put xs) := (p.waiting_put xs).symm

theorem passes_get (p : Pipe α) {n : Nat} (hn : n ≤ p.waiting.length) : Passes p [] (p.waiting.take n) (p.get n) := by
  unfold Passes
  rw [List.append_nil, waiting_get p hn]
  exact (List.take_append_drop n p.waiting).symm

theorem Passes.trans {p q r : Pipe α} {accepted accepted' got got' : List α} (h : Passes p accepted got q)
    (h' : Passes q accepted' got' r) : Passes p (accepted ++ accepted') (got ++ got') r := by
  unfold Passes at h h' ⊢
  rw [← List.append_assoc, h, List.append_assoc, h', List.append_assoc]

/-- Nothing was offered. -/
theorem passes_nil (cap : Nat) (p : Pipe α) : Passes p (p.accepts cap []) [] p := by
  rw [accepts, List.take_nil]
  exact passes_refl p

/-! ## Flushing -/

section Flush

variable (Jams) [DecidablePred Jams]

/-- All of it is let out, unless it is jammed. -/
def flush (p : Pipe α) : Pipe α × List α :=
  if Jams p.history then (p, []) else (p.emptied, p.waiting)

/-- The parts of a history, up to the one that jams. `w`: what went before. -/
def untilJam : (w : List α) → List (List α) → List α
  | _, [] => []
  | w, x :: xs => if Jams (w ++ x) then [] else x ++ untilJam (w ++ x) xs

/-- A pipe that took in these parts, and was flushed after each. -/
structure Settled (p : Pipe α) (parts : List (List α)) : Prop where
  history : p.history = parts.flatten
  taken : p.history.take p.taken = untilJam Jams [] parts
  clear : ¬ Jams p.history → p.waiting = []

theorem settled_empty : Settled Jams (Pipe.empty : Pipe α) [] where
  history := rfl
  taken := rfl
  clear _ := rfl

variable {Jams}

@[simp] theorem history_flush (p : Pipe α) : (p.flush Jams).1.history = p.history := by
  unfold flush
  split <;> rfl

theorem flush_jammed {p : Pipe α} (h : Jams p.history) : p.flush Jams = (p, []) := if_pos h

theorem flush_clear {p : Pipe α} (h : ¬ Jams p.history) : p.flush Jams = (p.emptied, p.waiting) := if_neg h

/-- One more part. -/
theorem untilJam_snoc (hmono : ∀ w v, Jams w → Jams (w ++ v)) (w : List α) (parts : List (List α)) (x : List α) :
    untilJam Jams w (parts ++ [x])
      = untilJam Jams w parts ++ if Jams (w ++ (parts.flatten ++ x)) then [] else x := by
  induction parts generalizing w with
  | nil => simp [untilJam]
  | cons y parts ih =>
      rw [List.cons_append, untilJam, untilJam]
      by_cases hjam : Jams (w ++ y)
      -- jammed before, and still
      · have hlast : Jams (w ++ ((y :: parts).flatten ++ x)) := by
          rw [List.flatten_cons, List.append_assoc, ← List.append_assoc]
          exact hmono _ _ hjam
        rw [if_pos hjam, if_pos hjam, if_pos hlast, List.nil_append]
      · rw [if_neg hjam, if_neg hjam, ih, List.flatten_cons]
        simp only [List.append_assoc]

theorem untilJam_clear (hmono : ∀ w v, Jams w → Jams (w ++ v)) {w : List α} {parts : List (List α)}
    (h : ¬ Jams (w ++ parts.flatten)) : untilJam Jams w parts = parts.flatten := by
  induction parts generalizing w with
  | nil => rfl
  | cons x parts ih =>
      rw [List.flatten_cons, ← List.append_assoc] at h
      rw [untilJam, if_neg fun hjam => h (hmono _ _ hjam), ih h, List.flatten_cons]

/-- **One more part and a flush**: what comes out is the part, unless it is jammed then. -/
theorem Settled.flush (hmono : ∀ w v, Jams w → Jams (w ++ v)) {p : Pipe α} {parts : List (List α)}
    (h : Settled Jams p parts) (x : List α) : Settled Jams ((p.put x).flush Jams).1 (parts ++ [x]) ∧
      untilJam Jams [] (parts ++ [x]) = untilJam Jams [] parts ++ ((p.put x).flush Jams).2 := by
  have hhistory : (p.put x).history = (parts ++ [x]).flatten := by
    rw [history_put, h.history, List.flatten_append, List.flatten_singleton]
  by_cases hjam : Jams (p.put x).history
  · have hsnoc := untilJam_snoc hmono [] parts x
    rw [if_pos (by rw [← h.history]; exact hjam), List.append_nil] at hsnoc
    rw [flush_jammed hjam, List.append_nil]
    refine ⟨⟨hhistory, ?_, fun hclear => absurd hjam hclear⟩, hsnoc⟩
    rw [hsnoc, ← h.taken, history_put]
    exact List.take_append_of_le_length p.taken_le
  · have hclear : ¬ Jams p.history := fun hold => hjam (hmono _ _ hold)
    have hall : untilJam Jams [] (parts ++ [x]) = (parts ++ [x]).flatten :=
      untilJam_clear hmono (by rw [List.nil_append, ← hhistory]; exact hjam)
    have hbefore : untilJam Jams [] parts = parts.flatten :=
      untilJam_clear hmono (by rw [List.nil_append, ← h.history]; exact hclear)
    rw [flush_clear hjam]
    refine ⟨⟨hhistory, ?_, fun _ => waiting_emptied _⟩, ?_⟩
    · rw [hall, ← hhistory]
      exact List.take_length
    · rw [hall, hbefore, waiting_put, h.clear hclear, List.flatten_append, List.flatten_singleton,
        List.nil_append]

/-- Another flush changes nothing. -/
theorem Settled.flush_eq {p : Pipe α} {parts : List (List α)} (h : Settled Jams p parts) : p.flush Jams = (p, []) := by
  by_cases hjam : Jams p.history
  · exact flush_jammed hjam
  · have hnone := h.clear hjam
    have hall : p.taken = p.history.length := by
      have hle := p.taken_le
      have hlen := congrArg List.length hnone
      rw [waiting, List.length_drop, List.length_nil] at hlen
      omega
    rw [flush_clear hjam, hnone]
    cases p with
    | mk history taken hle =>
        obtain rfl : taken = history.length := hall
        rfl

theorem Settled.flush_again {p : Pipe α} {parts : List (List α)} (h : Settled Jams p parts) :
    Settled Jams (p.flush Jams).1 parts ∧ untilJam Jams [] parts = untilJam Jams [] parts ++ (p.flush Jams).2 := by
  rw [h.flush_eq, List.append_nil]
  exact ⟨h, rfl⟩

end Flush

end Pipe

end Lib
