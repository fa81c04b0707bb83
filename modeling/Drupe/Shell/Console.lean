import Drupe.Lib.Pipe
import Drupe.Shell.Correctness.Drain

/-!
# `Shell.Console` — what the console is for

The console is three pipes and what was shown so far. Every write empties the pipes of the two outputs onto
the screen, each in its colour; a pipe that a newline jammed shows nothing. The shell and `shell.c` do not
occur here: that a shell does this is shown in `Shell.Correctness.Console`.
-/

namespace Drupe

open Lib

instance (w : List UInt8) : Decidable (NewlineAtBase w) :=
  decidable_of_iff (∃ q < w.length, q % streamBufSize = 0 ∧ w[q]? = some newline)
    ⟨fun ⟨q, _, hq⟩ => ⟨q, hq⟩, fun ⟨q, hbase, hq⟩ => ⟨q, (List.getElem?_eq_some_iff.mp hq).1, hbase, hq⟩⟩

/-- `shown`: byte and colour, in order. -/
structure Console where
  pipe : Fin streamCount → Pipe UInt8
  shown : List (UInt8 × UInt8)

namespace Console

def empty : Console := ⟨fun _ => Pipe.empty, []⟩

/-- One call at the console: bytes are written, with what the call answers, or bytes are read from stdin, with
    the room there is for them. -/
inductive Event
  | write (idx : Int) (bytes : List UInt8) (ret : Int)
  | read (room : Nat) (bytes : List UInt8)
deriving DecidableEq

def setPipe (c : Console) (i : Fin streamCount) (p : Pipe UInt8) : Console :=
  { c with pipe := Function.update c.pipe i p }

/-- All that waits for an output is shown, unless it is jammed. -/
def flush (c : Console) (o : Output) : Console where
  pipe := Function.update c.pipe o.index ((c.pipe o.index).flush NewlineAtBase).1
  shown := c.shown ++ ((c.pipe o.index).flush NewlineAtBase).2.map fun b => (b, o.color)

def render (c : Console) : Console := (c.flush .stdout).flush .stderr

/-- What a stream accepts of a write. -/
def accepted (c : Console) (i : Fin streamCount) (bytes : List UInt8) : List UInt8 :=
  (c.pipe i).accepts streamBufSize bytes

/-- A write to a stream. -/
def write (c : Console) (i : Fin streamCount) (bytes : List UInt8) : Console :=
  (c.setPipe i ((c.pipe i).put (c.accepted i bytes))).render

inductive Step : Console → Event → Console → Prop
  | write (c : Console) (i : Fin streamCount) (bytes : List UInt8) :
      Step c (.write i.val bytes (c.accepted i bytes).length) (c.write i bytes)
  | noStream (c : Console) {idx : Int} (hidx : idx < 0 ∨ idx ≥ streamCount) (bytes : List UInt8) :
      Step c (.write idx bytes (-1)) c
  | read (c : Console) {room : Nat} {bytes : List UInt8} {p : Pipe UInt8}
      (hget : Pipe.Step streamBufSize NewlineAtBase (c.pipe streamStdin) (.get room bytes) p) :
      Step c (.read room bytes) (c.setPipe streamStdin p)

/-- The parts that a stream accepted of what was written to it. -/
def acceptedParts (i : Fin streamCount) (calls : List Event) : List (List UInt8) :=
  calls.flatMap fun
    | .write idx bytes ret => if idx = i.val then [bytes.take ret.toNat] else []
    | .read _ _ => []

/-- What was shown in one colour. -/
def inColor (color : UInt8) (shown : List (UInt8 × UInt8)) : List UInt8 :=
  (shown.filter fun e => e.2 = color).map Prod.fst

/-! ## One pipe at a time -/

@[simp] theorem pipe_setPipe (c : Console) (i : Fin streamCount) (p : Pipe UInt8) : (c.setPipe i p).pipe i = p :=
  Function.update_self _ _ _

theorem pipe_setPipe_ne (c : Console) {i j : Fin streamCount} (hne : j ≠ i) (p : Pipe UInt8) :
    (c.setPipe i p).pipe j = c.pipe j := Function.update_of_ne hne _ _

theorem pipe_flush (c : Console) (o : Output) :
    (c.flush o).pipe o.index = ((c.pipe o.index).flush NewlineAtBase).1 := Function.update_self _ _ _

theorem pipe_flush_ne (c : Console) {o : Output} {j : Fin streamCount} (hne : j ≠ o.index) :
    (c.flush o).pipe j = c.pipe j := Function.update_of_ne hne _ _

/-- What waits for one output does not depend on the other. -/
theorem pipe_render (c : Console) (o : Output) :
    c.render.pipe o.index = ((c.pipe o.index).flush NewlineAtBase).1 := by
  unfold render
  cases o with
  | stdout =>
      rw [pipe_flush_ne _ (show Output.stdout.index ≠ Output.stderr.index by decide)]
      exact c.pipe_flush .stdout
  | stderr =>
      rw [pipe_flush, pipe_flush_ne _ (show Output.stderr.index ≠ Output.stdout.index by decide)]

theorem pipe_render_stdin (c : Console) : c.render.pipe streamStdin = c.pipe streamStdin :=
  ((c.flush .stdout).pipe_flush_ne (show streamStdin ≠ Output.stderr.index by decide)).trans
    (c.pipe_flush_ne (show streamStdin ≠ Output.stdout.index by decide))

/-- What `render` lets out of an output. -/
def released (c : Console) (o : Output) : List UInt8 :=
  ((c.pipe o.index).flush NewlineAtBase).2

theorem shown_render (c : Console) : c.render.shown =
    c.shown ++ ((c.released .stdout).map fun b => (b, Output.stdout.color)) ++
      (c.released .stderr).map fun b => (b, Output.stderr.color) := by
  have hsecond : (c.flush .stdout).pipe Output.stderr.index = c.pipe Output.stderr.index :=
    c.pipe_flush_ne (by decide)
  unfold render released
  rw [← hsecond]
  rfl

/-! ## What is shown -/

theorem inColor_append (color : UInt8) (shown more : List (UInt8 × UInt8)) :
    inColor color (shown ++ more) = inColor color shown ++ inColor color more := by
  unfold inColor
  rw [List.filter_append, List.map_append]

theorem inColor_own (color : UInt8) (bytes : List UInt8) : inColor color (bytes.map fun b => (b, color)) = bytes := by
  unfold inColor
  rw [List.filter_eq_self.mpr (by simp), List.map_map]
  exact List.map_id bytes

theorem inColor_other {color color' : UInt8} (hne : color' ≠ color) (bytes : List UInt8) :
    inColor color (bytes.map fun b => (b, color')) = [] := by
  unfold inColor
  rw [List.filter_eq_nil_iff.mpr (by simp [hne]), List.map_nil]

theorem inColor_render (c : Console) (o : Output) :
    inColor o.color c.render.shown = inColor o.color c.shown ++ c.released o := by
  rw [shown_render, inColor_append, inColor_append]
  cases o with
  | stdout =>
      rw [inColor_own, inColor_other (show Output.stderr.color ≠ Output.stdout.color by decide), List.append_nil]
  | stderr =>
      rw [inColor_own, inColor_other (show Output.stdout.color ≠ Output.stderr.color by decide), List.append_nil]

/-- **The invariant of the console**: each output was flushed after every part that it accepted, and what came out
    was shown in its colour. -/
structure Shows (c : Console) (parts : Fin streamCount → List (List UInt8)) : Prop where
  settled : ∀ o : Output, Pipe.Settled NewlineAtBase (c.pipe o.index) (parts o.index)
  shown : ∀ o : Output, inColor o.color c.shown = Pipe.untilJam NewlineAtBase [] (parts o.index)
  colored : ∀ e ∈ c.shown, ∃ o : Output, e.2 = o.color

theorem shows_empty : empty.Shows fun _ => [] where
  settled _ := Pipe.settled_empty NewlineAtBase
  shown _ := rfl
  colored _ he := absurd he List.not_mem_nil

theorem newlineAtBase_mono (w v : List UInt8) (h : NewlineAtBase w) : NewlineAtBase (w ++ v) := h.append v

theorem colored_render {c : Console} (h : ∀ e ∈ c.shown, ∃ o : Output, e.2 = o.color) :
    ∀ e ∈ c.render.shown, ∃ o : Output, e.2 = o.color := by
  intro e he
  rw [shown_render, List.mem_append, List.mem_append, List.mem_map, List.mem_map] at he
  rcases he with (hold | ⟨b, -, rfl⟩) | ⟨b, -, rfl⟩
  · exact h e hold
  · exact ⟨.stdout, rfl⟩
  · exact ⟨.stderr, rfl⟩

/-- A write: its stream gets one more part, and the others are as they were. -/
theorem Shows.write {c : Console} {parts : Fin streamCount → List (List UInt8)} (h : c.Shows parts)
    (i : Fin streamCount) (bytes : List UInt8) :
    (c.write i bytes).Shows fun j => parts j ++ if i = j then [c.accepted i bytes] else [] := by
  have hput : ∀ o : Output, Pipe.Settled NewlineAtBase ((c.write i bytes).pipe o.index)
      (parts o.index ++ if i = o.index then [c.accepted i bytes] else []) ∧
      Pipe.untilJam NewlineAtBase [] (parts o.index ++ if i = o.index then [c.accepted i bytes] else [])
        = Pipe.untilJam NewlineAtBase [] (parts o.index)
          ++ (c.setPipe i ((c.pipe i).put (c.accepted i bytes))).released o := by
    intro o
    unfold Console.write released
    rw [pipe_render]
    by_cases heq : i = o.index
    · subst heq
      rw [pipe_setPipe, if_pos rfl]
      exact (h.settled o).flush newlineAtBase_mono _
    · rw [pipe_setPipe_ne c (Ne.symm heq), if_neg heq, List.append_nil]
      exact (h.settled o).flush_again
  refine ⟨fun o => (hput o).1, fun o => ?_, colored_render h.colored⟩
  rw [(hput o).2, ← h.shown o]
  exact inColor_render _ o

/-- **Step lemma.** -/
theorem Shows.step {c c' : Console} {parts : Fin streamCount → List (List UInt8)} {e : Event} (h : c.Shows parts)
    (hstep : Step c e c') : c'.Shows fun i => parts i ++ acceptedParts i [e] := by
  cases hstep with
  | write i bytes =>
      have hpart : ∀ j, acceptedParts j [.write i.val bytes (c.accepted i bytes).length]
          = if i = j then [c.accepted i bytes] else [] := by
        intro j
        have htake : bytes.take (c.accepted i bytes).length = c.accepted i bytes := by
          unfold accepted Pipe.accepts
          exact (List.take_eq_take_iff.mpr (by simp)).trans rfl
        have hval : (i.val : Int) = j.val ↔ i = j := by omega
        simp [acceptedParts, hval, htake]
      simp only [hpart]
      exact h.write i bytes
  | @noStream idx hidx bytes =>
      have hnone : ∀ i : Fin streamCount, acceptedParts i [.write idx bytes (-1)] = [] := by
        intro i
        have hne : idx ≠ (i.val : Int) := by omega
        simp [acceptedParts, hne]
      simp only [hnone, List.append_nil]
      exact h
  | @read room bytes p hget =>
      have hnone : ∀ i : Fin streamCount, acceptedParts i [.read room bytes] = [] := fun i => rfl
      have hstdin : ∀ o : Output, (c.setPipe streamStdin p).pipe o.index = c.pipe o.index := by
        intro o
        exact c.pipe_setPipe_ne o.index_ne_stdin p
      simp only [hnone, List.append_nil]
      exact ⟨fun o => by rw [hstdin]; exact h.settled o, h.shown, h.colored⟩

theorem acceptedParts_cons (i : Fin streamCount) (e : Event) (calls : List Event) :
    acceptedParts i (e :: calls) = acceptedParts i [e] ++ acceptedParts i calls := by
  unfold acceptedParts
  rw [List.flatMap_cons, List.flatMap_singleton]

/-- **Run lemma.** -/
theorem Shows.run {c c' : Console} {parts : Fin streamCount → List (List UInt8)} (h : c.Shows parts)
    {vis : List (Console × Event)} (hrun : Run Step c vis c') :
    c'.Shows fun i => parts i ++ acceptedParts i (vis.map Prod.snd) := by
  induction hrun generalizing parts with
  | nil =>
      simp only [List.map_nil, acceptedParts, List.flatMap_nil, List.append_nil]
      exact h
  | @cons c e d vis u hstep _ ih =>
      have hrest := ih (h.step hstep)
      simp only [List.append_assoc, ← acceptedParts_cons] at hrest
      exact hrest

end Console

end Drupe
