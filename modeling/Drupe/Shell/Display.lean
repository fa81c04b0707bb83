import Drupe.Shell.Console

/-!
# `Shell.Display` — the screen as a function of what was said

For the outputs, all that was ever written to them is told by a list. What comes to the screen can be read off that
list alone (`display`), in order and with both colours: each write is shown at once, as much of it as its stream
holds, up to the one that jams its output. The console keeps to this at every step (`Console.Step.displays`).
-/

namespace Drupe

open Lib

/-- A write to an output. -/
structure Said where
  output : Output
  bytes : List UInt8
deriving DecidableEq

/-- The part of a write that there is room for in an empty stream. -/
def Said.fitting (s : Said) : List UInt8 := s.bytes.take streamBufSize

/-- All that was said at an output, one write after the other. -/
def saidAt (o : Output) (said : List Said) : List UInt8 := (said.filter fun s => s.output = o).flatMap Said.fitting

/-- What comes to the screen of `said`, after `before`: byte and colour. A write that leaves its output with a newline
    at a multiple of `streamBufSize` is not shown, and neither are the ones after it. -/
def display : List Said → List Said → List (UInt8 × UInt8)
  | _, [] => []
  | before, s :: said =>
      (if NewlineAtBase (saidAt s.output (before ++ [s])) then [] else s.fitting.map fun b => (b, s.output.color)) ++
        display (before ++ [s]) said

/-! ## One more write -/

variable {o : Output} {bytes : List UInt8} {said : List Said}

theorem saidAt_append (o : Output) (said more : List Said) :
    saidAt o (said ++ more) = saidAt o said ++ saidAt o more := by
  unfold saidAt
  rw [List.filter_append, List.flatMap_append]

theorem saidAt_own (o : Output) (bytes : List UInt8) : saidAt o [⟨o, bytes⟩] = bytes.take streamBufSize := by
  simp [saidAt, Said.fitting]

theorem saidAt_other {o' : Output} (hne : o ≠ o') (bytes : List UInt8) : saidAt o' [⟨o, bytes⟩] = [] := by
  simp [saidAt, hne]

theorem display_append (before said more : List Said) :
    display before (said ++ more) = display before said ++ display (before ++ said) more := by
  induction said generalizing before with
  | nil => rw [List.nil_append, List.append_nil, display, List.nil_append]
  | cons s said ih =>
      rw [List.cons_append, display, display, ih, List.append_assoc, List.append_assoc, List.singleton_append]

theorem display_snoc (said : List Said) (o : Output) (bytes : List UInt8) :
    display [] (said ++ [⟨o, bytes⟩]) = display [] said ++
      if NewlineAtBase (saidAt o said ++ bytes.take streamBufSize) then []
      else (bytes.take streamBufSize).map fun b => (b, o.color) := by
  rw [display_append, List.nil_append, display, display, List.append_nil, saidAt_append, saidAt_own]
  rfl

/-- Without a jam, every write is shown. -/
theorem display_clear {before : List Said} (hclear : ∀ o, ¬ NewlineAtBase (saidAt o (before ++ said))) :
    display before said = said.flatMap fun s => s.fitting.map fun b => (b, s.output.color) := by
  induction said generalizing before with
  | nil => rfl
  | cons s said ih =>
      have hsplit : before ++ s :: said = before ++ [s] ++ said := List.append_cons before s said
      rw [hsplit] at hclear
      have hfirst : ¬ NewlineAtBase (saidAt s.output (before ++ [s])) := by
        intro hjam
        have hlater := hclear s.output
        rw [saidAt_append] at hlater
        exact hlater (hjam.append _)
      rw [display, if_neg hfirst, ih hclear, List.flatMap_cons]

/-! ## The console -/

namespace Console

variable {c c' : Console}

/-- **The invariant**: the console shows what was said, and nothing waits for an output that is not jammed. -/
structure Displays (c : Console) (said : List Said) : Prop where
  shown : c.shown = display [] said
  clear : ∀ o : Output, ¬ NewlineAtBase (c.pipe o.index).history →
    (c.pipe o.index).waiting = [] ∧ (c.pipe o.index).history = saidAt o said
  jammed : ∀ o : Output, NewlineAtBase (c.pipe o.index).history → NewlineAtBase (saidAt o said)

theorem displays_empty : empty.Displays [] where
  shown := rfl
  clear _ _ := ⟨rfl, rfl⟩
  jammed _ hjam := hjam

/-- Nothing is left to be let out. -/
theorem Displays.released (h : c.Displays said) (o : Output) : c.released o = [] := by
  unfold Console.released
  by_cases hjam : NewlineAtBase (c.pipe o.index).history
  · rw [Pipe.flush_jammed hjam]
  · rw [Pipe.flush_clear hjam]
    exact (h.clear o hjam).1

/-- Rendering lets out of one output what was put there, and nothing of the other. -/
theorem shown_write (h : c.Displays said) (o : Output) (bytes : List UInt8) :
    (c.write o.index bytes).shown = c.shown ++
      (((c.pipe o.index).put (c.accepted o.index bytes)).flush NewlineAtBase).2.map fun b => (b, o.color) := by
  have hown : (c.setPipe o.index ((c.pipe o.index).put (c.accepted o.index bytes))).released o
      = (((c.pipe o.index).put (c.accepted o.index bytes)).flush NewlineAtBase).2 := by
    unfold Console.released
    rw [pipe_setPipe]
  have hother : ∀ o', o' ≠ o →
      (c.setPipe o.index ((c.pipe o.index).put (c.accepted o.index bytes))).released o' = [] := by
    intro o' hne
    rw [← h.released o']
    unfold Console.released
    rw [pipe_setPipe_ne c (Output.index_ne hne)]
  unfold write
  rw [shown_render, ← hown]
  cases o with
  | stdout => rw [hother .stderr (by decide), List.map_nil, List.append_nil]; rfl
  | stderr => rw [hother .stdout (by decide), List.map_nil, List.append_nil]; rfl

theorem pipe_write (c : Console) (o : Output) (i : Fin streamCount) (bytes : List UInt8) :
    (c.write i bytes).pipe o.index = (((c.setPipe i ((c.pipe i).put (c.accepted i bytes))).pipe o.index).flush
      NewlineAtBase).1 := by
  unfold write
  exact pipe_render _ o

/-- What is not written to is as it was. -/
theorem pipe_write_other (c : Console) {i : Fin streamCount} (hne : o.index ≠ i) (bytes : List UInt8) :
    ((c.write i bytes).pipe o.index).history = (c.pipe o.index).history ∧
      (¬ NewlineAtBase (c.pipe o.index).history → ((c.write i bytes).pipe o.index).waiting = []) := by
  rw [pipe_write, pipe_setPipe_ne c hne, Pipe.history_flush]
  refine ⟨rfl, fun hclear => ?_⟩
  rw [Pipe.flush_clear hclear]
  exact Pipe.waiting_emptied _

/-- **A write to an output.** -/
theorem Displays.write (h : c.Displays said) (o : Output) (bytes : List UInt8) :
    (c.write o.index bytes).Displays (said ++ [⟨o, bytes⟩]) := by
  have hhistory : ((c.write o.index bytes).pipe o.index).history
      = (c.pipe o.index).history ++ c.accepted o.index bytes := by
    rw [pipe_write, pipe_setPipe, Pipe.history_flush, Pipe.history_put]
  -- as long as the output is not jammed, the whole stream is free
  have hfree : ¬ NewlineAtBase (c.pipe o.index).history → c.accepted o.index bytes = bytes.take streamBufSize := by
    intro hclear
    unfold accepted Pipe.accepts
    rw [(h.clear o hclear).1]
    rfl
  have hiff : NewlineAtBase ((c.pipe o.index).history ++ c.accepted o.index bytes) ↔
      NewlineAtBase (saidAt o said ++ bytes.take streamBufSize) := by
    by_cases hjam : NewlineAtBase (c.pipe o.index).history
    · exact iff_of_true (hjam.append _) ((h.jammed o hjam).append _)
    · rw [hfree hjam, (h.clear o hjam).2]
  refine ⟨?_, fun o' hclear => ?_, fun o' hjam => ?_⟩
  · rw [shown_write h, display_snoc, h.shown]
    congr 1
    by_cases hjam : NewlineAtBase ((c.pipe o.index).history ++ c.accepted o.index bytes)
    · rw [if_pos (hiff.mp hjam), Pipe.flush_jammed hjam, List.map_nil]
    · have hbefore : ¬ NewlineAtBase (c.pipe o.index).history := fun hold => hjam (hold.append _)
      rw [if_neg fun hlater => hjam (hiff.mpr hlater), Pipe.flush_clear hjam, Pipe.waiting_put,
        (h.clear o hbefore).1, hfree hbefore, List.nil_append]
  · by_cases heq : o = o'
    · subst heq
      rw [hhistory] at hclear
      have hbefore : ¬ NewlineAtBase (c.pipe o.index).history := fun hold => hclear (hold.append _)
      constructor
      · rw [pipe_write, pipe_setPipe, Pipe.flush_clear hclear]
        exact Pipe.waiting_emptied _
      · rw [hhistory, hfree hbefore, (h.clear o hbefore).2, saidAt_append, saidAt_own]
    · obtain ⟨hsame, hdry⟩ := pipe_write_other c (Output.index_ne (Ne.symm heq)) bytes
      rw [hsame] at hclear
      rw [hsame, saidAt_append, saidAt_other heq, List.append_nil]
      exact ⟨hdry hclear, (h.clear o' hclear).2⟩
  · by_cases heq : o = o'
    · subst heq
      rw [hhistory] at hjam
      rw [saidAt_append, saidAt_own]
      exact hiff.mp hjam
    · obtain ⟨hsame, -⟩ := pipe_write_other c (Output.index_ne (Ne.symm heq)) bytes
      rw [hsame] at hjam
      rw [saidAt_append, saidAt_other heq, List.append_nil]
      exact h.jammed o' hjam

/-- What is written to stdin is not shown. -/
theorem Displays.write_stdin (h : c.Displays said) (bytes : List UInt8) :
    (c.write streamStdin bytes).Displays said := by
  have hother : ∀ o,
      (c.setPipe streamStdin ((c.pipe streamStdin).put (c.accepted streamStdin bytes))).released o = [] := by
    intro o
    rw [← h.released o]
    unfold Console.released
    rw [pipe_setPipe_ne c o.index_ne_stdin]
  refine ⟨?_, fun o hclear => ?_, fun o hjam => ?_⟩
  · unfold Console.write
    rw [shown_render, hother, hother, List.map_nil, List.map_nil, List.append_nil, List.append_nil]
    exact h.shown
  · obtain ⟨hsame, hdry⟩ := pipe_write_other c o.index_ne_stdin bytes
    rw [hsame] at hclear
    rw [hsame]
    exact ⟨hdry hclear, (h.clear o hclear).2⟩
  · obtain ⟨hsame, -⟩ := pipe_write_other c o.index_ne_stdin bytes
    rw [hsame] at hjam
    exact h.jammed o hjam

/-- What a write to a stream says. -/
def saidTo (idx : Int) (bytes : List UInt8) : List Said :=
  if idx = streamStdout.val then [⟨.stdout, bytes⟩] else if idx = streamStderr.val then [⟨.stderr, bytes⟩] else []

/-- **Step lemma**, for writes. -/
theorem Displays.step_write (h : c.Displays said) {idx ret : Int} (hstep : Step c (.write idx bytes ret) c') :
    c'.Displays (said ++ saidTo idx bytes) := by
  cases hstep with
  | write i =>
      by_cases hout : i = streamStdout
      · subst hout
        exact h.write .stdout bytes
      · by_cases herr : i = streamStderr
        · subst herr
          exact h.write .stderr bytes
        · have hnone : saidTo i.val bytes = [] := by
            unfold saidTo
            rw [if_neg (by omega), if_neg (by omega)]
          obtain rfl : i = streamStdin := stdin_of_not_output fun o heq => by
            cases o with
            | stdout => exact hout heq.symm
            | stderr => exact herr heq.symm
          rw [hnone, List.append_nil]
          exact h.write_stdin bytes
  | noStream hidx =>
      have hnone : saidTo idx bytes = [] := by
        have hout : (streamStdout.val : Int) = 1 := rfl
        have herr : (streamStderr.val : Int) = 2 := rfl
        unfold saidTo
        rw [if_neg (by omega), if_neg (by omega)]
      rw [hnone, List.append_nil]
      exact h

/-- **Step lemma**, for reads. -/
theorem Displays.step_read (h : c.Displays said) {room : Nat} (hstep : Step c (.read room bytes) c') :
    c'.Displays said := by
  cases hstep with
  | @read _ _ p hget =>
      have hsame : ∀ o : Output, (c.setPipe streamStdin p).pipe o.index = c.pipe o.index :=
        fun o => pipe_setPipe_ne c o.index_ne_stdin p
      refine ⟨h.shown, fun o hclear => ?_, fun o hjam => ?_⟩
      · rw [hsame] at hclear ⊢
        exact h.clear o hclear
      · rw [hsame] at hjam
        exact h.jammed o hjam

end Console

end Drupe
