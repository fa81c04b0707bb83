import Drupe.System.Correctness.Calls

/-!
# `System.Correctness.Printed` — what becomes of bytes that the kernel prints

They are shown up to the first newline that comes to a multiple of `streamBufSize` in stdout. That newline jams it:
it is queued, with as many of the bytes after it as there is room for, and the others are lost
(`Console.print_spec`).
-/

namespace Drupe

open Lib

namespace Console

variable {c : Console} {b : UInt8}

/-- Nothing waits at stderr. -/
def ErrDry (c : Console) : Prop := (c.pipe streamStderr).waiting = []

theorem ErrDry.released (h : c.ErrDry) : c.released .stderr = [] := by
  unfold Console.released Pipe.flush
  split
  · rfl
  · exact h

theorem ErrDry.setPipe (h : c.ErrDry) (p : Pipe UInt8) : (c.setPipe streamStdout p).ErrDry := by
  unfold ErrDry
  rw [c.pipe_setPipe_ne (show streamStderr ≠ streamStdout by decide)]
  exact h

theorem ErrDry.render (h : c.ErrDry) : c.render.ErrDry := by
  have hpipe := c.pipe_render .stderr
  unfold ErrDry
  rw [show streamStderr = Output.stderr.index from rfl, hpipe]
  unfold Pipe.flush
  split
  · exact h
  · exact Pipe.waiting_emptied _

theorem ErrDry.shown_render (h : c.ErrDry) :
    c.render.shown = c.shown ++ (c.released .stdout).map fun b => (b, Output.stdout.color) := by
  rw [Console.shown_render, h.released, List.map_nil, List.append_nil]

/-- A byte is printed where there is room, and does not jam. -/
theorem write_clear (herr : c.ErrDry) (hdry : (c.pipe streamStdout).waiting = [])
    (hclear : ¬ NewlineAtBase ((c.pipe streamStdout).history ++ [b])) :
    (c.write streamStdout [b]).ErrDry ∧ ((c.write streamStdout [b]).pipe streamStdout).waiting = [] ∧
      ((c.write streamStdout [b]).pipe streamStdout).history = (c.pipe streamStdout).history ++ [b] ∧
      (c.write streamStdout [b]).shown = c.shown ++ [(b, Output.stdout.color)] := by
  have haccepts : c.accepted streamStdout [b] = [b] := by
    unfold accepted Pipe.accepts
    rw [hdry]
    rfl
  have hpipe : (c.setPipe streamStdout ((c.pipe streamStdout).put [b])).pipe streamStdout
      = (c.pipe streamStdout).put [b] := pipe_setPipe _ _ _
  have hflush : ((c.pipe streamStdout).put [b]).flush NewlineAtBase
      = (((c.pipe streamStdout).put [b]).emptied, [b]) := by
    rw [Pipe.flush_clear hclear, Pipe.waiting_put, hdry, List.nil_append]
  have hout := (c.setPipe streamStdout ((c.pipe streamStdout).put [b])).pipe_render .stdout
  rw [show Output.stdout.index = streamStdout from rfl, hpipe, hflush] at hout
  unfold write
  rw [haccepts, hout]
  refine ⟨(herr.setPipe _).render, Pipe.waiting_emptied _, rfl, ?_⟩
  rw [(herr.setPipe _).shown_render, released, show Output.stdout.index = streamStdout from rfl, hpipe, hflush]
  rfl

/-- A byte that is printed where stdout is jammed, or that jams it. -/
theorem write_jams (herr : c.ErrDry)
    (hjam : NewlineAtBase ((c.pipe streamStdout).history ++ c.accepted streamStdout [b])) :
    (c.write streamStdout [b]).ErrDry ∧
      (c.write streamStdout [b]).pipe streamStdout
        = (c.pipe streamStdout).put (c.accepted streamStdout [b]) ∧
      (c.write streamStdout [b]).shown = c.shown := by
  have hpipe : (c.setPipe streamStdout ((c.pipe streamStdout).put (c.accepted streamStdout [b]))).pipe streamStdout
      = (c.pipe streamStdout).put (c.accepted streamStdout [b]) := pipe_setPipe _ _ _
  have hflush : ((c.pipe streamStdout).put (c.accepted streamStdout [b])).flush NewlineAtBase
      = ((c.pipe streamStdout).put (c.accepted streamStdout [b]), []) := Pipe.flush_jammed hjam
  have hout := (c.setPipe streamStdout ((c.pipe streamStdout).put (c.accepted streamStdout [b]))).pipe_render .stdout
  rw [show Output.stdout.index = streamStdout from rfl, hpipe, hflush] at hout
  unfold write
  refine ⟨(herr.setPipe _).render, hout, ?_⟩
  rw [(herr.setPipe _).shown_render, released, show Output.stdout.index = streamStdout from rfl, hpipe, hflush]
  exact List.append_nil _

theorem take_append_again {α : Type} (n : Nat) (l more : List α) : (l.take n ++ more).take n = (l ++ more).take n := by
  have hroom : n - min n l.length = n - l.length := by omega
  rw [List.take_append, List.take_append, List.take_take, Nat.min_self, List.length_take, hroom]

/-- **Printing to a jammed stdout**: it fills up, and nothing is shown. -/
theorem print_jammed (herr : c.ErrDry) (hjam : NewlineAtBase (c.pipe streamStdout).history)
    (hroom : (c.pipe streamStdout).waiting.length ≤ streamBufSize) (bytes : List UInt8) :
    (c.print bytes).shown = c.shown ∧
      ((c.print bytes).pipe streamStdout).waiting
        = ((c.pipe streamStdout).waiting ++ bytes).take streamBufSize := by
  induction bytes generalizing c with
  | nil =>
      rw [List.append_nil, List.take_of_length_le hroom]
      exact ⟨rfl, rfl⟩
  | cons b bytes ih =>
      obtain ⟨herr', hpipe, hshown⟩ := write_jams (b := b) herr (hjam.append _)
      have hwaiting : ((c.write streamStdout [b]).pipe streamStdout).waiting
          = ((c.pipe streamStdout).waiting ++ [b]).take streamBufSize := by
        rw [hpipe, Pipe.waiting_put, accepted, Pipe.accepts, List.take_append, List.take_of_length_le hroom]
      have hnext := ih herr' (by rw [hpipe]; exact hjam.append _) (by
        rw [hwaiting]
        exact List.length_take_le _ _)
      refine ⟨hnext.1.trans hshown, hnext.2.trans ?_⟩
      rw [hwaiting, take_append_again, List.append_assoc, List.singleton_append]

/-- **Printing.** What is shown has no newline at a multiple of `streamBufSize`; what comes after it begins with one,
    if there is anything. -/
theorem print_spec (herr : c.ErrDry) (hdry : (c.pipe streamStdout).waiting = [])
    (hclear : ¬ NewlineAtBase (c.pipe streamStdout).history) (bytes : List UInt8) :
    ∃ w rest, bytes = w ++ rest ∧ ¬ NewlineAtBase ((c.pipe streamStdout).history ++ w) ∧
      (rest = [] ∨ NewlineAtBase ((c.pipe streamStdout).history ++ (w ++ rest.take 1))) ∧
      (c.print bytes).shown = c.shown ++ w.map (fun b => (b, Output.stdout.color)) ∧
      ((c.print bytes).pipe streamStdout).waiting = rest.take streamBufSize := by
  induction bytes generalizing c with
  | nil =>
      refine ⟨[], [], rfl, ?_, .inl rfl, (List.append_nil _).symm, hdry⟩
      rw [List.append_nil]
      exact hclear
  | cons b bytes ih =>
      by_cases hjam : NewlineAtBase ((c.pipe streamStdout).history ++ [b])
      -- this byte jams, and nothing more is shown
      · have haccepts : c.accepted streamStdout [b] = [b] := by
          unfold accepted Pipe.accepts
          rw [hdry]
          rfl
        obtain ⟨herr', hpipe, hshown⟩ := write_jams (b := b) herr (by rw [haccepts]; exact hjam)
        rw [haccepts] at hpipe
        have hwaiting : ((c.write streamStdout [b]).pipe streamStdout).waiting = [b] := by
          rw [hpipe, Pipe.waiting_put, hdry, List.nil_append]
        obtain ⟨hshown', hwaiting'⟩ := print_jammed herr' (by rw [hpipe]; exact hjam)
          (by rw [hwaiting]; exact show 1 ≤ streamBufSize by decide) bytes
        rw [hwaiting, List.singleton_append] at hwaiting'
        refine ⟨[], b :: bytes, rfl, ?_, .inr ?_, ?_, hwaiting'⟩
        · rw [List.append_nil]
          exact hclear
        · exact hjam
        · rw [List.map_nil, List.append_nil]
          exact hshown'.trans hshown
      · obtain ⟨herr', hdry', hhistory, hshown⟩ := write_clear herr hdry hjam
        obtain ⟨w, rest, rfl, hclear', hrest, hshown', hwaiting⟩ := ih herr' hdry' (by rw [hhistory]; exact hjam)
        simp only [hhistory, List.append_assoc, List.singleton_append] at hclear' hrest
        refine ⟨b :: w, rest, rfl, hclear', hrest, ?_, hwaiting⟩
        rw [List.map_cons, List.append_cons, ← hshown]
        exact hshown'

end Console

end Drupe
