import Drupe.Shell.Correctness.Scroll

/-!
# `Shell.Correctness.Drained` — what `sh_render` leaves of a stream

`Stream.drain` is a loop of `sh_render` without its screen. It takes a first part of the queue and leaves
a dry stream (`Stream.Ok.drain`, `Stream.drain_dry`), from which a read takes nothing; and it does not
look at `head` (`Stream.drain_setHead`).
-/

namespace Drupe

/-- A read of the stream takes nothing. -/
def Stream.Dry (s : Stream) : Prop := s.count ≤ 0 ∨ s.cell 0 = newline

instance (s : Stream) : Decidable s.Dry := inferInstanceAs (Decidable (_ ∨ _))

/-- What `sh_render` leaves of a stream, and what it takes from it. -/
def Stream.drain (s : Stream) : Stream × List UInt8 := drained (s.count.toNat + 1) s

theorem Stream.dry_iff {s : Stream} : s.Dry ↔ (streamRead s renderBufSize).2 = [] := by
  constructor
  · rintro (hcount | hcell)
    · rw [streamRead_empty hcount]
    · rw [streamRead_stall hcell]
  · intro hnil
    by_contra hdry
    rw [Stream.Dry, not_or, Int.not_le] at hdry
    exact streamRead_progress hdry.2 hdry.1 (by decide) hnil

theorem Stream.Dry.drained {s : Stream} (h : s.Dry) (fuel : Nat) : drained fuel s = (s, []) := by
  have hread := streamRead_of_nil (Stream.dry_iff.mp h)
  cases fuel with
  | zero => rfl
  | succ fuel => simp [Drupe.drained, hread]

theorem Stream.Dry.drain {s : Stream} (h : s.Dry) : s.drain = (s, []) := h.drained _

theorem drained_dry {fuel : Nat} {s : Stream} (hfuel : s.count < fuel) : (drained fuel s).1.Dry := by
  induction fuel generalizing s with
  | zero => exact .inl (Int.le_of_lt hfuel)
  | succ fuel ih =>
      rw [drained]
      by_cases hnil : (streamRead s renderBufSize).2 = []
      · simp only [if_pos hnil]
        rw [streamRead_of_nil hnil]
        exact Stream.dry_iff.mpr hnil
      · simp only [if_neg hnil]
        apply ih
        have := streamRead_count_lt hnil
        omega

/-- What is left is dry. -/
theorem Stream.drain_dry (s : Stream) : s.drain.1.Dry := drained_dry (by omega)

theorem drained_spec {s : Stream} (h : s.Ok) (fuel : Nat) :
    (drained fuel s).1.Ok ∧ s.contents = (drained fuel s).2 ++ (drained fuel s).1.contents ∧
      (drained fuel s).1.count ≤ s.count := by
  induction fuel generalizing s with
  | zero => exact ⟨h, rfl, Int.le_refl _⟩
  | succ fuel ih =>
      obtain ⟨hok, hcont, -⟩ := streamRead_spec h renderBufSize
      rw [drained]
      by_cases hnil : (streamRead s renderBufSize).2 = []
      · rw [streamRead_of_nil hnil]
        exact ⟨h, rfl, Int.le_refl _⟩
      · simp only [if_neg hnil]
        obtain ⟨hrok, hrcont, hrcount⟩ := ih hok
        have := streamRead_count_lt hnil
        refine ⟨hrok, ?_, by omega⟩
        rw [List.append_assoc, ← hrcont]
        exact hcont

/-- **Draining** takes a first part of the queue. -/
theorem Stream.Ok.drain {s : Stream} (h : s.Ok) :
    s.drain.1.Ok ∧ s.contents = s.drain.2 ++ s.drain.1.contents ∧ s.drain.1.count ≤ s.count := drained_spec h _

theorem drained_frame (fuel : Nat) (s : Stream) :
    (drained fuel s).1.data = s.data ∧ (drained fuel s).1.head = s.head := by
  induction fuel generalizing s with
  | zero => exact ⟨rfl, rfl⟩
  | succ fuel ih =>
      have hread := streamReadLoop_frame renderBufSize.toNat 0 s
      rw [drained]
      split
      · exact hread
      · obtain ⟨hdata, hhead⟩ := ih (streamRead s renderBufSize).1
        exact ⟨hdata.trans hread.1, hhead.trans hread.2⟩

/-- A reader does not look at `head`. -/
theorem streamReadLoop_setHead (fuel read : Nat) (s : Stream) (head : Int) :
    streamReadLoop fuel read { s with head }
      = ({ (streamReadLoop fuel read s).1 with head }, (streamReadLoop fuel read s).2) := by
  induction fuel generalizing read s with
  | zero => rfl
  | succ fuel ih =>
      rw [streamReadLoop, streamReadLoop]
      by_cases hpos : s.count > 0
      · rw [if_pos hpos, if_pos hpos]
        by_cases hcell : s.cell read = newline
        · have hcell' : Stream.cell { s with head } read = newline := hcell
          rw [if_pos hcell, if_pos hcell']
        · have hcell' : ¬ Stream.cell { s with head } read = newline := hcell
          rw [if_neg hcell, if_neg hcell']
          have hrest := ih (read + 1) s.drop
          change streamReadLoop fuel (read + 1) (Stream.drop { s with head }) = _ at hrest
          simp only [hrest]
          rfl
      · rw [if_neg hpos, if_neg hpos]

theorem drained_setHead (fuel : Nat) (s : Stream) (head : Int) :
    drained fuel { s with head } = ({ (drained fuel s).1 with head }, (drained fuel s).2) := by
  induction fuel generalizing s with
  | zero => rfl
  | succ fuel ih =>
      have hread : streamRead { s with head } renderBufSize
          = ({ (streamRead s renderBufSize).1 with head }, (streamRead s renderBufSize).2) :=
        streamReadLoop_setHead _ 0 s head
      rw [drained, drained]
      by_cases hnil : (streamRead s renderBufSize).2 = []
      · simp only [hread, if_pos hnil]
      · simp only [hread, if_neg hnil, ih]

theorem Stream.drain_head (s : Stream) : s.drain.1.head = s.head := (drained_frame _ s).2

theorem Stream.drain_setHead (s : Stream) (head : Int) :
    Stream.drain { s with head } = ({ s.drain.1 with head }, s.drain.2) := drained_setHead _ s head

theorem Stream.cell_drain (s : Stream) (i : Int) : s.drain.1.cell i = s.cell i := by
  unfold Stream.cell
  rw [show s.drain.1.data = s.data from (drained_frame _ s).1]

/-! ## `sh_render` on the streams -/

theorem drainAll_stream (i : Fin streamCount) (sh : Shell) :
    (drainAll i sh).stream i = (sh.stream i).drain.1 := by
  rw [drainAll, drain_eq, Shell.stream_afterRead]
  rfl

theorem shRender_stream_drain (sh : Shell) (o : Output) :
    (shRender sh).stream o.index = (sh.stream o.index).drain.1 := by
  unfold shRender
  simp only [Shell.stream_setColor]
  cases o with
  | stdout =>
      rw [drainAll, drain_frame (show streamStderr ≠ Output.stdout.index by decide)]
      exact drainAll_stream streamStdout sh
  | stderr =>
      have hfirst : (drainAll streamStdout sh).stream streamStderr = sh.stream streamStderr :=
        drain_frame (by decide) _ sh
      have hsecond := drainAll_stream streamStderr ((drainAll streamStdout sh).setColor 0x04)
      rw [Shell.stream_setColor, hfirst] at hsecond
      exact hsecond

theorem shRender_stdin (sh : Shell) : (shRender sh).stream streamStdin = sh.stream streamStdin := by
  unfold shRender
  simp only [Shell.stream_setColor]
  rw [drainAll, drain_frame (show streamStderr ≠ streamStdin by decide)]
  exact drain_frame (show streamStdout ≠ streamStdin by decide) _ sh

end Drupe
