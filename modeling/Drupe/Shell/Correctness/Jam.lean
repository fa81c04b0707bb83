import Drupe.Lib.Pipe
import Drupe.Shell.Correctness.StreamFifo

/-!
# `Shell.Correctness.Jam` — a stream is a pipe that a newline can jam

`stream_read` ends at once when the first cell of the array holds a newline. That newline is then never read,
so the cell is never written again: the stream is jammed for good. In terms of what was written to a stream,
over its life, that is a newline at a multiple of `streamBufSize` (`NewlineAtBase`), and up to there no read
comes back empty-handed (`stream_dead_iff`).
-/

namespace Drupe

open Lib

/-- The stream holds what is in the pipe. `kept`: a newline that came to the first cell is still there. -/
structure Stream.Carries (s : Stream) (p : Pipe UInt8) : Prop where
  ok : s.Ok
  contents : s.contents = p.waiting
  written : s.Written p.history
  kept : ∀ q, q % streamBufSize = 0 → p.history[q]? = some newline → p.taken ≤ q

theorem carries_reset {s : Stream} (hh : s.head = 0) (ht : s.tail = 0) (hc : s.count = 0) :
    s.Carries Pipe.empty where
  ok := Stream.ok_of_reset hh ht hc
  contents := Stream.contents_of_count_zero hc
  written := Stream.written_nil hh
  kept q _ _ := Nat.zero_le q

variable {s t : Stream} {p : Pipe UInt8}

theorem Stream.Carries.count_eq (h : s.Carries p) : s.count = (p.waiting.length : Int) := by
  rw [← h.contents, h.ok.contents_length]

theorem Stream.Carries.history_le (h : s.Carries p) : p.history.length ≤ p.taken + streamBufSize := by
  have hcount := h.count_eq
  have hle := h.ok.count_le
  have hlen : p.waiting.length = p.history.length - p.taken := List.length_drop
  omega

/-- **The first cell tells.** Once something was written, it is a newline exactly when one came there. -/
theorem Stream.Carries.cell_zero_iff (h : s.Carries p) (hne : p.history ≠ []) :
    s.cell 0 = newline ↔ NewlineAtBase p.history := by
  have hpos : 0 < p.history.length := List.length_pos_iff.mpr hne
  constructor
  · intro hcell
    -- the last byte that was written there
    have hq : (p.history.length - 1) / streamBufSize * streamBufSize < p.history.length := by
      unfold streamBufSize
      omega
    have hlast := h.written.cell_eq _ hq (by unfold streamBufSize; omega)
    rw [Nat.mul_mod_left] at hlast
    exact ⟨_, Nat.mul_mod_left _ _, hlast.trans (congrArg some hcell)⟩
  · rintro ⟨q, hbase, hq⟩
    have hlt : q < p.history.length := (List.getElem?_eq_some_iff.mp hq).1
    have hkept := h.kept q hbase hq
    have hcell := h.written.cell_eq q hlt (Nat.le_trans h.history_le (Nat.add_le_add_right hkept _))
    rw [hbase, hq] at hcell
    exact (Option.some.inj hcell).symm

theorem Stream.Carries.stalls (h : s.Carries p) (hjam : NewlineAtBase p.history) : s.cell 0 = newline := by
  refine (h.cell_zero_iff ?_).mpr hjam
  rintro hnil
  obtain ⟨q, -, hq⟩ := hjam
  rw [hnil] at hq
  cases hq

/-- Something is in it, and it is not jammed. -/
theorem Stream.Carries.flows (h : s.Carries p) (hclear : ¬ NewlineAtBase p.history) (hpos : 0 < s.count) :
    s.cell 0 ≠ newline := by
  intro hcell
  refine hclear ((h.cell_zero_iff ?_).mp hcell)
  intro hnil
  have hcount := h.count_eq
  rw [Pipe.waiting, hnil, List.drop_nil, List.length_nil] at hcount
  omega

/-! ## The calls -/

/-- The first bytes of a buffer. -/
theorem take_bytes (buf : Nat → UInt8) (n m : Nat) :
    ((List.range n).map buf).take m = (List.range (min m n)).map buf := by
  rw [← List.map_take, List.take_range]

theorem Stream.Carries.accepts_eq (h : s.Carries p) (buf : Nat → UInt8) (len : Int) :
    p.accepts streamBufSize ((List.range len.toNat).map buf) = (List.range (s.room len).toNat).map buf := by
  have hcount := h.count_eq
  have hle := h.ok.count_le
  rw [Pipe.accepts, take_bytes]
  congr 2
  unfold Stream.room
  omega

/-- **A write** puts as many bytes of its buffer into the pipe as there is room for. -/
theorem Stream.Carries.write (h : s.Carries p) (buf : Nat → UInt8) (len : Int) :
    (streamWrite s buf len).1.Carries (p.put (p.accepts streamBufSize ((List.range len.toNat).map buf))) := by
  obtain ⟨hok, hcontents⟩ := streamWrite_spec h.ok buf len
  rw [h.accepts_eq]
  refine ⟨hok, ?_, streamWrite_written h.ok h.written buf len, fun q hbase hq => ?_⟩
  · rw [hcontents, Pipe.waiting_put, h.contents]
  · rcases Nat.lt_or_ge q p.history.length with hold | hnew
    · rw [Pipe.history_put, List.getElem?_append_left hold] at hq
      exact h.kept q hbase hq
    · exact Nat.le_trans p.taken_le hnew

/-- **A read** gets its bytes out of the pipe: none when it is jammed, and otherwise some if there are some. -/
theorem Stream.Carries.read (h : s.Carries p) (len : Int) :
    Pipe.Step streamBufSize NewlineAtBase p (.get len.toNat (streamRead s len).2) (p.get (streamRead s len).2.length) ∧
      (streamRead s len).1.Carries (p.get (streamRead s len).2.length) := by
  obtain ⟨hok, hsplit, hroom⟩ := streamRead_spec h.ok len
  obtain ⟨hdata, hhead⟩ := streamReadLoop_frame len.toNat 0 s
  rw [h.contents] at hsplit
  have hle : (streamRead s len).2.length ≤ p.waiting.length := by
    rw [hsplit, List.length_append]
    exact Nat.le_add_right _ _
  have htake : p.waiting.take (streamRead s len).2.length = (streamRead s len).2 := by
    rw [hsplit]
    exact List.take_left
  have hjam : NewlineAtBase p.history → (streamRead s len).2.length = 0 := fun hjam => by
    rw [streamRead_stall (h.stalls hjam), List.length_nil]
  constructor
  · have hstep := @Pipe.Step.get _ streamBufSize NewlineAtBase p _ _ hroom hle hjam fun hclear hlen hpos =>
      List.length_pos_iff.mpr (streamRead_progress (h.flows hclear (by rw [h.count_eq]; omega))
        (by rw [h.count_eq]; omega) (by omega))
    rw [htake] at hstep
    exact hstep
  · refine ⟨hok, ?_, h.written.congr hdata hhead, fun q hbase hq => ?_⟩
    · rw [Pipe.waiting_get p hle, hsplit, List.drop_left]
    -- a read that got something out found no newline
    · have hnone := hjam ⟨q, hbase, hq⟩
      rw [hnone, Pipe.get_zero]
      exact h.kept q hbase hq

/-! ## Runs -/

/-- What was written to a stream in a run, as far as there was room. -/
theorem Stream.Carries.run (h : s.Carries p) {vis : List (Stream × StreamCall)} (hrun : Run StreamStep s vis t) :
    ∃ q, t.Carries q ∧ q.history = p.history ++ Fifo.accepted (asFifo vis) := by
  induction hrun generalizing p with
  | nil => exact ⟨p, h, (List.append_nil _).symm⟩
  | @cons s call t vis u hstep _ ih =>
      cases hstep with
      | write buf len =>
          obtain ⟨q, hq, hhistory⟩ := ih (h.write buf len)
          refine ⟨q, hq, hhistory.trans ?_⟩
          rw [Pipe.history_put, h.accepts_eq, List.append_assoc, ← streamWrite_ret h.ok buf len]
          rfl
      | read len =>
          obtain ⟨q, hq, hhistory⟩ := ih (h.read len).2
          exact ⟨q, hq, hhistory⟩

/-- A jammed stream delivers nothing in any run. -/
theorem Stream.Carries.run_jammed (h : s.Carries p) (hjam : NewlineAtBase p.history)
    {vis : List (Stream × StreamCall)} (hrun : Run StreamStep s vis t) : Fifo.delivered (asFifo vis) = [] := by
  induction hrun generalizing p with
  | nil => rfl
  | @cons s call t vis u hstep _ ih =>
      show call.event.delivered ++ Fifo.delivered (asFifo vis) = []
      cases hstep with
      | write buf len => exact ih (h.write buf len) (hjam.append _)
      | read len =>
          have hstall := streamRead_stall (h.stalls hjam) len
          have hrest := ih (h.read len).2 hjam
          rw [hrest, List.append_nil]
          exact congrArg Prod.snd hstall

/-- **When a stream is dead.** In every run of writes and reads from a stream whose pointers were just reset:
    while something is queued, nothing is delivered in any continuation exactly when a newline was written at
    a multiple of the size of the array. -/
theorem stream_dead_iff {s₀ : Stream} (hhead : s₀.head = 0) (htail : s₀.tail = 0) (hcount : s₀.count = 0)
    {vis : List (Stream × StreamCall)} (hrun : Run StreamStep s₀ vis s) (hpos : 0 < s.count) :
    NewlineAtBase (Fifo.accepted (asFifo vis)) ↔
      ∀ vis' u, Run StreamStep s vis' u → Fifo.delivered (asFifo vis') = [] := by
  obtain ⟨p, hp, hhistory⟩ := (carries_reset hhead htail hcount).run hrun
  have hwritten : p.history = Fifo.accepted (asFifo vis) := hhistory
  rw [← hwritten]
  constructor
  · intro hjam vis' u hrun'
    exact hp.run_jammed hjam hrun'
  · intro hdead
    by_contra hclear
    have hread := streamRead_progress (hp.flows hclear hpos) hpos Int.one_pos
    have hnil := hdead _ _ (.cons (.read s 1) .nil)
    exact hread ((List.append_nil _).symm.trans hnil)

theorem stream_dead_iff_newline : ∃ s vis, Run StreamStep emptyStream vis s ∧ s.count = 1 ∧
    ∀ vis' u, Run StreamStep s vis' u → Fifo.delivered (asFifo vis') = [] := by
  have hrun : Run StreamStep emptyStream _ _ := .cons (.write emptyStream (fun _ => newline) 1) .nil
  have hjam : NewlineAtBase (Fifo.accepted (asFifo
      [(emptyStream, StreamCall.write (fun _ => newline) 1 (streamWrite emptyStream (fun _ => newline) 1).2)])) :=
    ⟨0, rfl, by decide +kernel⟩
  exact ⟨_, _, hrun, by decide +kernel, (stream_dead_iff rfl rfl rfl hrun (by decide +kernel)).mp hjam⟩

end Drupe
