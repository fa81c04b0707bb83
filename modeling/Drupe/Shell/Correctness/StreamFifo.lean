import Drupe.Shell.Stream

/-!
# `Shell.Correctness.StreamFifo` — a stream is a FIFO queue

Any order of writes and reads of a stream is, on its `contents`, a run of a queue of capacity
`streamBufSize`. The newline test of `stream_read` can only end a read early, so it takes nothing from the
order or the completeness of what is delivered.
-/

namespace Drupe

open Lib

/-- A call of the stream, with what it answered: the number a write returned, the bytes a read stored. -/
inductive StreamCall
  | write (buf : Nat → UInt8) (len ret : Int)
  | read (len : Int) (bytes : List UInt8)

inductive StreamStep : Stream → StreamCall → Stream → Prop
  | write (s : Stream) (buf : Nat → UInt8) (len : Int) :
      StreamStep s (.write buf len (streamWrite s buf len).2) (streamWrite s buf len).1
  | read (s : Stream) (len : Int) : StreamStep s (.read len (streamRead s len).2) (streamRead s len).1

/-- A call as a transfer of the queue: a write puts in as many bytes of its buffer as it returns, a read
    gets out the bytes it stores. -/
def StreamCall.event : StreamCall → Fifo.Event UInt8
  | .write buf _ ret => .put ((List.range ret.toNat).map buf)
  | .read _ bytes => .get bytes

/-- A run of the stream, seen as a run of the queue. -/
def asFifo (vis : List (Stream × StreamCall)) : List (List UInt8 × Fifo.Event UInt8) :=
  vis.map fun x => (x.1.contents, x.2.event)

/-- Every call keeps the pointers in order. -/
theorem StreamStep.ok {s t : Stream} {call : StreamCall} (h : s.Ok) (hstep : StreamStep s call t) :
    t.Ok := by
  cases hstep with
  | write buf len => exact (streamWrite_spec h buf len).1
  | read len => exact (streamRead_spec h len).1

/-- **One call** is one transfer of the queue. -/
theorem StreamStep.fifo {s t : Stream} {call : StreamCall} (h : s.Ok) (hstep : StreamStep s call t) :
    Fifo.Step streamBufSize s.contents call.event t.contents := by
  have ht := hstep.ok h
  cases hstep with
  | write buf len =>
      have hcont := (streamWrite_spec h buf len).2
      have hcap := ht.contents_length
      have hle := ht.count_le
      rw [hcont] at hcap ⊢
      rw [← streamWrite_ret h buf len] at hcap ⊢
      exact .put (by omega)
  | read len =>
      have hcont := (streamRead_spec h len).2.1
      rw [hcont]
      exact .get

/-- What the calls of a run return: a write the number of bytes that fit, a read at most what was asked. -/
def StreamCall.Returns (s : Stream) : StreamCall → Prop
  | .write _ len ret => ret = max 0 (min len (streamBufSize - s.contents.length))
  | .read len bytes => bytes.length ≤ len.toNat

theorem StreamStep.returns {s t : Stream} {call : StreamCall} (h : s.Ok) (hstep : StreamStep s call t) :
    call.Returns s := by
  cases hstep with
  | write buf len =>
      show (streamWrite s buf len).2 = _
      rw [streamWrite_ret h, Stream.room, h.contents_length]
  | read len => exact (streamRead_spec h len).2.2

/-- **A stream refines a FIFO queue of capacity 1024.** In every run from a stream whose pointers were just
    reset, over any data: the run is a run of the queue; writes return what they append; what reads
    delivered is a prefix of what writes accepted; and the rest is what the stream still holds. -/
theorem stream_refines_fifo {s₀ s : Stream} (hhead : s₀.head = 0) (htail : s₀.tail = 0)
    (hcount : s₀.count = 0) {vis : List (Stream × StreamCall)} (hrun : Run StreamStep s₀ vis s) :
    Run (Fifo.Step streamBufSize) [] (asFifo vis) s.contents ∧
    (∀ x ∈ vis, x.2.Returns x.1) ∧
    Fifo.delivered (asFifo vis) <+: Fifo.accepted (asFifo vis) ∧
    Fifo.accepted (asFifo vis) = Fifo.delivered (asFifo vis) ++ s.contents ∧
    (s.contents.length : Int) = s.count := by
  have hok : s₀.Ok := Stream.ok_of_reset hhead htail hcount
  have hstep : ∀ ⦃s call t⦄, s.Ok → StreamStep s call t → t.Ok := fun _ _ _ h hs => hs.ok h
  have hfifo := hrun.refines (f := Stream.contents) (g := StreamCall.event) hstep
    (fun _ _ _ h hs => hs.fifo h) hok
  rw [Stream.contents_of_count_zero hcount] at hfifo
  have hlaw := Fifo.conservation hfifo
  refine ⟨hfifo, ?_, ⟨s.contents, hlaw.symm⟩, hlaw, (hrun.invariant hstep hok).contents_length⟩
  intro x hx
  obtain ⟨hxok, t, ht⟩ := hrun.visited_invariant hstep hok x hx
  exact ht.returns hxok

theorem stream_refines_fifo_ab : ∃ vis s, Run StreamStep emptyStream vis s ∧ vis.length = 2 ∧
    Fifo.accepted (asFifo vis) = Fifo.delivered (asFifo vis) ++ s.contents := by
  have hrun : Run StreamStep emptyStream _ _ :=
    .cons (.write emptyStream (fun k => if k = 0 then 97 else 98) 2) (.cons (.read _ 1) .nil)
  exact ⟨_, _, hrun, rfl, (stream_refines_fifo rfl rfl rfl hrun).2.2.2.1⟩

end Drupe
