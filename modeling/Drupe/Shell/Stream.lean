import Drupe.Lib.Fifo

/-!
# `Shell.Stream` — the byte streams of the shell (`stream.c`)

A stream is a ring of `streamBufSize` bytes with a write pointer, a read pointer and a count, all three C
`int`s. `Stream.Ok` is what every call keeps of them, and `Stream.contents` the queue they stand for.

## Contents
- The functions of the source.
- One lemma per function on `contents`: `streamWrite_spec` and `streamRead_spec`.
- When a read stops without delivering anything (`streamRead_stall`), and when it does not.
-/

namespace Drupe

open Lib

/-- `STREAM_BUF_SIZE` -/
abbrev streamBufSize : Nat := 1024

/-- `basic_stream_t` -/
structure Stream where
  data : Vector UInt8 streamBufSize
  head : Int
  tail : Int
  count : Int
deriving DecidableEq

/-- A stream over zeroed memory. -/
def emptyStream : Stream := ⟨Vector.replicate streamBufSize 0, 0, 0, 0⟩

/-- `s->data[i]`. Every index a call uses is inside the array (`Stream.Ok`). -/
def Stream.cell (s : Stream) (i : Int) : UInt8 := s.data[i.toNat]?.getD 0

def newline : UInt8 := 10

/-- The body of the loop of `stream_write`, for the byte `b` of the buffer. -/
def Stream.put (s : Stream) (b : UInt8) : Stream :=
  { s with
    data := s.data.setIfInBounds s.head.toNat b
    head := (s.head + 1).tmod streamBufSize
    count := s.count + 1 }

/-- The part of the loop body of `stream_read` after the byte at `tail` is copied out. -/
def Stream.drop (s : Stream) : Stream :=
  { s with tail := (s.tail + 1).tmod streamBufSize, count := s.count - 1 }

/-- The loop of `stream_write`, with `fuel` bytes to go. -/
def streamWriteLoop (buf : Nat → UInt8) : (fuel written : Nat) → Stream → Stream
  | 0, _, s => s
  | fuel + 1, written, s => streamWriteLoop buf fuel (written + 1) (s.put (buf written))

/-- `buf` is the caller's memory from the buffer on. The loop runs `len` times, none when `len` is negative,
    and that number is returned. -/
def streamWrite (s : Stream) (buf : Nat → UInt8) (len : Int) : Stream × Int :=
  let len := if len > streamBufSize - s.count then streamBufSize - s.count else len
  (streamWriteLoop buf len.toNat 0 s, len.toNat)

/-- The loop of `stream_read`, with room for `fuel` more bytes. The bytes are those stored to `buf[read]`,
    `buf[read + 1]`, …; their number is what is added to `read`. -/
def streamReadLoop : (fuel read : Nat) → Stream → Stream × List UInt8
  | 0, _, s => (s, [])
  | fuel + 1, read, s =>
    if s.count > 0 then
      -- the test is on the cell `read` of the array, not on the cell that is read
      if s.cell read = newline then (s, [])
      else
        let r := streamReadLoop fuel (read + 1) s.drop
        (r.1, s.cell s.tail :: r.2)
    else (s, [])

/-- The stream, and the bytes stored in the buffer; `stream_read` returns their number. -/
def streamRead (s : Stream) (len : Int) : Stream × List UInt8 := streamReadLoop len.toNat 0 s

/-! ## The queue of a stream -/

/-- The pointers are inside the array and `head` is `count` cells past `tail`. -/
structure Stream.Ok (s : Stream) : Prop where
  tail_nonneg : 0 ≤ s.tail
  tail_lt : s.tail < streamBufSize
  count_nonneg : 0 ≤ s.count
  count_le : s.count ≤ streamBufSize
  head_eq : s.head = (s.tail + s.count) % streamBufSize

/-- The queued bytes, oldest first: the `count` cells from `tail` on, wrapping around. -/
def Stream.contents (s : Stream) : List UInt8 := ring s.data s.tail.toNat s.count.toNat

theorem Stream.Ok.contents_length {s : Stream} (h : s.Ok) : (s.contents.length : Int) = s.count := by
  rw [Stream.contents, ring_length]
  exact Int.toNat_of_nonneg h.count_nonneg

/-- A stream that just had all three pointers reset is empty. -/
theorem Stream.ok_of_reset {s : Stream} (hh : s.head = 0) (ht : s.tail = 0) (hc : s.count = 0) : s.Ok :=
  ⟨by rw [ht], by rw [ht]; decide, by rw [hc], by rw [hc]; decide, by rw [hh, ht, hc]; rfl⟩

theorem Stream.contents_of_count_zero {s : Stream} (hc : s.count = 0) : s.contents = [] := by
  rw [Stream.contents, hc]; rfl

/-- The C remainder of a pointer that is not negative. -/
theorem tmod_bufSize {i : Int} (h : 0 ≤ i) : i.tmod streamBufSize = i % streamBufSize :=
  Int.tmod_eq_emod_of_nonneg h

theorem Stream.Ok.head_nonneg {s : Stream} (h : s.Ok) : 0 ≤ s.head := by
  have := h.head_eq
  unfold streamBufSize at this
  omega

theorem Stream.Ok.put {s : Stream} (h : s.Ok) (hroom : s.count < streamBufSize) (b : UInt8) :
    (s.put b).Ok where
  tail_nonneg := h.tail_nonneg
  tail_lt := h.tail_lt
  count_nonneg := by
    have := h.count_nonneg
    show 0 ≤ s.count + 1
    omega
  count_le := by
    show s.count + 1 ≤ streamBufSize
    omega
  head_eq := by
    have hnn := h.head_nonneg
    show (s.head + 1).tmod streamBufSize = (s.tail + (s.count + 1)) % streamBufSize
    rw [tmod_bufSize (by omega), h.head_eq, Int.emod_add_emod, Int.add_assoc]

theorem Stream.Ok.contents_put {s : Stream} (h : s.Ok) (hroom : s.count < streamBufSize) (b : UInt8) :
    (s.put b).contents = s.contents ++ [b] := by
  obtain ⟨ht0, ht, hc0, hc, hhead⟩ := h
  have hcell : s.head.toNat = (s.tail.toNat + s.count.toNat) % streamBufSize := by
    unfold streamBufSize at *
    omega
  have hcount : (s.count + 1).toNat = s.count.toNat + 1 := by omega
  show ring (s.data.setIfInBounds s.head.toNat b) s.tail.toNat (s.count + 1).toNat = _
  rw [hcell, hcount]
  exact ring_put s.data b (by unfold streamBufSize at *; omega)

theorem Stream.Ok.drop {s : Stream} (h : s.Ok) (hpos : 0 < s.count) : s.drop.Ok := by
  obtain ⟨ht0, ht, hc0, hc, hhead⟩ := h
  have htail : s.drop.tail = (s.tail + 1) % streamBufSize := tmod_bufSize (by omega)
  refine ⟨?_, ?_, ?_, ?_, ?_⟩
  · rw [htail]; unfold streamBufSize; omega
  · rw [htail]; unfold streamBufSize; omega
  · show 0 ≤ s.count - 1
    omega
  · show s.count - 1 ≤ streamBufSize
    omega
  · show s.head = (s.drop.tail + (s.count - 1)) % streamBufSize
    rw [htail, hhead, Int.emod_add_emod]
    congr 1
    omega

theorem Stream.Ok.contents_drop {s : Stream} (h : s.Ok) (hpos : 0 < s.count) :
    s.contents = s.cell s.tail :: s.drop.contents := by
  obtain ⟨ht0, ht, hc0, hc, hhead⟩ := h
  have htail : s.drop.tail.toNat = (s.tail.toNat + 1) % streamBufSize := by
    show ((s.tail + 1).tmod streamBufSize).toNat = _
    rw [tmod_bufSize (by omega)]
    unfold streamBufSize
    omega
  have hcount : s.count.toNat = s.drop.count.toNat + 1 := by
    show s.count.toNat = (s.count - 1).toNat + 1
    omega
  have hlt : s.tail.toNat < streamBufSize := by omega
  have hcell : s.cell s.tail = s.data.get (Fin.ofNat streamBufSize s.tail.toNat) := by
    rw [Stream.cell, Vector.getElem?_eq_getElem hlt, Option.getD_some]
    have hfin : Fin.ofNat streamBufSize s.tail.toNat = ⟨s.tail.toNat, hlt⟩ :=
      Fin.ext (Nat.mod_eq_of_lt hlt)
    rw [hfin]
    rfl
  show ring s.data s.tail.toNat s.count.toNat = _ :: ring s.data s.drop.tail.toNat s.drop.count.toNat
  rw [hcell, htail, ring_mod, hcount, ring_get]

/-! ## `streamWrite` -/

/-- The number of bytes a write accepts. -/
def Stream.room (s : Stream) (len : Int) : Int := max 0 (min len (streamBufSize - s.count))

/-- The bytes of a buffer from index `written` on, first one first. -/
theorem bufBytes_succ (buf : Nat → UInt8) (fuel written : Nat) :
    (List.range (fuel + 1)).map (fun k => buf (written + k))
      = buf written :: (List.range fuel).map fun k => buf (written + 1 + k) := by
  rw [List.range_succ_eq_map, List.map_cons, List.map_map, Nat.add_zero]
  congr 1
  apply List.map_congr_left
  intro k _
  show buf (written + (k + 1)) = buf (written + 1 + k)
  rw [Nat.add_assoc, Nat.add_comm 1 k]

theorem streamWriteLoop_spec (buf : Nat → UInt8) {s : Stream} (h : s.Ok) (fuel written : Nat)
    (hroom : s.count + fuel ≤ streamBufSize) :
    (streamWriteLoop buf fuel written s).Ok ∧
    (streamWriteLoop buf fuel written s).contents
      = s.contents ++ (List.range fuel).map fun k => buf (written + k) := by
  induction fuel generalizing s written with
  | zero => exact ⟨h, by simp [streamWriteLoop]⟩
  | succ fuel ih =>
      have hlt : s.count < streamBufSize := by omega
      have hput := h.put hlt (buf written)
      have hroom' : (s.put (buf written)).count + fuel ≤ streamBufSize := by
        show s.count + 1 + fuel ≤ streamBufSize
        omega
      obtain ⟨hok, hcont⟩ := ih hput (written + 1) hroom'
      refine ⟨hok, ?_⟩
      rw [streamWriteLoop, hcont, h.contents_put hlt, bufBytes_succ, List.append_assoc,
        List.singleton_append]

theorem streamWrite_ret {s : Stream} (h : s.Ok) (buf : Nat → UInt8) (len : Int) :
    (streamWrite s buf len).2 = s.room len := by
  have := h.count_le
  unfold streamWrite Stream.room
  simp only
  split <;> omega

/-- **Write.** The first `room` bytes of the buffer go to the end of the queue. -/
theorem streamWrite_spec {s : Stream} (h : s.Ok) (buf : Nat → UInt8) (len : Int) :
    (streamWrite s buf len).1.Ok ∧
    (streamWrite s buf len).1.contents
      = s.contents ++ (List.range (s.room len).toNat).map buf := by
  have hret := streamWrite_ret h buf len
  have hle := h.count_le
  have hroom : s.count + ((streamWrite s buf len).2.toNat : Int) ≤ streamBufSize := by
    rw [hret, Stream.room]
    omega
  have hspec := streamWriteLoop_spec buf h _ 0 hroom
  simp only [Nat.zero_add] at hspec
  rw [← hret]
  exact hspec

/-- A write reads only the bytes it accepts. -/
theorem streamWriteLoop_congr {buf buf' : Nat → UInt8} {fuel written : Nat}
    (h : ∀ k < fuel, buf (written + k) = buf' (written + k)) (s : Stream) :
    streamWriteLoop buf fuel written s = streamWriteLoop buf' fuel written s := by
  induction fuel generalizing written s with
  | zero => rfl
  | succ fuel ih =>
      have hrest : ∀ k < fuel, buf (written + 1 + k) = buf' (written + 1 + k) := by
        intro k hk
        rw [Nat.add_assoc, Nat.add_comm 1 k]
        exact h (k + 1) (Nat.succ_lt_succ hk)
      have hfirst : buf written = buf' written := h 0 (Nat.succ_pos fuel)
      rw [streamWriteLoop, streamWriteLoop, hfirst, ih hrest]

theorem streamWrite_congr {buf buf' : Nat → UInt8} {s : Stream} {len : Int}
    (h : ∀ k < (streamWrite s buf len).2.toNat, buf k = buf' k) :
    streamWrite s buf len = streamWrite s buf' len :=
  Prod.ext (streamWriteLoop_congr (fun k hk => by rw [Nat.zero_add]; exact h k hk) s) rfl

/-- No more bytes than there are in the buffer. -/
theorem streamWrite_le (s : Stream) (buf : Nat → UInt8) (len : Int) :
    (streamWrite s buf len).2.toNat ≤ len.toNat := by
  unfold streamWrite
  simp only
  split <;> omega

/-! ## `streamRead` -/

/-- No more bytes than there is room for. -/
theorem streamReadLoop_length (fuel read : Nat) (s : Stream) :
    (streamReadLoop fuel read s).2.length ≤ fuel := by
  induction fuel generalizing read s with
  | zero => exact Nat.le_refl 0
  | succ fuel ih =>
      rw [streamReadLoop]
      split
      · split
        · exact Nat.zero_le _
        · exact Nat.succ_le_succ (ih (read + 1) s.drop)
      · exact Nat.zero_le _

theorem streamReadLoop_spec {s : Stream} (h : s.Ok) (fuel read : Nat) :
    (streamReadLoop fuel read s).1.Ok ∧
    s.contents = (streamReadLoop fuel read s).2 ++ (streamReadLoop fuel read s).1.contents := by
  induction fuel generalizing read s with
  | zero => exact ⟨h, rfl⟩
  | succ fuel ih =>
      rw [streamReadLoop]
      by_cases hpos : s.count > 0
      · rw [if_pos hpos]
        by_cases hcell : s.cell read = newline
        · rw [if_pos hcell]
          exact ⟨h, rfl⟩
        · rw [if_neg hcell]
          obtain ⟨hok, hcont⟩ := ih (h.drop hpos) (read + 1)
          refine ⟨hok, ?_⟩
          rw [h.contents_drop hpos, hcont]
          rfl
      · rw [if_neg hpos]
        exact ⟨h, rfl⟩

/-- **Read.** What is delivered is a prefix of the queue and leaves it, no more than was asked for. A read
    that ends early leaves the rest in the queue. -/
theorem streamRead_spec {s : Stream} (h : s.Ok) (len : Int) :
    (streamRead s len).1.Ok ∧
    s.contents = (streamRead s len).2 ++ (streamRead s len).1.contents ∧
    (streamRead s len).2.length ≤ len.toNat := by
  obtain ⟨hok, hcont⟩ := streamReadLoop_spec h len.toNat 0
  exact ⟨hok, hcont, streamReadLoop_length len.toNat 0 s⟩

/-- A read moves `tail` and `count` only. -/
theorem streamReadLoop_frame (fuel read : Nat) (s : Stream) :
    (streamReadLoop fuel read s).1.data = s.data ∧ (streamReadLoop fuel read s).1.head = s.head := by
  induction fuel generalizing read s with
  | zero => exact ⟨rfl, rfl⟩
  | succ fuel ih =>
      rw [streamReadLoop]
      split
      · split
        · exact ⟨rfl, rfl⟩
        · exact ih (read + 1) s.drop
      · exact ⟨rfl, rfl⟩

/-- A read takes as many bytes off the count as it delivers. -/
theorem streamReadLoop_count (fuel read : Nat) (s : Stream) :
    (streamReadLoop fuel read s).1.count = s.count - (streamReadLoop fuel read s).2.length := by
  induction fuel generalizing read s with
  | zero => simp [streamReadLoop]
  | succ fuel ih =>
      rw [streamReadLoop]
      split
      · split
        · simp
        · show (streamReadLoop fuel (read + 1) s.drop).1.count
            = s.count - ((streamReadLoop fuel (read + 1) s.drop).2.length + 1 : Nat)
          rw [ih]
          show s.count - 1 - _ = _
          omega
      · simp

theorem streamRead_count_lt {s : Stream} {len : Int} (h : (streamRead s len).2 ≠ []) :
    (streamRead s len).1.count < s.count := by
  have hcount := streamReadLoop_count len.toNat 0 s
  have hpos := List.length_pos_iff.mpr h
  unfold streamRead at hpos ⊢
  omega

/-- A read that delivers nothing changes nothing. -/
theorem streamRead_of_nil {s : Stream} {len : Int} (h : (streamRead s len).2 = []) :
    streamRead s len = (s, []) := by
  unfold streamRead at h ⊢
  cases hfuel : len.toNat with
  | zero => rfl
  | succ fuel =>
      rw [hfuel, streamReadLoop] at h
      rw [streamReadLoop]
      split
      · rename_i hpos
        rw [if_pos hpos] at h
        split
        · rfl
        · rename_i hcell
          rw [if_neg hcell] at h
          exact absurd h (List.cons_ne_nil _ _)
      · rfl

/-- **Stall.** A read answers 0 bytes, and changes nothing, when the first cell of the array is a newline,
    queued or not. -/
theorem streamRead_stall {s : Stream} (hcell : s.cell 0 = newline) (len : Int) :
    streamRead s len = (s, []) := by
  unfold streamRead
  cases len.toNat with
  | zero => rfl
  | succ fuel =>
      rw [streamReadLoop]
      split
      · exact if_pos hcell
      · rfl

theorem streamRead_empty {s : Stream} (hcount : s.count ≤ 0) (len : Int) : streamRead s len = (s, []) := by
  unfold streamRead
  cases len.toNat with
  | zero => rfl
  | succ fuel => rw [streamReadLoop, if_neg (by omega)]

/-- **Progress.** With another byte in the first cell, a read of a queue that is not empty delivers. -/
theorem streamRead_progress {s : Stream} (hcell : s.cell 0 ≠ newline) (hcount : 0 < s.count) {len : Int}
    (hlen : 0 < len) : (streamRead s len).2 ≠ [] := by
  obtain ⟨fuel, hfuel⟩ : ∃ fuel, len.toNat = fuel + 1 := ⟨len.toNat - 1, by omega⟩
  unfold streamRead
  rw [hfuel, streamReadLoop, if_pos hcount]
  show (if s.cell 0 = newline then _ else _ : Stream × List UInt8).2 ≠ []
  rw [if_neg hcell]
  exact List.cons_ne_nil _ _

/-! ## The history of a stream -/

/-- The array holds the last `streamBufSize` bytes of `w`, all that was ever written: byte `p` of the history
    in cell `p % streamBufSize`. -/
structure Stream.Written (s : Stream) (w : List UInt8) : Prop where
  head_eq : s.head = (w.length : Int) % streamBufSize
  cell_eq : ∀ p, p < w.length → w.length ≤ p + streamBufSize →
    w[p]? = some (s.cell ((p % streamBufSize : Nat) : Int))

theorem Stream.written_nil {s : Stream} (hh : s.head = 0) : s.Written [] where
  head_eq := by rw [hh]; rfl
  cell_eq := fun p hp => absurd hp (by simp)

/-- Reads only move `tail` and `count`. -/
theorem Stream.Written.congr {s t : Stream} {w : List UInt8} (h : s.Written w) (hdata : t.data = s.data)
    (hhead : t.head = s.head) : t.Written w where
  head_eq := by rw [hhead]; exact h.head_eq
  cell_eq := by
    unfold Stream.cell
    rw [hdata]
    exact h.cell_eq

theorem Stream.cell_put (s : Stream) (b : UInt8) {i : Nat} (hi : i < streamBufSize) :
    (s.put b).cell i = if s.head.toNat = i then b else s.cell i := by
  have hset : (s.data.setIfInBounds s.head.toNat b)[i]? =
      some (if s.head.toNat = i then b else s.data[i]) := by
    rw [Vector.getElem?_eq_getElem hi, Vector.getElem_setIfInBounds hi]
  have hold : s.data[i]? = some s.data[i] := Vector.getElem?_eq_getElem hi
  show ((s.data.setIfInBounds s.head.toNat b)[i]?).getD 0 = if _ then b else (s.data[i]?).getD 0
  rw [hset, hold, Option.getD_some, Option.getD_some]

theorem Stream.Written.put {s : Stream} {w : List UInt8} (h : s.Written w) (b : UInt8) :
    (s.put b).Written (w ++ [b]) := by
  have hhead : s.head.toNat = w.length % streamBufSize := by
    have := h.head_eq
    unfold streamBufSize at *
    omega
  have hnn : 0 ≤ s.head := by
    have := h.head_eq
    unfold streamBufSize at this
    omega
  refine ⟨?_, ?_⟩
  · show (s.head + 1).tmod streamBufSize = _
    rw [tmod_bufSize (by omega), h.head_eq, Int.emod_add_emod, List.length_append,
      List.length_singleton, Int.natCast_add]
    rfl
  · intro p hp hlast
    rw [List.length_append, List.length_singleton] at hp hlast
    rw [Stream.cell_put s b (Nat.mod_lt p (by decide)), hhead]
    rcases Nat.eq_or_lt_of_le (Nat.le_of_lt_succ hp) with rfl | hlt
    · rw [if_pos rfl, List.getElem?_concat_length]
    -- an older byte: less than `streamBufSize` before the new one, so in another cell
    · have hne : ¬ w.length % streamBufSize = p % streamBufSize := by
        unfold streamBufSize at *
        omega
      rw [if_neg hne, List.getElem?_append_left hlt]
      exact h.cell_eq p hlt (by omega)

theorem streamWriteLoop_written (buf : Nat → UInt8) {s : Stream} {w : List UInt8} (h : s.Written w)
    (fuel written : Nat) :
    (streamWriteLoop buf fuel written s).Written
      (w ++ (List.range fuel).map fun k => buf (written + k)) := by
  induction fuel generalizing written s w with
  | zero => simpa [streamWriteLoop] using h
  | succ fuel ih =>
      have hnext := ih (h.put (buf written)) (written + 1)
      rw [List.append_assoc, List.singleton_append, ← bufBytes_succ] at hnext
      exact hnext

theorem streamWrite_written {s : Stream} (hok : s.Ok) {w : List UInt8} (h : s.Written w)
    (buf : Nat → UInt8) (len : Int) :
    (streamWrite s buf len).1.Written (w ++ (List.range (s.room len).toNat).map buf) := by
  have hret := streamWrite_ret hok buf len
  have hloop := streamWriteLoop_written buf h ((streamWrite s buf len).2.toNat) 0
  simp only [Nat.zero_add] at hloop
  rw [← hret]
  exact hloop

/-- A byte of the history that is written to the first cell of the array is a newline. -/
def NewlineAtBase (w : List UInt8) : Prop := ∃ p, p % streamBufSize = 0 ∧ w[p]? = some newline

theorem NewlineAtBase.append {w : List UInt8} (h : NewlineAtBase w) (more : List UInt8) :
    NewlineAtBase (w ++ more) := by
  obtain ⟨p, hp, hbyte⟩ := h
  have hlt : p < w.length := (List.getElem?_eq_some_iff.mp hbyte).1
  exact ⟨p, hp, by rw [List.getElem?_append_left hlt]; exact hbyte⟩

/-- **What the first cell tells.** After a write of at most `streamBufSize` bytes to a history without a
    newline at the base, the first cell is a newline exactly when the new bytes brought one there. -/
theorem Stream.Written.cell_zero_iff {s : Stream} {w new : List UInt8} (h : s.Written (w ++ new))
    (hold : ¬ NewlineAtBase w) (hnew : new ≠ []) (hlen : new.length ≤ streamBufSize) :
    s.cell 0 = newline ↔ NewlineAtBase (w ++ new) := by
  have hpos : 0 < new.length := List.length_pos_iff.mpr hnew
  have hlength : (w ++ new).length = w.length + new.length := List.length_append
  -- `q` is the last byte written to the first cell
  obtain ⟨q, hq0, hq, hlast⟩ : ∃ q, q % streamBufSize = 0 ∧ q < (w ++ new).length ∧
      (w ++ new).length ≤ q + streamBufSize := by
    refine ⟨((w ++ new).length - 1) / streamBufSize * streamBufSize, ?_, ?_, ?_⟩ <;>
      unfold streamBufSize <;> omega
  have hcell := h.cell_eq q hq hlast
  rw [hq0] at hcell
  constructor
  · intro hnl
    exact ⟨q, hq0, by rw [hcell]; exact congrArg some hnl⟩
  · rintro ⟨p, hp0, hp⟩
    have hplt : p < (w ++ new).length := (List.getElem?_eq_some_iff.mp hp).1
    rcases Nat.lt_or_ge p w.length with hin | hout
    · rw [List.getElem?_append_left hin] at hp
      exact absurd ⟨p, hp0, hp⟩ hold
    -- two multiples of `streamBufSize` in the last `streamBufSize` positions are one
    · have hpq : p = q := by
        unfold streamBufSize at *
        omega
      rw [hpq, hcell] at hp
      exact Option.some.inj hp

end Drupe
