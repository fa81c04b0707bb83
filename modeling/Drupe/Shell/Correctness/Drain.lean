import Drupe.Shell.Shell

/-!
# `Shell.Correctness.Drain` — when an output call shows all its bytes

`shRender` empties a stream through `streamRead`, which ends at once when the *first cell of the array* is a
newline. So a stream is drained exactly when that cell holds another byte. The first cell is written once in
`streamBufSize` bytes, so the console goes dead when a newline is the byte whose turn it is, and never
otherwise (`calls_deliver_iff`).

## Contents
- The drain loop: it comes to an end (`drainAll_done`); it leaves the other streams alone; it empties a
  flowing stream (`drainAll_flowing`) and does nothing to a stalled one (`drainAll_stalled`).
- One call, from a shell whose output streams are empty: `call_flowing`, `call_stalled`.
- Any list of calls after `shInit`.
-/

namespace Drupe

/-! ## The drain loop -/

theorem drain_done {i : Fin streamCount} {fuel : Nat} {sh : Shell}
    (hfuel : (sh.stream i).count < fuel) :
    (streamRead ((drain i fuel sh).stream i) renderBufSize).2 = [] := by
  induction fuel generalizing sh with
  | zero => rw [streamRead_empty (by show (sh.stream i).count ≤ 0; omega)]
  | succ fuel ih =>
      rw [drain]
      by_cases hnil : (streamRead (sh.stream i) renderBufSize).2 = []
      -- nothing was delivered, so nothing changed and the next read does the same
      · simp only [if_pos hnil, Shell.stream_afterRead]
        rw [streamRead_of_nil hnil]
        exact hnil
      · simp only [if_neg hnil]
        apply ih
        rw [Shell.stream_afterRead]
        have := streamRead_count_lt hnil
        omega

/-- **The loop ends by its own test**, in every state of the streams: one more read answers 0 bytes. -/
theorem drainAll_done (i : Fin streamCount) (sh : Shell) :
    (streamRead ((drainAll i sh).stream i) renderBufSize).2 = [] :=
  drain_done (by omega)

theorem drain_frame {i j : Fin streamCount} (hne : i ≠ j) (fuel : Nat) (sh : Shell) :
    (drain i fuel sh).stream j = sh.stream j := by
  induction fuel generalizing sh with
  | zero => rfl
  | succ fuel ih =>
      have hround := sh.stream_afterRead_ne hne (streamRead (sh.stream i) renderBufSize).1
        (streamRead (sh.stream i) renderBufSize).2
      rw [drain]
      split
      · exact hround
      · rw [ih]
        exact hround

/-- A stream that reads do not stall on: it is empty, or its first cell is not a newline. -/
def Stream.Flows (s : Stream) : Prop := s.count = 0 ∨ s.cell 0 ≠ newline

/-- The stream with all its bytes read. -/
def Stream.emptied (s : Stream) : Stream := { s with tail := s.head, count := 0 }

theorem Stream.Ok.emptied_eq {s : Stream} (h : s.Ok) (hcount : s.count = 0) : s.emptied = s := by
  obtain ⟨ht0, ht, -, -, hhead⟩ := h
  have htail : s.head = s.tail := by
    unfold streamBufSize at *
    omega
  cases s
  simp only [Stream.emptied, Stream.mk.injEq, true_and]
  exact ⟨htail, hcount.symm⟩

theorem Stream.Ok.emptied {s : Stream} (h : s.Ok) : s.emptied.Ok := by
  have hnn := h.head_nonneg
  have hhead := h.head_eq
  have hlt : s.head < streamBufSize := by
    unfold streamBufSize at *
    omega
  refine ⟨hnn, hlt, Int.le_refl 0, Int.natCast_nonneg _, ?_⟩
  show s.head = (s.head + 0) % streamBufSize
  rw [Int.add_zero, Int.emod_eq_of_lt hnn hlt]

/-- What one round of the loop leaves of a flowing stream. -/
theorem streamRead_flowing {s : Stream} (hok : s.Ok) (hflow : s.Flows) :
    (s.count = 0 ∧ streamRead s renderBufSize = (s, [])) ∨
    (0 < s.count ∧ 0 < (streamRead s renderBufSize).2.length ∧
      (streamRead s renderBufSize).1.Flows ∧
      (streamRead s renderBufSize).1.emptied = s.emptied ∧
      (streamRead s renderBufSize).1.count = s.count - (streamRead s renderBufSize).2.length) := by
  have hnn := hok.count_nonneg
  rcases Int.lt_or_eq_of_le hnn with hpos | hzero
  · have hcell : s.cell 0 ≠ newline := by
      rcases hflow with hzero | hcell
      · omega
      · exact hcell
    obtain ⟨hdata, hhead⟩ := streamReadLoop_frame renderBufSize.toNat 0 s
    refine .inr ⟨hpos, List.length_pos_iff.mpr (streamRead_progress hcell hpos (by decide)), ?_, ?_,
      streamReadLoop_count _ 0 s⟩
    · right
      unfold Stream.cell streamRead
      rw [hdata]
      exact hcell
    · unfold Stream.emptied streamRead
      rw [hdata, hhead]
  · exact .inl ⟨hzero.symm, streamRead_empty (by omega) renderBufSize⟩

theorem drain_flowing {i : Fin streamCount} {fuel : Nat} {sh : Shell} (hok : (sh.stream i).Ok)
    (hflow : (sh.stream i).Flows) (hfuel : (sh.stream i).count < fuel) :
    drain i fuel sh = sh.afterRead i (sh.stream i).emptied (sh.stream i).contents := by
  induction fuel generalizing sh with
  | zero =>
      have := hok.count_nonneg
      omega
  | succ fuel ih =>
      rw [drain]
      rcases streamRead_flowing hok hflow with ⟨hzero, hread⟩ | ⟨-, hlen, hflow', hempt, hcount⟩
      · simp only [hread, if_true]
        rw [Stream.contents_of_count_zero hzero, hok.emptied_eq hzero]
      · obtain ⟨hrok, hcont, -⟩ := streamRead_spec hok renderBufSize
        simp only [if_neg (List.length_pos_iff.mp hlen)]
        rw [ih]
        · rw [Shell.stream_afterRead, Shell.afterRead_afterRead, hempt, hcont]
        · rw [Shell.stream_afterRead]
          exact hrok
        · rw [Shell.stream_afterRead]
          exact hflow'
        · rw [Shell.stream_afterRead]
          omega

/-- **A flowing stream is drained**, and all its bytes are shown in the order they were queued. -/
theorem drainAll_flowing {i : Fin streamCount} {sh : Shell} (hok : (sh.stream i).Ok)
    (hflow : (sh.stream i).Flows) :
    drainAll i sh = sh.afterRead i (sh.stream i).emptied (sh.stream i).contents :=
  drain_flowing hok hflow (by omega)

/-- **A stalled stream** keeps all its bytes, and nothing is shown. -/
theorem drainAll_stalled {i : Fin streamCount} {sh : Shell} (hcell : (sh.stream i).cell 0 = newline) :
    drainAll i sh = sh := by
  unfold drainAll
  rw [drain, streamRead_stall hcell]
  simp

/-! ## One call -/

/-- The two streams that `shRender` drains. -/
inductive Output
  | stdout
  | stderr
deriving DecidableEq

def Output.index : Output → Fin streamCount
  | stdout => streamStdout
  | stderr => streamStderr

/-- The colour the bytes of a stream are shown in. -/
def Output.color : Output → UInt8
  | stdout => 0x07
  | stderr => 0x04

theorem Output.index_ne {o o' : Output} (h : o ≠ o') : o.index ≠ o'.index := by
  cases o <;> cases o' <;> first | exact absurd rfl h | decide

theorem Output.index_ne_stdin (o : Output) : o.index ≠ streamStdin := by cases o <;> decide

/-- The stream that is not drained is stdin. -/
theorem stdin_of_not_output {i : Fin streamCount} (h : ∀ o : Output, o.index ≠ i) : i = streamStdin := by
  have hall : ∀ j : Fin streamCount, streamStdout ≠ j → streamStderr ≠ j → j = streamStdin := by decide
  exact hall i (h .stdout) (h .stderr)

/-- A call of `sh_write_stdout` or `sh_write_stderr`. -/
structure ConsoleCall where
  target : Output
  buf : Nat → UInt8
  len : Int

def ConsoleCall.perform (c : ConsoleCall) (sh : Shell) : Shell × Int :=
  match c.target with
  | .stdout => shWriteStdout sh c.buf c.len
  | .stderr => shWriteStderr sh c.buf c.len

/-- The bytes a call passes. -/
def ConsoleCall.bytes (c : ConsoleCall) : List UInt8 := (List.range c.len.toNat).map c.buf

/-- **What an output call owes**: every byte is accepted, both output streams are empty when it returns, and
    the screen, its colour aside, is what the bytes make of it, shown in order. -/
structure Delivers (sh : Shell) (c : ConsoleCall) : Prop where
  accepted : (c.perform sh).2 = c.bytes.length
  drained : ∀ o : Output, ((c.perform sh).1.stream o.index).count = 0
  shown : (c.perform sh).1.screen =
    { renderBytes (sh.setColor c.target.color).screen c.bytes with
      color := (c.perform sh).1.screen.color }

/-- The stream of a call after its `stream_write`. -/
def ConsoleCall.queued (c : ConsoleCall) (sh : Shell) : Stream :=
  (streamWrite (sh.stream c.target.index) c.buf c.len).1

theorem ConsoleCall.perform_eq (c : ConsoleCall) (sh : Shell) :
    c.perform sh = (shRender ((sh.setColor 0x07).setStream c.target.index (c.queued sh)),
      (streamWrite (sh.stream c.target.index) c.buf c.len).2) := by
  unfold ConsoleCall.perform ConsoleCall.queued
  cases c.target <;> rfl

/-- Both output streams are in order and empty. -/
def Shell.Idle (sh : Shell) : Prop := ∀ o : Output, (sh.stream o.index).Ok ∧ (sh.stream o.index).count = 0

/-- A stalled output stream is as it was when `shRender` returns. -/
theorem shRender_stalled {sh : Shell} {o : Output} (hcell : (sh.stream o.index).cell 0 = newline) :
    (shRender sh).stream o.index = sh.stream o.index := by
  unfold shRender
  simp only [Shell.stream_setColor]
  cases o with
  | stdout =>
      -- the second loop leaves stdout alone, and the first one stalls
      rw [drainAll, drain_frame (show streamStderr ≠ Output.stdout.index by decide)]
      have hfirst : drainAll streamStdout sh = sh := drainAll_stalled hcell
      rw [Shell.stream_setColor, hfirst]
  | stderr =>
      have hfirst : (drainAll streamStdout sh).stream streamStderr = sh.stream streamStderr :=
        drain_frame (by decide) _ sh
      rw [Output.index, drainAll_stalled]
      · exact hfirst
      · rw [Shell.stream_setColor, hfirst]
        exact hcell

/-- Flowing output streams are drained, stdout first. -/
theorem shRender_flowing {sh : Shell} (hok : ∀ o : Output, (sh.stream o.index).Ok)
    (hflow : ∀ o : Output, (sh.stream o.index).Flows) :
    shRender sh =
      (((sh.afterRead streamStdout (sh.stream streamStdout).emptied
          (sh.stream streamStdout).contents).setColor 0x04).afterRead streamStderr
        (sh.stream streamStderr).emptied (sh.stream streamStderr).contents).setColor
      (renderBytes sh.screen (sh.stream streamStdout).contents).color := by
  have hne : streamStdout ≠ streamStderr := by decide
  have hout := drainAll_flowing (hok .stdout) (hflow .stdout)
  have hsecond : ((drainAll streamStdout sh).setColor 0x04).stream streamStderr
      = sh.stream streamStderr := drain_frame hne _ sh
  have herr := @drainAll_flowing streamStderr ((drainAll streamStdout sh).setColor 0x04)
    (by rw [hsecond]; exact hok .stderr) (by rw [hsecond]; exact hflow .stderr)
  rw [hsecond] at herr
  unfold shRender
  simp only
  rw [herr, show drainAll streamStdout sh = _ from hout]
  rfl

/-- What `stream_write` leaves in the stream of a call, on an idle shell. -/
theorem ConsoleCall.queued_spec {c : ConsoleCall} {sh : Shell} (hidle : sh.Idle)
    (hlen : c.len ≤ streamBufSize) :
    (c.queued sh).Ok ∧ (c.queued sh).contents = c.bytes ∧
      (streamWrite (sh.stream c.target.index) c.buf c.len).2 = c.bytes.length := by
  obtain ⟨hok, hcount⟩ := hidle c.target
  have hroom : ((sh.stream c.target.index).room c.len).toNat = c.len.toNat := by
    unfold Stream.room
    rw [hcount]
    omega
  obtain ⟨hqok, hqcont⟩ := streamWrite_spec hok c.buf c.len
  rw [Stream.contents_of_count_zero hcount, hroom] at hqcont
  refine ⟨hqok, hqcont, ?_⟩
  rw [streamWrite_ret hok, ConsoleCall.bytes, List.length_map, List.length_range, Stream.room, hcount]
  omega

/-- The streams after `shRender`, when both flow. -/
theorem shRender_stream {sh : Shell} (hok : ∀ o : Output, (sh.stream o.index).Ok)
    (hflow : ∀ o : Output, (sh.stream o.index).Flows) (o : Output) :
    (shRender sh).stream o.index = (sh.stream o.index).emptied := by
  rw [shRender_flowing hok hflow, Shell.stream_setColor]
  cases o with
  | stdout =>
      rw [Shell.stream_afterRead_ne _ (show streamStderr ≠ Output.stdout.index by decide),
        Shell.stream_setColor]
      exact Shell.stream_afterRead _ _ _ _
  | stderr => exact Shell.stream_afterRead _ _ _ _

/-- The shell of a call when `shRender` is entered. -/
def ConsoleCall.staged (c : ConsoleCall) (sh : Shell) : Shell :=
  (sh.setColor 0x07).setStream c.target.index (c.queued sh)

theorem ConsoleCall.stream_staged (c : ConsoleCall) (sh : Shell) (o : Output) :
    (c.staged sh).stream o.index = if c.target = o then c.queued sh else sh.stream o.index := by
  unfold ConsoleCall.staged
  by_cases h : c.target = o
  · rw [if_pos h, ← h, Shell.stream_setStream]
  · rw [if_neg h, Shell.stream_setStream_ne _ (Output.index_ne h), Shell.stream_setColor]

/-- **A call whose stream flows** delivers, and leaves the shell idle: the stream it wrote is emptied, the
    other one is as it was. -/
theorem call_flowing {c : ConsoleCall} {sh : Shell} (hidle : sh.Idle) (hlen : c.len ≤ streamBufSize)
    (hflow : (c.queued sh).Flows) :
    Delivers sh c ∧ ∀ o : Output, (c.perform sh).1.stream o.index
      = if c.target = o then (c.queued sh).emptied else sh.stream o.index := by
  obtain ⟨hqok, hqcont, hret⟩ := ConsoleCall.queued_spec hidle hlen
  have hok : ∀ o : Output, ((c.staged sh).stream o.index).Ok := by
    intro o
    rw [c.stream_staged]
    split
    · exact hqok
    · exact (hidle o).1
  have hflows : ∀ o : Output, ((c.staged sh).stream o.index).Flows := by
    intro o
    rw [c.stream_staged]
    split
    · exact hflow
    · exact .inl (hidle o).2
  have hperform : c.perform sh = (shRender (c.staged sh), _) := c.perform_eq sh
  have hafter : ∀ o : Output, (c.perform sh).1.stream o.index
      = if c.target = o then (c.queued sh).emptied else sh.stream o.index := by
    intro o
    rw [hperform]
    show (shRender (c.staged sh)).stream o.index = _
    rw [shRender_stream hok hflows, c.stream_staged]
    split
    · rfl
    · exact (hidle o).1.emptied_eq (hidle o).2
  -- what the two loops show: the bytes of the call in the loop of its stream, nothing in the other
  have hshown : ∀ o : Output, ((c.staged sh).stream o.index).contents
      = if c.target = o then c.bytes else [] := by
    intro o
    rw [c.stream_staged]
    split
    · exact hqcont
    · exact Stream.contents_of_count_zero (hidle o).2
  refine ⟨⟨by rw [hperform]; exact hret, ?_, ?_⟩, hafter⟩
  · intro o
    rw [hafter]
    split
    · rfl
    · exact (hidle o).2
  · have hout : ((c.staged sh).stream streamStdout).contents = _ := hshown .stdout
    have herr : ((c.staged sh).stream streamStderr).contents = _ := hshown .stderr
    rw [hperform, shRender_flowing hok hflows, hout, herr]
    cases c.target <;> rfl

/-- **A call whose stream stalls** does not deliver: its bytes are still queued when it returns. -/
theorem call_stalled {c : ConsoleCall} {sh : Shell} (hcount : (c.queued sh).count ≠ 0)
    (hcell : (c.queued sh).cell 0 = newline) : ¬ Delivers sh c := by
  intro h
  have hstream : (c.staged sh).stream c.target.index = c.queued sh := by
    rw [c.stream_staged, if_pos rfl]
  have hdrained := h.drained c.target
  rw [c.perform_eq] at hdrained
  have hstalled : (shRender (c.staged sh)).stream c.target.index = c.queued sh := by
    rw [shRender_stalled (by rw [hstream]; exact hcell), hstream]
  exact hcount ((congrArg Stream.count hstalled).symm.trans hdrained)

/-! ## Any list of calls -/

/-- All calls of a list, made one after the other, deliver. -/
def AllDeliver (sh : Shell) : List ConsoleCall → Prop
  | [] => True
  | c :: calls => Delivers sh c ∧ AllDeliver (c.perform sh).1 calls

/-- All bytes that a list of calls passes to one stream, in order. -/
def sent (o : Output) (calls : List ConsoleCall) : List UInt8 :=
  calls.flatMap fun c => if c.target = o then c.bytes else []

/-- **The invariant between calls**: the shell is idle, and the arrays of the streams hold the histories `w`,
    in which no newline came to the first cell. -/
structure Shell.Quiet (sh : Shell) (w : Output → List UInt8) : Prop where
  idle : sh.Idle
  written : ∀ o : Output, (sh.stream o.index).Written (w o)
  clear : ∀ o : Output, ¬ NewlineAtBase (w o)

/-- The histories after a call. -/
def ConsoleCall.extend (c : ConsoleCall) (w : Output → List UInt8) (o : Output) : List UInt8 :=
  w o ++ if c.target = o then c.bytes else []

theorem ConsoleCall.queued_written {c : ConsoleCall} {sh : Shell} {w : Output → List UInt8}
    (h : sh.Quiet w) (hlen : c.len ≤ streamBufSize) :
    (c.queued sh).Written (w c.target ++ c.bytes) := by
  obtain ⟨hok, hcount⟩ := h.idle c.target
  have hroom : ((sh.stream c.target.index).room c.len).toNat = c.len.toNat := by
    unfold Stream.room
    rw [hcount]
    omega
  have hwritten := streamWrite_written hok (h.written c.target) c.buf c.len
  rw [hroom] at hwritten
  exact hwritten

/-- **One call**: it delivers exactly when it brings no newline to the first cell, and then keeps the
    invariant. -/
theorem ConsoleCall.step {c : ConsoleCall} {sh : Shell} {w : Output → List UInt8} (h : sh.Quiet w)
    (hlen : c.len ≤ streamBufSize) :
    (Delivers sh c ↔ ¬ NewlineAtBase (w c.target ++ c.bytes)) ∧
    (¬ NewlineAtBase (w c.target ++ c.bytes) → (c.perform sh).1.Quiet (c.extend w)) := by
  obtain ⟨hqok, hqcont, -⟩ := ConsoleCall.queued_spec h.idle hlen
  have hwritten := c.queued_written h hlen
  have hcount : (c.queued sh).count = (c.bytes.length : Int) := by
    rw [← hqok.contents_length, hqcont]
  have hbytes : c.bytes.length ≤ streamBufSize := by
    rw [ConsoleCall.bytes, List.length_map, List.length_range]
    omega
  -- the stream of the call flows exactly when no newline came to its first cell
  have hflow : (c.queued sh).Flows ↔ ¬ NewlineAtBase (w c.target ++ c.bytes) := by
    unfold Stream.Flows
    by_cases hnil : c.bytes = []
    · rw [hcount, hnil, List.append_nil]
      exact ⟨fun _ => h.clear c.target, fun _ => .inl rfl⟩
    · have hpos := List.length_pos_iff.mpr hnil
      rw [← hwritten.cell_zero_iff (h.clear c.target) hnil hbytes]
      constructor
      · rintro (hzero | hcell)
        · omega
        · exact hcell
      · exact .inr
  refine ⟨⟨?_, fun hclear => (call_flowing h.idle hlen (hflow.mpr hclear)).1⟩, ?_⟩
  · intro hdel hbase
    have hnot : ¬ (c.queued sh).Flows := fun hf => hflow.mp hf hbase
    unfold Stream.Flows at hnot
    rw [not_or, not_not] at hnot
    exact call_stalled hnot.1 hnot.2 hdel
  · intro hclear
    obtain ⟨-, hafter⟩ := call_flowing h.idle hlen (hflow.mpr hclear)
    refine ⟨?_, ?_, ?_⟩
    · intro o
      rw [hafter]
      split
      · exact ⟨hqok.emptied, rfl⟩
      · exact h.idle o
    · intro o
      rw [hafter, ConsoleCall.extend]
      split
      · rename_i ho
        rw [← ho]
        exact hwritten.congr rfl rfl
      · rw [List.append_nil]
        exact h.written o
    · intro o
      rw [ConsoleCall.extend]
      split
      · rename_i ho
        rw [← ho]
        exact hclear
      · rw [List.append_nil]
        exact h.clear o

theorem allDeliver_iff {calls : List ConsoleCall} (hlen : ∀ c ∈ calls, c.len ≤ streamBufSize)
    {sh : Shell} {w : Output → List UInt8} (h : sh.Quiet w) :
    AllDeliver sh calls ↔ ∀ o : Output, ¬ NewlineAtBase (w o ++ sent o calls) := by
  induction calls generalizing sh w with
  | nil =>
      simp only [AllDeliver, sent, List.flatMap_nil, List.append_nil, true_iff]
      exact h.clear
  | cons c calls ih =>
      obtain ⟨hiff, hnext⟩ := c.step h (hlen c List.mem_cons_self)
      have hsent : ∀ o, w o ++ sent o (c :: calls) = c.extend w o ++ sent o calls := by
        intro o
        rw [ConsoleCall.extend, List.append_assoc]
        rfl
      simp only [hsent]
      by_cases hclear : NewlineAtBase (w c.target ++ c.bytes)
      -- this call stalls, and its newline stays in the history
      · constructor
        · rintro ⟨hdel, -⟩
          exact absurd hclear (hiff.mp hdel)
        · intro hall
          refine absurd ?_ (hall c.target)
          have hext : c.extend w c.target = w c.target ++ c.bytes := by
            rw [ConsoleCall.extend, if_pos rfl]
          rw [hext]
          exact hclear.append _
      · rw [← ih (fun d hd => hlen d (List.mem_cons_of_mem _ hd)) (hnext hclear)]
        exact ⟨fun hall => hall.2, fun hall => ⟨hiff.mpr hclear, hall⟩⟩

theorem shInit_quiet {data : Fin streamCount → Vector UInt8 streamBufSize} {memory : UInt32 → ShellChar}
    {width size : UInt32} {sh : Shell} (h : shInit data memory width size = .ok sh) :
    sh.Quiet fun _ => [] := by
  refine ⟨fun o => ?_, fun o => ?_, fun o => ?_⟩
  · rw [shInit_stream h]
    exact ⟨Stream.ok_of_reset rfl rfl rfl, rfl⟩
  · rw [shInit_stream h]
    exact Stream.written_nil rfl
  · rintro ⟨p, -, hp⟩
    exact absurd hp (by simp)

/-- **When the console delivers.** On a shell that `shInit` set up, over any video memory, geometry and old
    stream data, calls of at most `streamBufSize` bytes all deliver exactly when, for each output stream, no
    byte whose position in all that is sent to the stream is a multiple of `streamBufSize` is a newline. -/
theorem calls_deliver_iff {data : Fin streamCount → Vector UInt8 streamBufSize}
    {memory : UInt32 → ShellChar} {width size : UInt32} {sh : Shell}
    (hinit : shInit data memory width size = .ok sh) (calls : List ConsoleCall)
    (hlen : ∀ c ∈ calls, c.len ≤ streamBufSize) :
    AllDeliver sh calls ↔ ∀ (o : Output) (p : Nat), p % streamBufSize = 0 →
      (sent o calls)[p]? ≠ some newline := by
  rw [allDeliver_iff hlen (shInit_quiet hinit)]
  simp only [NewlineAtBase, List.nil_append, not_exists, not_and, ne_eq]

/-- The call `sh_putc` makes for the character `c`. -/
def putcCall (c : UInt8) : ConsoleCall := ⟨.stdout, fun _ => c, 1⟩

theorem calls_deliver_iff_letter : AllDeliver bootShell [putcCall 97] := by
  have hlen : ∀ c ∈ [putcCall 97], c.len ≤ streamBufSize := by
    intro c hc
    obtain rfl := List.mem_singleton.mp hc
    decide
  refine (calls_deliver_iff shInit_bootShell [putcCall 97] hlen).mpr ?_
  intro o p _ hp
  have hmem := List.mem_of_getElem? hp
  cases o <;> simp [sent, putcCall, ConsoleCall.bytes, newline] at hmem

/-- The first newline a fresh console is sent stays in the stream. -/
theorem newline_stays : ∃ sh, shInit (fun _ => Vector.replicate streamBufSize 0) (fun _ => ⟨0, 0⟩)
    vgaWidth (vgaWidth * vgaHeight) = .ok sh ∧
    ¬ Delivers sh (putcCall newline) ∧ ¬ AllDeliver sh [putcCall newline] := by
  have hqueued : (putcCall newline).queued bootShell = emptyStream.put newline := by
    show (streamWrite (bootShell.stream streamStdout) (fun _ => newline) 1).1 = _
    rw [shInit_stream shInit_bootShell]
    rfl
  have hnot : ¬ Delivers bootShell (putcCall newline) := by
    apply call_stalled
    · rw [hqueued]
      decide
    · rw [hqueued]
      exact Stream.cell_put emptyStream newline (by decide)
  exact ⟨bootShell, shInit_bootShell, hnot, fun h => hnot h.1⟩

end Drupe
