import Drupe.Shell.Correctness.Drained
import Drupe.Shell.Correctness.Statements

/-!
# `Shell.Correctness.Call` — what holds before each statement of a call

What came to the screen, what was taken for it and what is still queued are together what was queued and
written, in order (`Conserved`); and the screen is on its way to a window onto the page of what came to
it. `Config.Sound` says so for each place of `sh_write_stream`, a statement keeps it
(`Config.Sound.step`), and at the end it is what a caller wants (`Orderly`).
-/

namespace Drupe

open Lib

/-! ## What came to the screen -/

/-- The bytes of one stream that came to the screen, in order. -/
def renderedOn (o : Output) (log : List Rendered) : List UInt8 :=
  (log.filter fun e => e.stream = o).map Rendered.byte

theorem renderedOn_append (o : Output) (log more : List Rendered) :
    renderedOn o (log ++ more) = renderedOn o log ++ renderedOn o more := by
  unfold renderedOn
  rw [List.filter_append, List.map_append]

/-- Bytes of one stream, in one colour. -/
theorem renderedOn_mark (o o' : Output) (bytes : List UInt8) (color : UInt8) :
    renderedOn o' (bytes.map fun c => o.mark (c, color)) = if o' = o then bytes else [] := by
  induction bytes with
  | nil => split <;> rfl
  | cons c bytes ih =>
      have hcons : renderedOn o' ((c :: bytes).map fun c => o.mark (c, color))
          = renderedOn o' [o.mark (c, color)] ++ renderedOn o' (bytes.map fun c => o.mark (c, color)) :=
        renderedOn_append o' [_] _
      rw [hcons, ih]
      cases o <;> cases o' <;> rfl

/-- The first `n` bytes of the text, for the stream it is written to. -/
def WriteCall.text (call : WriteCall) (o : Output) (n : Nat) : List UInt8 :=
  if call.target = o.index then (List.range n).map call.buf else []

theorem WriteCall.text_prefix (call : WriteCall) (o : Output) {n m : Nat} (h : n ≤ m) :
    call.text o n <+: call.text o m := by
  obtain ⟨k, rfl⟩ := Nat.exists_eq_add_of_le h
  unfold WriteCall.text
  split
  · rw [List.range_add, List.map_append]
    exact List.prefix_append _ _
  · exact List.prefix_refl _

/-- The page after all that came to the screen. -/
def pageOf {width : Nat} (p₀ : Page ShellChar width) (log : List Rendered) : Page ShellChar width :=
  (log.map fun e => (e.byte, e.color)).foldl pageByte p₀

/-- Bytes that are pending for one stream. -/
def Output.only (o : Output) (bytes : List UInt8) (o' : Output) : List UInt8 := if o' = o then bytes else []

section Sound

variable {call : WriteCall} {sh₀ : Shell}

/-- **Conservation.** What came to the screen, what is pending for it and what is queued is what was
    queued when the call was entered and the first `written` bytes of its text: no byte is lost, doubled
    or out of its order. -/
structure Conserved (call : WriteCall) (sh₀ : Shell) (queues : Fin streamCount → Stream)
    (pending : Output → List UInt8) (written : Nat) (log : List Rendered) : Prop where
  ok : ∀ i, (queues i).Ok
  kept : ∀ o : Output, renderedOn o log ++ pending o ++ (queues o.index).contents
    = (sh₀.stream o.index).contents ++ call.text o written
  colors : ∀ e ∈ log, e.color = e.stream.color

/-- Nothing is taken, and a read takes nothing. -/
def Reading.Idle (r : Reading) (s : Stream) : Prop :=
  (r.next = .test ∨ r.next = .newline) ∧ r.taken = [] ∧ s.Dry

/-- Before these statements of `sh_render`, nothing is pending. -/
def CallAt.Settled : CallAt → Prop
  | .saveColor | .setRed | .restoreColor | .done => True
  | _ => False

/-- **The invariant of a call**, entered on `sh₀` with a window onto `p₀`. -/
inductive Config.Sound (call : WriteCall) (sh₀ : Shell) {width : Nat} (height : Nat) (p₀ : Page ShellChar width) :
    Config → Prop
  | setColor {sh : Shell} {n : Nat} {saved : UInt8} {log : List Rendered}
      (hkept : Conserved call sh₀ sh.stream (fun _ => []) 0 log) (hviews : sh.screen.Views height (pageOf p₀ log)) :
      Sound call sh₀ height p₀ ⟨sh, .setColor, n, saved, log⟩
  | writing {sh : Shell} {w : Writing} {q : Stream} {n : Nat} {saved : UInt8} {log : List Rendered}
      (hw : w.Sound call.buf call.len (call.target ≠ streamStdin) q (sh.stream call.target))
      (hkept : Conserved call sh₀ (Function.update sh.stream call.target q) (fun _ => []) w.written log)
      (hcolor : sh.screen.color = 0x07) (hviews : sh.screen.Views height (pageOf p₀ log)) :
      Sound call sh₀ height p₀ ⟨sh, .writing w, n, saved, log⟩
  | reading {sh : Shell} {o : Output} {r : Reading} {q : Stream} {n : Nat} {saved : UInt8} {log : List Rendered}
      (hn : n ≤ call.len.toNat) (hr : r.Sound q (sh.stream o.index))
      (hkept : Conserved call sh₀ (Function.update sh.stream o.index q) (o.only r.taken) n log)
      (hcolor : sh.screen.color = o.color ∨ r.Idle (sh.stream o.index))
      (hviews : sh.screen.Views height (pageOf p₀ log)) :
      Sound call sh₀ height p₀ ⟨sh, .reading o r, n, saved, log⟩
  | showing {sh : Shell} {o : Output} {h : Showing} {n : Nat} {saved : UInt8} {log : List Rendered}
      (hn : n ≤ call.len.toNat) (hkept : Conserved call sh₀ sh.stream (o.only h.pending) n log)
      (hcolor : sh.screen.color = o.color ∨ h.pending = [] ∧ (sh.stream o.index).Dry)
      (hviews : h.next.Views height sh.screen (pageOf p₀ log)) :
      Sound call sh₀ height p₀ ⟨sh, .showing o h, n, saved, log⟩
  | settled {sh : Shell} {next : CallAt} {n : Nat} {saved : UInt8} {log : List Rendered} (hnext : next.Settled)
      (hn : n ≤ call.len.toNat) (hkept : Conserved call sh₀ sh.stream (fun _ => []) n log)
      (hviews : sh.screen.Views height (pageOf p₀ log)) :
      Sound call sh₀ height p₀ ⟨sh, next, n, saved, log⟩

theorem Shell.stream_update (sh : Shell) (i : Fin streamCount) (s : Stream) :
    (sh.setStream i s).stream = Function.update sh.stream i s := by
  funext j
  by_cases h : i = j
  · subst h
    rw [Shell.stream_setStream, Function.update_self]
  · rw [Shell.stream_setStream_ne _ h, Function.update_of_ne (Ne.symm h)]

theorem Output.only_nil (o : Output) : o.only [] = fun _ => [] := by
  funext o'
  unfold Output.only
  split <;> rfl

theorem update_ok {queues : Fin streamCount → Stream} {i : Fin streamCount} {q q' : Stream}
    (h : ∀ j, (Function.update queues i q j).Ok) (hok : q'.Ok) (j : Fin streamCount) :
    (Function.update queues i q' j).Ok := by
  by_cases hj : j = i
  · subst hj
    rw [Function.update_self]
    exact hok
  · have hold := h j
    rw [Function.update_of_ne hj] at hold ⊢
    exact hold

theorem Conserved.queue_ok {queues : Fin streamCount → Stream} {i : Fin streamCount} {q : Stream}
    {pending : Output → List UInt8} {n : Nat} {log : List Rendered}
    (h : Conserved call sh₀ (Function.update queues i q) pending n log) : q.Ok := by
  have hok := h.ok i
  rwa [Function.update_self] at hok

/-- One queue changes, with the bytes that are pending for it. -/
theorem Conserved.reads {queues : Fin streamCount → Stream} {o : Output} {q q' : Stream} {taken taken' : List UInt8}
    {n : Nat} {log : List Rendered}
    (h : Conserved call sh₀ (Function.update queues o.index q) (o.only taken) n log) (hok : q'.Ok)
    (hsame : taken' ++ q'.contents = taken ++ q.contents) :
    Conserved call sh₀ (Function.update queues o.index q') (o.only taken') n log where
  ok := update_ok h.ok hok
  kept := by
    intro o'
    have hold := h.kept o'
    unfold Output.only at hold ⊢
    by_cases ho : o' = o
    · subst ho
      rw [Function.update_self, if_pos rfl, List.append_assoc] at hold ⊢
      rw [hsame]
      exact hold
    · rw [Function.update_of_ne (Output.index_ne ho), if_neg ho] at hold ⊢
      exact hold
  colors := h.colors

/-- The queue of the call grows by bytes of its text. -/
theorem Conserved.writes {queues : Fin streamCount → Stream} {q q' : Stream} {n n' : Nat} {log : List Rendered}
    (h : Conserved call sh₀ (Function.update queues call.target q) (fun _ => []) n log) (hok : q'.Ok)
    {counted : List UInt8} (hcounted : call.target ≠ streamStdin → q'.contents = q.contents ++ counted ∧
      (List.range n').map call.buf = (List.range n).map call.buf ++ counted) :
    Conserved call sh₀ (Function.update queues call.target q') (fun _ => []) n' log where
  ok := update_ok h.ok hok
  kept := by
    intro o
    have hold := h.kept o
    unfold WriteCall.text at hold ⊢
    by_cases ho : call.target = o.index
    · obtain ⟨hcont, htext⟩ := hcounted (by rw [ho]; exact o.index_ne_stdin)
      rw [if_pos ho, ← ho, Function.update_self] at hold ⊢
      rw [hcont, htext, ← List.append_assoc, hold, List.append_assoc]
    · rw [if_neg ho, Function.update_of_ne (Ne.symm ho)] at hold ⊢
      exact hold
  colors := h.colors

/-- Pending bytes come to the screen, in the colour of their stream. -/
theorem Conserved.shows {queues : Fin streamCount → Stream} {o : Output} {bytes rest : List UInt8} {n : Nat}
    {log : List Rendered} (h : Conserved call sh₀ queues (o.only (bytes ++ rest)) n log) {color : UInt8}
    (hcolor : bytes ≠ [] → color = o.color) :
    Conserved call sh₀ queues (o.only rest) n (log ++ bytes.map fun c => o.mark (c, color)) where
  ok := h.ok
  kept := by
    intro o'
    have hold := h.kept o'
    rw [renderedOn_append, renderedOn_mark]
    unfold Output.only at hold ⊢
    by_cases ho : o' = o
    · rw [if_pos ho] at hold
      rw [if_pos ho, if_pos ho, List.append_assoc (renderedOn o' log)]
      exact hold
    · rw [if_neg ho] at hold
      rw [if_neg ho, if_neg ho, List.append_nil]
      exact hold
  colors := by
    intro e he
    rcases List.mem_append.mp he with he | he
    · exact h.colors e he
    · obtain ⟨c, hc, rfl⟩ := List.mem_map.mp he
      exact hcolor (List.ne_nil_of_mem hc)

theorem pageOf_append {width : Nat} (p₀ : Page ShellChar width) (log more : List Rendered) :
    pageOf p₀ (log ++ more) = pageOf (pageOf p₀ log) more := by
  unfold pageOf
  rw [List.map_append, List.foldl_append]

/-- An idle read ends before it takes anything. -/
theorem Reading.Idle.step {r r' : Reading} {q s s' : Stream} (h : r.Idle s) (hr : r.Sound q s)
    (hstep : r.step s = (some r', s')) : r'.Idle s' := by
  obtain ⟨hnext, hnil, hdry⟩ := h
  cases hr with
  | test =>
      unfold Reading.step at hstep
      simp only at hstep
      split at hstep
      · obtain ⟨rfl, rfl⟩ := hstep
        exact ⟨.inr rfl, hnil, hdry⟩
      · cases hstep
  | newline hcount =>
      change _ = [] at hnil
      subst hnil
      have hcell : q.cell (([] : List UInt8).length : Nat) = newline := hdry.resolve_left (Int.not_le.mpr hcount)
      simp only [Reading.step, if_pos hcell] at hstep
      cases hstep
  | byte => exact absurd hnext (by simp)
  | moveTail => exact absurd hnext (by simp)
  | countDown => exact absurd hnext (by simp)

variable {width height : Nat} {p₀ : Page ShellChar width}

theorem Config.Sound.step_writing {sh : Shell} {w : Writing} {q : Stream} {n : Nat} {saved : UInt8}
    {log : List Rendered} {c' : Config}
    (hw : w.Sound call.buf call.len (call.target ≠ streamStdin) q (sh.stream call.target))
    (hkept : Conserved call sh₀ (Function.update sh.stream call.target q) (fun _ => []) w.written log)
    (hcolor : sh.screen.color = 0x07) (hviews : sh.screen.Views height (pageOf p₀ log))
    (hstep : Config.step call ⟨sh, .writing w, n, saved, log⟩ = some c') : c'.Sound call sh₀ height p₀ := by
  have hok := hkept.queue_ok
  rcases hw' : w.step call.buf (sh.stream call.target) with ⟨w', s'⟩
  simp only [Config.step, hw'] at hstep
  cases w' with
  | none =>
      obtain ⟨rfl, -, hn⟩ := hw.return hw'
      obtain rfl := Option.some.inj hstep
      refine .reading hn .test ?_ (.inl hcolor) hviews
      rw [Function.update_eq_self, Output.only_nil, Shell.stream_update]
      exact hkept
  | some w' =>
      obtain ⟨q', counted, hsound, hok', hcounted⟩ := hw.step hok hw'
      obtain rfl := Option.some.inj hstep
      have hkept' := hkept.writes hok' hcounted
      refine .writing (q := q') ?_ ?_ hcolor hviews
      · rw [Shell.stream_setStream]
        exact hsound
      · rw [Shell.stream_update, Function.update_idem]
        exact hkept'

theorem Config.Sound.step_reading {sh : Shell} {o : Output} {r : Reading} {q : Stream} {n : Nat} {saved : UInt8}
    {log : List Rendered} {c' : Config} (hn : n ≤ call.len.toNat) (hr : r.Sound q (sh.stream o.index))
    (hkept : Conserved call sh₀ (Function.update sh.stream o.index q) (o.only r.taken) n log)
    (hcolor : sh.screen.color = o.color ∨ r.Idle (sh.stream o.index))
    (hviews : sh.screen.Views height (pageOf p₀ log))
    (hstep : Config.step call ⟨sh, .reading o r, n, saved, log⟩ = some c') : c'.Sound call sh₀ height p₀ := by
  have hok := hkept.queue_ok
  rcases hr' : r.step (sh.stream o.index) with ⟨r', s'⟩
  simp only [Config.step, hr'] at hstep
  cases r' with
  | none =>
      obtain ⟨rfl, -⟩ := hr.return hr'
      obtain rfl := Option.some.inj hstep
      by_cases hnil : r.taken = []
      · rw [hnil, Output.only_nil] at hkept
        rw [if_pos hnil]
        refine .settled (by cases o <;> trivial) hn ?_ hviews
        rw [Shell.stream_update]
        exact hkept
      · rw [if_neg hnil]
        refine .showing hn ?_ (.inl ?_) (.char hviews)
        · rw [Shell.stream_update]
          exact hkept
        · exact hcolor.resolve_right fun hidle => hnil hidle.2.1
  | some r' =>
      obtain ⟨q', hsound, hok', hsame⟩ := hr.step hok hr'
      obtain rfl := Option.some.inj hstep
      have hkept' := hkept.reads hok' hsame
      refine .reading (q := q') hn ?_ ?_ ?_ hviews
      · rw [Shell.stream_setStream]
        exact hsound
      · rw [Shell.stream_update, Function.update_idem]
        exact hkept'
      · rw [Shell.stream_setStream]
        exact hcolor.imp_right fun hidle => hidle.step hr hr'

theorem Config.Sound.step_showing {sh : Shell} {o : Output} {h : Showing} {n : Nat} {saved : UInt8}
    {log : List Rendered} {c' : Config} (hn : n ≤ call.len.toNat)
    (hkept : Conserved call sh₀ sh.stream (o.only h.pending) n log)
    (hcolor : sh.screen.color = o.color ∨ h.pending = [] ∧ (sh.stream o.index).Dry)
    (hviews : h.next.Views height sh.screen (pageOf p₀ log))
    (hstep : Config.step call ⟨sh, .showing o h, n, saved, log⟩ = some c') : c'.Sound call sh₀ height p₀ := by
  rcases hh' : h.step sh.screen with ⟨h', sc', shown⟩
  simp only [Config.step, hh'] at hstep
  cases h' with
  | none =>
      obtain ⟨rfl, rfl, hpending, hv⟩ := hviews.return hh'
      obtain rfl := Option.some.inj hstep
      rw [List.map_nil, List.append_nil]
      refine .reading hn .test ?_ ?_ hv
      · rw [Function.update_eq_self, ← hpending]
        exact hkept
      · exact hcolor.imp_right fun hdry => ⟨.inl rfl, rfl, hdry.2⟩
  | some h' =>
      obtain ⟨hv, hsame, bytes, rfl, hpending⟩ := hviews.step hh'
      obtain rfl := Option.some.inj hstep
      rw [hpending] at hkept hcolor
      have hmark : (bytes.map fun c => (c, sh.screen.color)).map o.mark
          = bytes.map fun c => o.mark (c, sh.screen.color) := List.map_map
      have hcells : (bytes.map fun c => o.mark (c, sh.screen.color)).map (fun e => (e.byte, e.color))
          = bytes.map fun c => (c, sh.screen.color) := List.map_map
      rw [hmark]
      refine .showing hn (hkept.shows fun hne => ?_) ?_ ?_
      · exact hcolor.resolve_right fun hdry => hne (List.append_eq_nil_iff.mp hdry.1).1
      · show sc'.color = _ ∨ _
        rw [hsame]
        exact hcolor.imp_right fun hdry => ⟨(List.append_eq_nil_iff.mp hdry.1).2, hdry.2⟩
      · rw [pageOf_append, pageOf, hcells]
        exact hv

/-- **A statement** keeps the invariant. -/
theorem Config.Sound.step {c c' : Config} (h : c.Sound call sh₀ height p₀) (hstep : c.step call = some c') :
    c'.Sound call sh₀ height p₀ := by
  cases h with
  | setColor hkept hviews =>
      obtain rfl := Option.some.inj hstep
      refine .writing .test ?_ rfl (hviews.setColor _)
      rw [Function.update_eq_self]
      exact hkept
  | writing hw hkept hcolor hviews => exact step_writing hw hkept hcolor hviews hstep
  | reading hn hr hkept hcolor hviews => exact step_reading hn hr hkept hcolor hviews hstep
  | showing hn hkept hcolor hviews => exact step_showing hn hkept hcolor hviews hstep
  | @settled sh next n saved log hnext hn hkept hviews =>
      cases next with
      | saveColor =>
          obtain rfl := Option.some.inj hstep
          exact .settled trivial hn hkept hviews
      | setRed =>
          obtain rfl := Option.some.inj hstep
          refine .reading hn .test ?_ (.inl rfl) (hviews.setColor _)
          rw [Function.update_eq_self, Output.only_nil]
          exact hkept
      | restoreColor =>
          obtain rfl := Option.some.inj hstep
          exact .settled trivial hn hkept (hviews.setColor _)
      | done => cases hstep
      | setColor | writing | reading | showing => exact hnext.elim

/-! ## The two ends of a call -/

/-- **A call that left the shell in order**: the streams are in order and the cursor is below `size`; what
    came to the screen of a stream is a first part of what was queued there and the text, each byte once,
    in the order of the stream and in its colour; and the screen is a window onto the page on which just
    these bytes were written. -/
structure Orderly (call : WriteCall) (sh₀ : Shell) {width : Nat} (height : Nat) (p₀ : Page ShellChar width)
    (c : Config) : Prop where
  streams : ∀ i, (c.shell.stream i).Ok
  cursor_lt : c.shell.screen.cursor < c.shell.screen.size
  in_order : ∀ o : Output, renderedOn o c.log <+: (sh₀.stream o.index).contents ++ call.text o call.len.toNat
  colors : ∀ e ∈ c.log, e.color = e.stream.color
  views : c.shell.screen.Views height (pageOf p₀ c.log)

theorem Config.Sound.enter (hok : ∀ i, (sh₀.stream i).Ok) (hviews : sh₀.screen.Views height p₀) :
    (Config.enter sh₀).Sound call sh₀ height p₀ := by
  refine .setColor ⟨hok, fun o => ?_, fun e he => absurd he (by simp)⟩ hviews
  unfold WriteCall.text
  split <;> exact (List.append_nil _).symm

theorem Config.Sound.orderly {c : Config} (h : c.Sound call sh₀ height p₀) (hdone : c.next = .done) :
    Orderly call sh₀ height p₀ c := by
  cases h with
  | setColor => cases hdone
  | writing => cases hdone
  | reading => cases hdone
  | showing => cases hdone
  | @settled sh next n saved log hnext hn hkept hviews =>
      refine ⟨hkept.ok, hviews.cursor_lt, fun o => ?_, hkept.colors, hviews⟩
      have hlogged : renderedOn o log <+: (sh₀.stream o.index).contents ++ call.text o n :=
        ⟨(sh.stream o.index).contents, by rw [← hkept.kept o, List.append_nil]⟩
      exact hlogged.trans ((List.prefix_append_right_inj _).mpr (call.text_prefix o hn))

end Sound

end Drupe
