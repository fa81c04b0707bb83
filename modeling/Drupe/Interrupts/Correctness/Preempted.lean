import Drupe.Interrupts.Preemption
import Drupe.Shell.Correctness.Call

/-!
# `Interrupts.Correctness.Preempted` — calls of `sh_write_stream` under keys

A key drains the output streams (`Stream.drain`), which in most places is as good as the draining that the
call itself is about. So a key keeps what holds before each statement (`Config.Sound`), where it does no
harm (`Config.Sound.key`), and a call returns with the shell in order (`preempted_orderly`). Inside
`stream_read` it does harm (`preempted_race`).

## Contents
- What a key does to the streams and the screen (`Typed`).
- A key in a write, a read, and in the middle of a character.
- Runs, and a key where it does harm.
-/

namespace Drupe

open Lib

/-! ## What a key does -/

/-- A key that types a character, and what it brings to the screen: the output streams are drained, each
    in its colour, and the character goes to stdin. -/
structure Typed (sh sh' : Shell) (shown : List Rendered) : Prop where
  output : ∀ o : Output, sh'.stream o.index = (sh.stream o.index).drain.1
  stdin : ∃ c, sh'.stream streamStdin = (streamWrite (sh.stream streamStdin) (fun _ => c) 1).1
  rendered : ∀ o : Output, renderedOn o shown = (sh.stream o.index).drain.2
  colors : ∀ e ∈ shown, e.color = e.stream.color
  screen : sh'.screen = { renderEvents sh.screen (shown.map fun e => (e.byte, e.color)) with color := 0x07 }

/-- **The handler**, for the keyboard. -/
theorem irqHandler_key (sh : Shell) (scancode : UInt8) {f : InterruptFrame} (hvector : f.intNo = 33) :
    irqHandler (some sh) scancode f = .ok
      (some (if scancodeToAscii scancode = 0 then sh
        else shRender (sh.staged streamStdin (fun _ => scancodeToAscii scancode) 1)), [(0x20, 0x20)]) := by
  have hclock : ¬ f.intNo = 32 := by
    rw [hvector]
    decide
  have hmaster : ¬ f.intNo ≥ 40 := by
    rw [hvector]
    decide
  unfold irqHandler
  simp only [if_neg hclock, if_pos hvector, if_neg hmaster]
  by_cases hnone : scancodeToAscii scancode = 0
  · rw [if_neg (fun h => h.2 hnone), if_pos hnone]
    rfl
  · have hpress : scancode < 128 := by
      by_contra hrelease
      exact hnone (if_pos (UInt8.not_lt.mp hrelease))
    rw [if_pos ⟨hpress, hnone⟩, if_neg hnone, ← shWriteStream_staged]
    rfl

theorem typed (sh : Shell) (c : UInt8) :
    Typed sh (shRender (sh.staged streamStdin (fun _ => c) 1)) (sh.staged streamStdin (fun _ => c) 1).rendered := by
  have hstaged : ∀ o : Output, (sh.staged streamStdin (fun _ => c) 1).stream o.index = sh.stream o.index :=
    fun o => Shell.stream_setStream_ne _ o.index_ne_stdin.symm _
  have hout : (sh.staged streamStdin (fun _ => c) 1).delivered streamStdout = (sh.stream streamStdout).drain.2 :=
    congrArg (fun s => s.drain.2) (hstaged .stdout)
  have herr : (sh.staged streamStdin (fun _ => c) 1).delivered streamStderr = (sh.stream streamStderr).drain.2 :=
    congrArg (fun s => s.drain.2) (hstaged .stderr)
  have hrendered : (sh.staged streamStdin (fun _ => c) 1).rendered
      = ((sh.stream streamStdout).drain.2.map fun c => Output.stdout.mark (c, 0x07)) ++
        (sh.stream streamStderr).drain.2.map fun c => Output.stderr.mark (c, 0x04) := by
    rw [Shell.rendered, hout, herr]
    rfl
  refine ⟨fun o => ?_, ⟨c, ?_⟩, fun o => ?_, ?_, ?_⟩
  · rw [shRender_stream_drain, hstaged]
  · rw [shRender_stdin]
    exact Shell.stream_setStream _ _ _
  · rw [hrendered, renderedOn_append, renderedOn_mark, renderedOn_mark]
    cases o
    · exact List.append_nil _
    · rfl
  · intro e he
    rw [hrendered, List.mem_append, List.mem_map, List.mem_map] at he
    rcases he with ⟨c, -, rfl⟩ | ⟨c, -, rfl⟩ <;> rfl
  · have hshown : (sh.staged streamStdin (fun _ => c) 1).shown
        = (sh.staged streamStdin (fun _ => c) 1).rendered.map fun e => (e.byte, e.color) := by
      rw [Shell.shown, Shell.rendered, List.map_append, List.map_map, List.map_map]
      rfl
    rw [shRender_screen, hshown]
    exact renderEvents_setColor sh.screen _ _ _

/-- **A key** types a character, or changes nothing. -/
theorem Preempted.key_cases {call : WriteCall} {c c' : Config} {scancode : UInt8}
    (h : Preempted call c (.key scancode) c') :
    scancodeToAscii scancode = 0 ∧ c' = c ∨
    scancodeToAscii scancode ≠ 0 ∧ ∃ sh shown, Typed c.shell sh shown ∧
      c' = { c with shell := sh, log := c.log ++ shown } := by
  cases h with
  | key hunder hvector hhandler =>
      rw [irqHandler_key c.shell scancode hvector] at hhandler
      by_cases hnone : scancodeToAscii scancode = 0
      · simp only [if_pos hnone, Except.ok.injEq, Prod.mk.injEq, Option.some.injEq] at hhandler
        obtain ⟨rfl, -⟩ := hhandler
        refine .inl ⟨hnone, ?_⟩
        rw [keyRendered, if_pos hnone, List.append_nil]
      · simp only [if_neg hnone, Except.ok.injEq, Prod.mk.injEq, Option.some.injEq] at hhandler
        obtain ⟨rfl, -⟩ := hhandler
        refine .inr ⟨hnone, _, _, typed c.shell (scancodeToAscii scancode), ?_⟩
        rw [keyRendered, if_neg hnone]

/-! ## A key keeps the invariant -/

section Sound

variable {call : WriteCall} {sh₀ : Shell} {width height : Nat} {p₀ : Page ShellChar width}

theorem Stream.drain_moveHead (s : Stream) : s.moveHead.drain = (s.drain.1.moveHead, s.drain.2) := by
  unfold Stream.moveHead
  rw [s.drain_head]
  exact s.drain_setHead _

/-- A key that drains the stream of a write under way. -/
theorem Writing.Sound.drain {buf : Nat → UInt8} {total : Int} {watched : Prop} {target : Fin streamCount}
    {w : Writing} {q s : Stream} (h : w.Sound buf total watched q s) (hok : q.Ok) (hout : target ≠ streamStdin)
    (hsafe : w.Safe target s) : w.Sound buf total watched q.drain.1 s.drain.1 ∧ s.drain.2 = q.drain.2 := by
  obtain ⟨hok', -, hcount⟩ := hok.drain
  have hnn := hok'.count_nonneg
  cases h with
  | test => exact ⟨.test, rfl⟩
  | cut hcut =>
      refine ⟨.cut ?_, rfl⟩
      rcases hsafe with hin | hdry | hlong
      · exact absurd hin hout
      · rw [hdry.drain]
        exact hcut
      · change streamBufSize ≤ total at hlong
        omega
  | store hlen hdone hroom =>
      refine ⟨.store hlen hdone fun hmore => ?_, rfl⟩
      have := hroom hmore
      omega
  | moveHead hlen hmore hroom hcell =>
      refine ⟨.moveHead hlen hmore (by omega) fun hwatched => ?_, rfl⟩
      rw [q.drain_head, q.cell_drain]
      exact hcell hwatched
  | countUp hlen hmore hroom hcell =>
      rw [Stream.drain_moveHead]
      refine ⟨.countUp hlen hmore (by omega) fun hwatched => ?_, rfl⟩
      rw [q.drain_head, q.cell_drain]
      exact hcell hwatched

theorem streamWrite_one {s : Stream} (hroom : s.count < streamBufSize) (c : UInt8) :
    (streamWrite s (fun _ => c) 1).1 = s.put c := by
  have hfits : ¬ (1 : Int) > streamBufSize - s.count := by omega
  unfold streamWrite
  simp only [if_neg hfits]
  rfl

/-- In the loop of a write to stdin, a safe place is one with room for what is still to be written and a
    key. -/
theorem Writing.Safe.room_left {target : Fin streamCount} {len count : Int} {written : Nat}
    (hsafe : target ≠ streamStdin ∨ len ≤ written ∨ count + (len - written) < streamBufSize)
    (htarget : target = streamStdin) (hmore : written < len) : count + (len - written) < streamBufSize := by
  rcases hsafe with hout | hdone | hfree
  · exact absurd htarget hout
  · exact absurd hmore (Int.not_lt.mpr hdone)
  · exact hfree

/-- A key that types a character into the stream of a write under way. -/
theorem Writing.Sound.type {buf : Nat → UInt8} {total : Int} {watched : Prop} {target : Fin streamCount}
    {w : Writing} {q s : Stream} (h : w.Sound buf total watched q s) (hok : q.Ok) (hunwatched : ¬ watched)
    (htarget : target = streamStdin) (hsafe : w.Safe target s) (c : UInt8) :
    ∃ q', w.Sound buf total watched q' (streamWrite s (fun _ => c) 1).1 ∧ q'.Ok := by
  obtain ⟨hok', hcont⟩ := streamWrite_spec hok (fun _ => c) 1
  have hcount : (streamWrite q (fun _ => c) 1).1.count = q.count + q.room 1 := by
    rw [← hok'.contents_length, hcont, List.length_append, List.length_map, List.length_range, Int.natCast_add,
      hok.contents_length]
    unfold Stream.room
    omega
  have hle := hok.count_le
  have hroom : 0 ≤ q.room 1 ∧ q.room 1 ≤ 1 := by
    unfold Stream.room
    omega
  cases h with
  | test => exact ⟨_, .test, hok'⟩
  | cut hcut => exact ⟨_, .cut (by omega), hok'⟩
  | @store _ len written hlen hdone hfits =>
      refine ⟨_, .store hlen hdone fun hmore => ?_, hok'⟩
      have hfree : q.count + (len - written) < streamBufSize := Writing.Safe.room_left hsafe htarget hmore
      omega
  | @moveHead _ len written hlen hmore hfits hcell =>
      have hfree : q.count + (len - written) < streamBufSize := Writing.Safe.room_left hsafe htarget hmore
      refine ⟨_, .moveHead hlen hmore ?_ fun hwatched => absurd hwatched hunwatched, hok'⟩
      omega
  | @countUp _ len written hlen hmore hfits hcell =>
      have hfree : q.count + (len - written) < streamBufSize := Writing.Safe.room_left hsafe htarget hmore
      -- the character goes to the cell after the one that is not counted yet
      have hput := hok.put (show q.count < streamBufSize by omega) c
      have htyped : (streamWrite q.moveHead (fun _ => c) 1).1
          = Stream.moveHead { q.put c with data := (q.moveHead.put c).data } := streamWrite_one (by
        show q.count < _
        omega) c
      rw [htyped]
      refine ⟨{ q.put c with data := (q.moveHead.put c).data }, .countUp hlen hmore ?_ ?_, ?_⟩
      · show q.count + 1 + _ ≤ _
        omega
      · exact fun hwatched => absurd hwatched hunwatched
      · exact ⟨hput.tail_nonneg, hput.tail_lt, hput.count_nonneg, hput.count_le, hput.head_eq⟩

theorem stream_cases (i : Fin streamCount) : i = streamStdin ∨ ∃ o : Output, i = o.index := by
  match i with
  | 0 => exact .inl rfl
  | 1 => exact .inr ⟨.stdout, rfl⟩
  | 2 => exact .inr ⟨.stderr, rfl⟩

/-- A key that drains the output queues. Where bytes are pending it must find nothing to take. -/
theorem Conserved.drains {queues queues' : Fin streamCount → Stream} {pending : Output → List UInt8} {n : Nat}
    {log shown : List Rendered} (h : Conserved call sh₀ queues pending n log)
    (hout : ∀ o : Output, queues' o.index = (queues o.index).drain.1) (hin : (queues' streamStdin).Ok)
    (hrendered : ∀ o : Output, renderedOn o shown = (queues o.index).drain.2)
    (hcolors : ∀ e ∈ shown, e.color = e.stream.color)
    (hpending : ∀ o : Output, pending o = [] ∨ (queues o.index).Dry) :
    Conserved call sh₀ queues' pending n (log ++ shown) where
  ok := by
    intro i
    rcases stream_cases i with rfl | ⟨o, rfl⟩
    · exact hin
    · rw [hout]
      exact (h.ok o.index).drain.1
  kept := by
    intro o
    have hold := h.kept o
    have hcont := (h.ok o.index).drain.2.1
    rw [renderedOn_append, hrendered, hout, ← hold]
    rcases hpending o with hnil | hdry
    · rw [hnil, List.append_nil, List.append_nil, List.append_assoc, ← hcont]
    · rw [hdry.drain, List.append_nil]
  colors := by
    intro e he
    exact (List.mem_append.mp he).elim (h.colors e) (hcolors e)

/-- Nothing comes to the screen from dry streams. -/
theorem Typed.shown_nil {sh sh' : Shell} {shown : List Rendered} (ht : Typed sh sh' shown)
    (hdry : ∀ o : Output, (sh.stream o.index).Dry) : shown = [] := by
  cases shown with
  | nil => rfl
  | cons e shown =>
      have hnone := ht.rendered e.stream
      rw [(hdry e.stream).drain, renderedOn, List.filter_cons_of_pos (by simp)] at hnone
      cases hnone

theorem Typed.views {sh sh' : Shell} {shown : List Rendered} (ht : Typed sh sh' shown) {p : Page ShellChar width}
    (hviews : sh.screen.Views height p) : sh'.screen.Views height (pageOf p shown) := by
  rw [ht.screen]
  exact (hviews.renderEvents _).setColor _

theorem Typed.log_views {sh sh' : Shell} {log shown : List Rendered} (ht : Typed sh sh' shown)
    (hviews : sh.screen.Views height (pageOf p₀ log)) : sh'.screen.Views height (pageOf p₀ (log ++ shown)) := by
  rw [pageOf_append]
  exact ht.views hviews

/-- The colour a key leaves is that of stdout; it does no harm to a stream with nothing pending. -/
theorem Typed.color {sh sh' : Shell} {shown : List Rendered} (ht : Typed sh sh' shown) {o : Output}
    {pending : Prop} (hnone : pending ∨ o = .stdout) :
    sh'.screen.color = o.color ∨ pending ∧ (sh'.stream o.index).Dry := by
  rcases hnone with hnone | rfl
  · rw [ht.output]
    exact .inr ⟨hnone, Stream.drain_dry _⟩
  · rw [ht.screen]
    exact .inl rfl

section Key

variable {sh sh' : Shell} {shown : List Rendered} (ht : Typed sh sh' shown)
include ht

/-- One of the streams may be in disorder. -/
theorem Conserved.typed {i : Fin streamCount} {q q' : Stream} {pending : Output → List UInt8} {n : Nat}
    {log : List Rendered} (h : Conserved call sh₀ (Function.update sh.stream i q) pending n log) (hok : q'.Ok)
    (hout : i ≠ streamStdin → q' = q.drain.1 ∧ (sh.stream i).drain.2 = q.drain.2)
    (hpending : ∀ o : Output, pending o = [] ∨ (Function.update sh.stream i q o.index).Dry) :
    Conserved call sh₀ (Function.update sh'.stream i q') pending n (log ++ shown) := by
  refine h.drains (fun o => ?_) ?_ (fun o => ?_) ht.colors hpending
  · by_cases ho : o.index = i
    · subst ho
      rw [Function.update_self, Function.update_self]
      exact (hout o.index_ne_stdin).1
    · rw [Function.update_of_ne ho, Function.update_of_ne ho]
      exact ht.output o
  · by_cases hi : streamStdin = i
    · subst hi
      rw [Function.update_self]
      exact hok
    · obtain ⟨c, hstdin⟩ := ht.stdin
      have hold := h.ok streamStdin
      rw [Function.update_of_ne hi] at hold ⊢
      rw [hstdin]
      exact (streamWrite_spec hold _ 1).1
  · rw [ht.rendered]
    by_cases ho : o.index = i
    · subst ho
      rw [Function.update_self]
      exact (hout o.index_ne_stdin).2
    · rw [Function.update_of_ne ho]

theorem Conserved.typed_whole {pending : Output → List UInt8} {n : Nat} {log : List Rendered}
    (h : Conserved call sh₀ sh.stream pending n log)
    (hpending : ∀ o : Output, pending o = [] ∨ (sh.stream o.index).Dry) :
    Conserved call sh₀ sh'.stream pending n (log ++ shown) := by
  obtain ⟨c, hstdin⟩ := ht.stdin
  refine h.drains ht.output ?_ ht.rendered ht.colors hpending
  rw [hstdin]
  exact (streamWrite_spec (h.ok streamStdin) _ 1).1

theorem Config.Sound.key_writing {w : Writing} {q : Stream} {n : Nat} {saved : UInt8} {log : List Rendered}
    (hw : w.Sound call.buf call.len (call.target ≠ streamStdin) q (sh.stream call.target))
    (hkept : Conserved call sh₀ (Function.update sh.stream call.target q) (fun _ => []) w.written log)
    (hviews : sh.screen.Views height (pageOf p₀ log)) (hsafe : w.Safe call.target (sh.stream call.target)) :
    Config.Sound call sh₀ height p₀ ⟨sh', .writing w, n, saved, log ++ shown⟩ := by
  have hok := hkept.queue_ok
  have hcolor : sh'.screen.color = 0x07 := by
    rw [ht.screen]
  by_cases hin : call.target = streamStdin
  · obtain ⟨c, hstdin⟩ := ht.stdin
    obtain ⟨q', hw', hok'⟩ := hw.type hok (not_not.mpr hin) hin hsafe c
    refine .writing (q := q') ?_ ?_ hcolor (ht.log_views hviews)
    · have hstream : sh'.stream call.target = (streamWrite (sh.stream call.target) (fun _ => c) 1).1 := by
        rw [hin]
        exact hstdin
      rw [hstream]
      exact hw'
    · exact hkept.typed ht hok' (fun hout => absurd hin hout) fun _ => .inl rfl
  · obtain ⟨o, ho⟩ := (stream_cases call.target).resolve_left hin
    obtain ⟨hw', hsame⟩ := hw.drain hok hin hsafe
    refine .writing (q := q.drain.1) ?_ ?_ hcolor (ht.log_views hviews)
    · rw [ho, ht.output, ← ho]
      exact hw'
    · exact hkept.typed ht hok.drain.1 (fun _ => ⟨rfl, hsame⟩) fun _ => .inl rfl

theorem Config.Sound.key_reading {o : Output} {r : Reading} {q : Stream} {n : Nat} {saved : UInt8}
    {log : List Rendered} (hn : n ≤ call.len.toNat) (hr : r.Sound q (sh.stream o.index))
    (hkept : Conserved call sh₀ (Function.update sh.stream o.index q) (o.only r.taken) n log)
    (hviews : sh.screen.Views height (pageOf p₀ log)) (hsafe : r.Safe o (sh.stream o.index)) :
    Config.Sound call sh₀ height p₀ ⟨sh', .reading o r, n, saved, log ++ shown⟩ := by
  generalize hs : sh.stream o.index = s at hr hsafe
  cases hr with
  | @test _ taken =>
      subst hs
      rw [Function.update_eq_self] at hkept
      have hpending : ∀ o' : Output, o.only taken o' = [] ∨ (sh.stream o'.index).Dry := by
        intro o'
        by_cases ho : o' = o
        · subst ho
          exact hsafe.imp (fun hnil => (if_pos rfl).trans hnil) And.right
        · exact .inl (if_neg ho)
      have hcolor : sh'.screen.color = o.color ∨ taken = [] ∧ (sh'.stream o.index).Dry :=
        ht.color (hsafe.imp_right And.left)
      refine .reading hn .test ?_ (hcolor.imp_right fun hdry => ⟨.inl rfl, hdry⟩) (ht.log_views hviews)
      rw [Function.update_eq_self]
      exact hkept.typed_whole ht hpending
  | @newline _ taken hcount =>
      subst hs
      obtain ⟨hnil, hdry⟩ := hsafe
      change taken = [] at hnil
      subst hnil
      rw [Function.update_eq_self, Output.only_nil] at hkept
      -- the stream is left alone
      have hleft : sh'.stream o.index = sh.stream o.index := by
        rw [ht.output, hdry.drain]
      refine .reading hn (.newline (by rw [hleft]; exact hcount)) ?_ (.inr ⟨.inr rfl, rfl, ?_⟩) (ht.log_views hviews)
      · rw [Function.update_eq_self, Output.only_nil]
        exact hkept.typed_whole ht fun _ => .inl rfl
      · rw [hleft]
        exact hdry
  | byte => exact hsafe.elim
  | moveTail => exact hsafe.elim
  | countDown => exact hsafe.elim

theorem ShowAt.Views.typed {next : ShowAt} {p : Page ShellChar width} (h : next.Views height sh.screen p)
    (hsafe : next.Unfinished sh.screen → (sh.stream streamStdout).Dry ∧ (sh.stream streamStderr).Dry) :
    next.Views height sh'.screen (pageOf p shown) := by
  -- in the middle of a character only the colour changes
  have hmiddle : next.Unfinished sh.screen → next.Views height sh'.screen (pageOf p shown) := by
    intro hmid
    obtain ⟨hout, herr⟩ := hsafe hmid
    have hnil := ht.shown_nil fun o => by cases o <;> assumption
    rw [ht.screen, hnil]
    exact h.setColor _
  cases h with
  | char hv => exact .char (ht.views hv)
  | store hreturn hline hv => exact .store hreturn hline (ht.views hv)
  | advance => exact hmiddle trivial
  | full hdue =>
      cases hdue with
      | inside hv => exact .full (.inside (ht.views hv))
      | past hend =>
          apply hmiddle
          show sh.screen.cursor ≥ sh.screen.size
          rw [ge_iff_le, UInt32.le_iff_toNat_le, hend.sized.size_eq, hend.cursor_eq]
  | copy => exact hmiddle trivial
  | blank => exact hmiddle trivial
  | back => exact hmiddle trivial

theorem Config.Sound.key_showing {o : Output} {h : Showing} {n : Nat} {saved : UInt8} {log : List Rendered}
    (hn : n ≤ call.len.toNat) (hkept : Conserved call sh₀ sh.stream (o.only h.pending) n log)
    (hviews : h.next.Views height sh.screen (pageOf p₀ log)) (hsafe : h.Safe o sh) :
    Config.Sound call sh₀ height p₀ ⟨sh', .showing o h, n, saved, log ++ shown⟩ := by
  obtain ⟨hpending, hunfinished⟩ := hsafe
  refine .showing hn (hkept.typed_whole ht fun o' => ?_) (ht.color (hpending.imp_right And.left))
    (by rw [pageOf_append]; exact hviews.typed ht hunfinished)
  by_cases ho : o' = o
  · subst ho
    rcases hpending with hnil | ⟨rfl, hdry⟩
    · exact .inl ((if_pos rfl).trans hnil)
    · exact .inr hdry
  · exact .inl (if_neg ho)

end Key

/-- **A key** keeps the invariant, where it does no harm. -/
theorem Config.Sound.key {c : Config} {sh' : Shell} {shown : List Rendered} (h : c.Sound call sh₀ height p₀)
    (ht : Typed c.shell sh' shown) (hsafe : c.Safe call) :
    Config.Sound call sh₀ height p₀ { c with shell := sh', log := c.log ++ shown } := by
  cases h with
  | setColor hkept hviews => exact .setColor (hkept.typed_whole ht fun _ => .inl rfl) (ht.log_views hviews)
  | writing hw hkept hcolor hviews => exact key_writing ht hw hkept hviews hsafe
  | reading hn hr hkept hcolor hviews => exact key_reading ht hn hr hkept hviews hsafe
  | showing hn hkept hcolor hviews => exact key_showing ht hn hkept hviews hsafe
  | settled hnext hn hkept hviews =>
      exact .settled hnext hn (hkept.typed_whole ht fun _ => .inl rfl) (ht.log_views hviews)

/-! ## Runs -/

/-- **A turn** keeps the invariant. -/
theorem Config.Sound.turn {c c' : Config} {t : Turn} (h : c.Sound call sh₀ height p₀) (hharmless : c.Harmless call t)
    (hturn : Preempted call c t c') : c'.Sound call sh₀ height p₀ := by
  cases t with
  | statement =>
      cases hturn with
      | statement hstep => exact h.step hstep
  | key scancode =>
      rcases hturn.key_cases with ⟨-, rfl⟩ | ⟨hchar, sh, shown, ht, rfl⟩
      · exact h
      · exact h.key ht (hharmless.resolve_left hchar)

/-- **Keys that do no harm.** A call of `sh_write_stream` on a shell that is in order, for any text, under
    any keys that come at harmless places, leaves the shell in order. -/
theorem preempted_orderly {call : WriteCall} {sh₀ : Shell} {width height : Nat} {p₀ : Page ShellChar width}
    (hok : ∀ i, (sh₀.stream i).Ok) (hviews : sh₀.screen.Views height p₀) {vis : List (Config × Turn)} {c : Config}
    (hrun : Run (Preempted call) (.enter sh₀) vis c) (hdone : c.next = .done)
    (hharmless : ∀ x ∈ vis, x.1.Harmless call x.2) : Orderly call sh₀ height p₀ c := by
  have hturn : ∀ ⦃c : Config⦄ ⦃t : Turn⦄ ⦃c' : Config⦄, c.Sound call sh₀ height p₀ → c.Harmless call t →
      Preempted call c t c' → c'.Sound call sh₀ height p₀ := fun _ _ _ h hharmless ht => h.turn hharmless ht
  have hsound := hrun.invariant_of_visited hturn hharmless (Config.Sound.enter hok hviews)
  exact hsound.orderly hdone

end Sound

/-! ## A key between two statements -/

/-- The frame of a keyboard interrupt. -/
def keyFrame : InterruptFrame := ⟨0, 0, 0, 0, 0, 0, 0, 0, 0, 0, 0, 0, 33, 0, 0, 0, 0, 0, 0⟩

/-- Turns taken one after the other; `none` when the call has returned before. -/
def Config.follow (call : WriteCall) : List Turn → Config → Option Config
  | [], c => some c
  | .statement :: turns, c => (c.step call).bind (follow call turns)
  | .key scancode :: turns, c =>
    if c.next = .done then none
    else
      let sh := if scancodeToAscii scancode = 0 then c.shell
        else shRender (c.shell.staged streamStdin (fun _ => scancodeToAscii scancode) 1)
      follow call turns { c with shell := sh, log := c.log ++ keyRendered c.shell scancode }

theorem Config.follow_run {call : WriteCall} {turns : List Turn} {c c' : Config} (h : c.follow call turns = some c') :
    ∃ vis, Run (Preempted call) c vis c' ∧ vis.map Prod.snd = turns := by
  induction turns generalizing c with
  | nil =>
      obtain rfl := Option.some.inj h
      exact ⟨[], .nil, rfl⟩
  | cons t turns ih =>
      cases t with
      | statement =>
          obtain ⟨c₁, hstep, hrest⟩ := Option.bind_eq_some_iff.mp h
          obtain ⟨vis, hrun, hturns⟩ := ih hrest
          exact ⟨_, .cons (.statement hstep) hrun, congrArg (Turn.statement :: ·) hturns⟩
      | key scancode =>
          rw [Config.follow] at h
          split at h
          · cases h
          · rename_i hunder
            obtain ⟨vis, hrun, hturns⟩ := ih h
            exact ⟨_, .cons (.key hunder rfl (irqHandler_key (f := keyFrame) c.shell scancode rfl)) hrun,
              congrArg (Turn.key scancode :: ·) hturns⟩

theorem harmless_of_statements {call : WriteCall} {vis : List (Config × Turn)} {n : Nat}
    (h : vis.map Prod.snd = List.replicate n .statement) : ∀ x ∈ vis, x.1.Harmless call x.2 := by
  intro x hx
  have hturn : x.2 ∈ List.replicate n Turn.statement := by
    rw [← h]
    exact List.mem_map_of_mem hx
  rw [List.eq_of_mem_replicate hturn]
  trivial

/-- `sh_putc` of the character `c`. -/
def putcWrite (c : UInt8) : WriteCall := ⟨streamStdout, fun _ => c, 1⟩

theorem bootShell_inOrder : (∀ i, (bootShell.stream i).Ok) ∧
    bootShell.screen.Views 25 (Page.blank (show 0 < vgaWidth.toNat by decide)) := by
  refine ⟨fun i => ?_, shInit_views shInit_bootShell _ (by decide) (by decide)⟩
  rw [shInit_stream shInit_bootShell]
  exact Stream.ok_of_reset rfl rfl rfl

/-- Before `sh_render` reads the stream, a key shows the character in its place. -/
theorem preempted_orderly_letter : ∃ vis c, Run (Preempted (putcWrite 98)) (.enter bootShell) vis c ∧
    vis.map Prod.snd = List.replicate 6 .statement ++ .key 30 :: List.replicate 5 .statement ∧
    c.next = .done ∧ Orderly (putcWrite 98) bootShell 25 (Page.blank (show 0 < vgaWidth.toNat by decide)) c := by
  have hrun : (((Config.enter bootShell).follow (putcWrite 98) (List.replicate 6 .statement)).bind fun c₁ =>
      (c₁.follow (putcWrite 98) (.key 30 :: List.replicate 5 .statement)).map fun c₂ =>
        (c₁.next, c₂.next)) = some (.reading .stdout ⟨.test, []⟩, .done) := by decide +kernel
  obtain ⟨c₁, hfirst, hrest⟩ := Option.bind_eq_some_iff.mp hrun
  obtain ⟨c₂, hsecond, hnext⟩ := Option.map_eq_some_iff.mp hrest
  obtain ⟨hat, hdone⟩ := Prod.mk.inj hnext
  obtain ⟨vis₁, hrun₁, hturns₁⟩ := Config.follow_run hfirst
  obtain ⟨vis₂, hrun₂, hturns₂⟩ := Config.follow_run hsecond
  have hharmless : ∀ x ∈ vis₁ ++ vis₂, x.1.Harmless (putcWrite 98) x.2 := by
    cases hrun₂ with
    | nil => cases hturns₂
    | cons _ hrest₂ =>
        rw [List.map_cons] at hturns₂
        obtain ⟨hkey, hturns₃⟩ := List.cons.inj hturns₂
        change _ = Turn.key 30 at hkey
        subst hkey
        intro x hx
        rcases List.mem_append.mp hx with hx | hx
        · exact harmless_of_statements hturns₁ x hx
        rcases List.mem_cons.mp hx with rfl | hx
        · right
          show c₁.Safe (putcWrite 98)
          unfold Config.Safe
          rw [hat]
          exact .inl rfl
        · exact harmless_of_statements hturns₃ x hx
  refine ⟨vis₁ ++ vis₂, c₂, hrun₁.append hrun₂, ?_, hdone, ?_⟩
  · rw [List.map_append, hturns₁, hturns₂]
  · exact preempted_orderly bootShell_inOrder.1 bootShell_inOrder.2 (hrun₁.append hrun₂) hdone hharmless

/-- A key after `sh_render` has looked at `count`, and before it takes the byte: `count` goes below zero,
    and a byte that nobody wrote comes to the screen. -/
theorem preempted_race : (∀ i, (bootShell.stream i).Ok) ∧
    bootShell.screen.Views 25 (Page.blank (show 0 < vgaWidth.toNat by decide)) ∧
    ∃ vis c, Run (Preempted (putcWrite 97)) (.enter bootShell) vis c ∧ c.next = .done ∧
      (c.shell.stream streamStdout).count = -1 ∧ renderedOn .stdout c.log = [97, 0] := by
  have hrun : ((Config.enter bootShell).follow (putcWrite 97)
      (List.replicate 8 .statement ++ .key 30 :: List.replicate 14 .statement)).map
        (fun c => (c.next, (c.shell.stream streamStdout).count, renderedOn .stdout c.log))
      = some (.done, -1, [97, 0]) := by decide +kernel
  obtain ⟨c, hfollow, hend⟩ := Option.map_eq_some_iff.mp hrun
  obtain ⟨vis, hvis, -⟩ := Config.follow_run hfollow
  obtain ⟨hdone, hcount, hlog⟩ : c.next = .done ∧ (c.shell.stream streamStdout).count = -1 ∧
      renderedOn .stdout c.log = [97, 0] := by
    simpa only [Prod.mk.injEq] using hend
  exact ⟨bootShell_inOrder.1, bootShell_inOrder.2, vis, c, hvis, hdone, hcount, hlog⟩

end Drupe
