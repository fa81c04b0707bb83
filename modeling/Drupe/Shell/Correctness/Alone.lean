import Mathlib.Logic.Relation
import Drupe.Shell.Correctness.Scroll
import Drupe.Shell.Statements

/-!
# `Shell.Correctness.Alone` — a call without interrupts

The statements of `sh_write_stream`, taken one after the other, are `shWriteStream` (`writeStream_alone`):
a lemma for each loop of the source, by induction on the rounds that are left.
-/

namespace Drupe

open Lib

/-- From `c` to `c'` by statements only, whatever the log says. -/
def Leads (call : WriteCall) (c c' : Config) : Prop :=
  ∀ log, ∃ log', Relation.ReflTransGen (fun c c' => Config.step call c = some c')
    { c with log } { c' with log := log' }

section Leads

variable {call : WriteCall} {c c' c'' : Config}

theorem Leads.refl (c : Config) : Leads call c c := fun log => ⟨log, .refl⟩

theorem Leads.trans (h : Leads call c c') (h' : Leads call c' c'') : Leads call c c'' := by
  intro log
  obtain ⟨log', hfirst⟩ := h log
  obtain ⟨log'', hrest⟩ := h' log'
  exact ⟨log'', hfirst.trans hrest⟩

theorem Leads.step (h : ∀ log, ∃ log', Config.step call { c with log } = some { c' with log := log' }) :
    Leads call c c' := by
  intro log
  obtain ⟨log', hstep⟩ := h log
  exact ⟨log', .single hstep⟩

end Leads

theorem Shell.setStream_setStream (sh : Shell) (i : Fin streamCount) (s t : Stream) :
    (sh.setStream i s).setStream i t = sh.setStream i t := by
  unfold Shell.setStream
  rw [Vector.set_set]

theorem Shell.setStream_self (sh : Shell) (i : Fin streamCount) : sh.setStream i (sh.stream i) = sh :=
  sh.afterRead_nil i

section Calls

variable {call : WriteCall} {n : Nat} {saved : UInt8}

/-! ## `stream_write` -/

theorem Leads.write {w w' : Writing} {s s' : Stream} (h : w.step call.buf s = (some w', s')) (sh : Shell) :
    Leads call ⟨sh.setStream call.target s, .writing w, n, saved, []⟩
      ⟨sh.setStream call.target s', .writing w', n, saved, []⟩ := by
  refine .step fun log => ⟨log, ?_⟩
  simp only [Config.step, Shell.stream_setStream, h, Shell.setStream_setStream]

theorem leads_writeLoop (sh : Shell) {len : Int} {fuel written : Nat} (hfuel : (len - written).toNat = fuel)
    (s : Stream) :
    Leads call ⟨sh.setStream call.target s, .writing ⟨.store, len, written⟩, n, saved, []⟩
      ⟨sh.setStream call.target (streamWriteLoop call.buf fuel written s), .reading .stdout ⟨.test, []⟩,
        written + fuel, saved, []⟩ := by
  induction fuel generalizing written s with
  | zero =>
      have hend : ¬ (written : Int) < len := by omega
      refine .step fun log => ⟨log, ?_⟩
      simp only [Config.step, Writing.step, if_neg hend, Shell.stream_setStream, Shell.setStream_setStream,
        streamWriteLoop, Nat.add_zero]
  | succ fuel ih =>
      have hmore : (written : Int) < len := by omega
      have hstore : (⟨.store, len, written⟩ : Writing).step call.buf s
          = (some ⟨.moveHead, len, written⟩, s.storeByte (call.buf written)) := if_pos hmore
      have hrest := @ih (written + 1) (by omega) (s.put (call.buf written))
      rw [Nat.add_assoc, Nat.add_comm 1 fuel] at hrest
      exact (((Leads.write hstore sh).trans (.write rfl sh)).trans (.write rfl sh)).trans hrest

theorem leads_write (sh : Shell) :
    Leads call ⟨sh, .writing ⟨.test, call.len, 0⟩, n, saved, []⟩
      ⟨sh.setStream call.target (streamWrite (sh.stream call.target) call.buf call.len).1,
        .reading .stdout ⟨.test, []⟩, (streamWrite (sh.stream call.target) call.buf call.len).2.toNat, saved, []⟩ := by
  generalize hs : sh.stream call.target = s
  have hstart : sh = sh.setStream call.target s := by
    rw [← hs, Shell.setStream_self]
  unfold streamWrite
  simp only [Int.toNat_natCast]
  by_cases hlong : call.len > streamBufSize - s.count
  · have htest : (⟨.test, call.len, 0⟩ : Writing).step call.buf s = (some ⟨.cut, call.len, 0⟩, s) := by
      simp only [Writing.step, if_pos hlong]
    have hloop := @leads_writeLoop call n saved sh (streamBufSize - s.count) _ 0 rfl s
    rw [if_pos hlong]
    rw [Nat.zero_add, Int.natCast_zero, Int.sub_zero] at hloop
    rw [hstart, Shell.setStream_setStream]
    exact ((Leads.write htest sh).trans (.write rfl sh)).trans hloop
  · have htest : (⟨.test, call.len, 0⟩ : Writing).step call.buf s = (some ⟨.store, call.len, 0⟩, s) := by
      simp only [Writing.step, if_neg hlong]
    have hloop := @leads_writeLoop call n saved sh call.len _ 0 rfl s
    rw [if_neg hlong]
    rw [Nat.zero_add, Int.natCast_zero, Int.sub_zero] at hloop
    rw [hstart, Shell.setStream_setStream]
    exact (Leads.write htest sh).trans hloop

/-! ## `stream_read` -/

theorem Leads.read {o : Output} {r r' : Reading} {s s' : Stream} (h : r.step s = (some r', s')) (sh : Shell) :
    Leads call ⟨sh.setStream o.index s, .reading o r, n, saved, []⟩
      ⟨sh.setStream o.index s', .reading o r', n, saved, []⟩ := by
  refine .step fun log => ⟨log, ?_⟩
  simp only [Config.step, Shell.stream_setStream, h, Shell.setStream_setStream]

theorem Leads.read_end {o : Output} {r : Reading} {s s' : Stream} (h : r.step s = (none, s')) (sh : Shell) :
    Leads call ⟨sh.setStream o.index s, .reading o r, n, saved, []⟩
      ⟨sh.setStream o.index s', if r.taken = [] then o.after else .showing o ⟨.char, r.taken⟩, n, saved, []⟩ := by
  refine .step fun log => ⟨log, ?_⟩
  simp only [Config.step, Shell.stream_setStream, h, Shell.setStream_setStream]

theorem leads_readLoop (sh : Shell) {o : Output} {fuel : Nat} {taken : List UInt8}
    (hfuel : (fuel : Int) + taken.length = renderBufSize) (s : Stream) :
    Leads call ⟨sh.setStream o.index s, .reading o ⟨.test, taken⟩, n, saved, []⟩
      ⟨sh.setStream o.index (streamReadLoop fuel taken.length s).1,
        if taken ++ (streamReadLoop fuel taken.length s).2 = [] then o.after
        else .showing o ⟨.char, taken ++ (streamReadLoop fuel taken.length s).2⟩, n, saved, []⟩ := by
  induction fuel generalizing taken s with
  | zero =>
      have hend : ¬ ((taken.length : Int) < renderBufSize ∧ s.count > 0) := by omega
      rw [streamReadLoop, List.append_nil]
      exact .read_end (by simp only [Reading.step, if_neg hend]) sh
  | succ fuel ih =>
      rw [streamReadLoop]
      by_cases hcount : s.count > 0
      · have htest : (⟨.test, taken⟩ : Reading).step s = (some ⟨.newline, taken⟩, s) := by
          simp only [Reading.step, if_pos (show (taken.length : Int) < renderBufSize ∧ s.count > 0 by omega)]
        rw [if_pos hcount]
        by_cases hcell : s.cell taken.length = newline
        · rw [if_pos hcell, List.append_nil]
          refine (Leads.read htest sh).trans (.read_end ?_ sh)
          simp only [Reading.step, if_pos hcell]
        · have hbyte : (⟨.newline, taken⟩ : Reading).step s = (some ⟨.byte, taken⟩, s) := by
            simp only [Reading.step, if_neg hcell]
          have hlength : (taken ++ [s.cell s.tail]).length = taken.length + 1 := List.length_append
          have hrest := @ih (taken ++ [s.cell s.tail]) (by omega) s.drop
          rw [hlength, List.append_assoc] at hrest
          rw [if_neg hcell]
          exact ((((Leads.read htest sh).trans (.read hbyte sh)).trans (.read rfl sh)).trans (.read rfl sh)).trans
            ((Leads.read rfl sh).trans hrest)
      · have hend : ¬ ((taken.length : Int) < renderBufSize ∧ s.count > 0) := fun h => hcount h.2
        rw [if_neg hcount, List.append_nil]
        exact .read_end (by simp only [Reading.step, if_neg hend]) sh

theorem leads_read (sh : Shell) (o : Output) :
    Leads call ⟨sh, .reading o ⟨.test, []⟩, n, saved, []⟩
      ⟨sh.setStream o.index (streamRead (sh.stream o.index) renderBufSize).1,
        if (streamRead (sh.stream o.index) renderBufSize).2 = [] then o.after
        else .showing o ⟨.char, (streamRead (sh.stream o.index) renderBufSize).2⟩, n, saved, []⟩ := by
  have hloop := @leads_readLoop call n saved sh o 64 [] rfl (sh.stream o.index)
  rw [Shell.setStream_self] at hloop
  exact hloop

/-! ## The characters of a read -/

theorem Leads.showing {o : Output} {h h' : Showing} {sc sc' : Screen}
    (hstep : ∃ shown, h.step sc = (some h', sc', shown)) (streams : Vector Stream streamCount) :
    Leads call ⟨⟨sc, streams⟩, .showing o h, n, saved, []⟩ ⟨⟨sc', streams⟩, .showing o h', n, saved, []⟩ := by
  obtain ⟨shown, hstep⟩ := hstep
  refine .step fun log => ⟨log ++ shown.map o.mark, ?_⟩
  simp only [Config.step, hstep]

/-- An inner loop of `sh_scroll`, over the cells of a row. -/
theorem leads_cells {sc : Screen} (place : Nat → ShowAt) (dst : Nat → UInt32)
    (val : (UInt32 → ShellChar) → Nat → ShellChar) {rest : List UInt8}
    (hcell : ∀ memory k, k < sc.width.toNat → (⟨place k, rest⟩ : Showing).step { sc with memory } =
      (some ⟨place (k + 1), rest⟩, { sc with memory := Function.update memory (dst k) (val memory k) }, []))
    (o : Output) (streams : Vector Stream streamCount) {k : Nat} (hk : k ≤ sc.width.toNat) :
    Leads call ⟨⟨sc, streams⟩, .showing o ⟨place 0, rest⟩, n, saved, []⟩
      ⟨⟨{ sc with memory := store dst val k 0 sc.memory }, streams⟩, .showing o ⟨place k, rest⟩, n, saved, []⟩ := by
  induction k with
  | zero => exact .refl _
  | succ k ih =>
      refine (ih (Nat.le_of_succ_le hk)).trans (Leads.showing ⟨[], ?_⟩ streams)
      rw [hcell _ k hk, store_append, Nat.zero_add]
      rfl

/-- A row of `sh_scroll`. -/
theorem leads_copyRow {sc : Screen} {row : Nat} (hrow : row < sc.height.toNat) (o : Output) (rest : List UInt8)
    (streams : Vector Stream streamCount) :
    Leads call ⟨⟨sc, streams⟩, .showing o ⟨.copy row 0, rest⟩, n, saved, []⟩
      ⟨⟨scrollRow sc (UInt32.ofNat row), streams⟩, .showing o ⟨.copy (row + 1) 0, rest⟩, n, saved, []⟩ := by
  rw [scrollRow_eq]
  have hcells := @leads_cells call n saved sc (.copy row)
    (fun col => (UInt32.ofNat row - 1) * sc.width + UInt32.ofNat col)
    (fun m col => m (UInt32.ofNat row * sc.width + UInt32.ofNat col)) rest
  refine (hcells ?_ o streams (Nat.le_refl _)).trans (Leads.showing ⟨[], ?_⟩ streams)
  · intro memory k hk
    simp only [Showing.step, if_pos hrow, if_pos hk, Screen.store_eq]
  · simp only [Showing.step, if_pos hrow, if_neg (Nat.lt_irrefl _)]

theorem leads_copy (sc : Screen) (o : Output) (rest : List UInt8) (streams : Vector Stream streamCount) {rows : Nat}
    (hrows : rows ≤ sc.height.toNat - 1) :
    Leads call ⟨⟨sc, streams⟩, .showing o ⟨.copy 1 0, rest⟩, n, saved, []⟩
      ⟨⟨(List.range rows).foldl (fun sc k => scrollRow sc (UInt32.ofNat (k + 1))) sc, streams⟩,
        .showing o ⟨.copy (rows + 1) 0, rest⟩, n, saved, []⟩ := by
  induction rows with
  | zero => exact .refl _
  | succ rows ih =>
      have hprev := ih (Nat.le_of_succ_le hrows)
      rw [List.range_succ, List.foldl_append]
      refine hprev.trans (leads_copyRow ?_ o rest streams)
      rw [scrollRows_eq]
      show rows + 1 < sc.height.toNat
      omega

theorem leads_scroll (sc : Screen) (o : Output) (rest : List UInt8) (streams : Vector Stream streamCount) :
    Leads call ⟨⟨sc, streams⟩, .showing o ⟨.copy 1 0, rest⟩, n, saved, []⟩
      ⟨⟨shScroll sc, streams⟩, .showing o ⟨.back, rest⟩, n, saved, []⟩ := by
  have hcopy := @leads_copy call n saved sc o rest streams _ (Nat.le_refl _)
  have hheight : ((List.range (sc.height.toNat - 1)).foldl
      (fun sc k => scrollRow sc (UInt32.ofNat (k + 1))) sc).height = sc.height := by
    rw [scrollRows_eq]
  unfold shScroll
  generalize (List.range (sc.height.toNat - 1)).foldl _ sc = copied at hcopy hheight ⊢
  have hend : ¬ sc.height.toNat - 1 + 1 < copied.height.toNat := by
    rw [hheight]
    omega
  have hfill := @foldl_store
    (fun sc col => sc.store ((copied.height - 1) * copied.width + UInt32.ofNat col) ⟨32, sc.color⟩) _ _ copied
    (fun _ _ => Screen.store_eq _ _ _) copied.width.toNat
  simp only [hfill]
  have hcells := @leads_cells call n saved copied .blank
    (fun col => (copied.height - 1) * copied.width + UInt32.ofNat col) (fun _ _ => ⟨32, copied.color⟩) rest
  refine (hcopy.trans (Leads.showing ⟨[], ?_⟩ streams)).trans
    ((hcells ?_ o streams (Nat.le_refl _)).trans (Leads.showing ⟨[], ?_⟩ streams))
  · simp only [Showing.step, if_neg hend]
  · intro memory k hk
    simp only [Showing.step, if_pos hk, Screen.store_eq]
  · simp only [Showing.step, if_neg (Nat.lt_irrefl _)]

/-- The test of the cursor, and what it leads to. -/
theorem leads_scrollIfFull (sc : Screen) (o : Output) (rest : List UInt8) (streams : Vector Stream streamCount) :
    Leads call ⟨⟨sc, streams⟩, .showing o ⟨.full, rest⟩, n, saved, []⟩
      ⟨⟨scrollIfFull sc, streams⟩, .showing o ⟨.char, rest⟩, n, saved, []⟩ := by
  unfold scrollIfFull
  by_cases hfull : sc.cursor ≥ sc.size
  · rw [if_pos hfull]
    refine (Leads.showing ⟨[], ?_⟩ streams).trans
      ((leads_scroll sc o rest streams).trans (Leads.showing ⟨[], rfl⟩ streams))
    simp only [Showing.step, if_pos hfull]
  · rw [if_neg hfull]
    refine Leads.showing ⟨[], ?_⟩ streams
    simp only [Showing.step, if_neg hfull]

theorem leads_char (sc : Screen) (c : UInt8) (o : Output) (rest : List UInt8) (streams : Vector Stream streamCount) :
    Leads call ⟨⟨sc, streams⟩, .showing o ⟨.char, c :: rest⟩, n, saved, []⟩
      ⟨⟨renderChar sc c, streams⟩, .showing o ⟨.char, rest⟩, n, saved, []⟩ := by
  unfold renderChar
  by_cases hreturn : c = 13
  · rw [if_pos hreturn]
    refine Leads.showing ⟨[(c, sc.color)], ?_⟩ streams
    simp only [Showing.step, if_pos hreturn]
  by_cases hline : c = newline
  · rw [if_neg hreturn, if_pos hline]
    refine (Leads.showing ⟨[(c, sc.color)], ?_⟩ streams).trans (leads_scrollIfFull _ o rest streams)
    simp only [Showing.step, if_neg hreturn, if_pos hline]
  by_cases hroom : sc.cursor < sc.size
  · rw [if_neg hreturn, if_neg hline, if_pos hroom]
    have htest : (⟨.char, c :: rest⟩ : Showing).step sc = (some ⟨.store c, rest⟩, sc, []) := by
      simp only [Showing.step, if_neg hreturn, if_neg hline, if_pos hroom]
    exact ((Leads.showing ⟨_, htest⟩ streams).trans (.showing ⟨_, rfl⟩ streams)).trans
      ((Leads.showing ⟨_, rfl⟩ streams).trans (leads_scrollIfFull _ o rest streams))
  · rw [if_neg hreturn, if_neg hline, if_neg hroom]
    refine Leads.showing ⟨[], ?_⟩ streams
    simp only [Showing.step, if_neg hreturn, if_neg hline, if_neg hroom]

theorem leads_chars (sc : Screen) (bytes : List UInt8) (o : Output) (streams : Vector Stream streamCount) :
    Leads call ⟨⟨sc, streams⟩, .showing o ⟨.char, bytes⟩, n, saved, []⟩
      ⟨⟨renderBytes sc bytes, streams⟩, .reading o ⟨.test, []⟩, n, saved, []⟩ := by
  induction bytes generalizing sc with
  | nil =>
      refine .step fun log => ⟨log, ?_⟩
      simp only [Config.step, Showing.step, List.map_nil, List.append_nil]
      rfl
  | cons c bytes ih => exact (leads_char sc c o bytes streams).trans (ih (renderChar sc c))

/-! ## `sh_render` and `sh_write_stream` -/

theorem leads_drain (sh : Shell) (o : Output) {fuel : Nat} (hfuel : (sh.stream o.index).count < fuel) :
    Leads call ⟨sh, .reading o ⟨.test, []⟩, n, saved, []⟩ ⟨drain o.index fuel sh, o.after, n, saved, []⟩ := by
  induction fuel generalizing sh with
  | zero =>
      have hempty := streamRead_empty (Int.le_of_lt hfuel) renderBufSize
      have hread := @leads_read call n saved sh o
      rw [hempty, if_pos rfl, Shell.setStream_self] at hread
      exact hread
  | succ fuel ih =>
      have hread := @leads_read call n saved sh o
      rw [drain]
      by_cases hnil : (streamRead (sh.stream o.index) renderBufSize).2 = []
      · simp only [if_pos hnil] at hread ⊢
        rw [hnil]
        exact hread
      · simp only [if_neg hnil] at hread ⊢
        refine hread.trans ((leads_chars sh.screen _ o _).trans (ih _ ?_))
        show (Shell.stream (sh.afterRead o.index _ _) o.index).count < fuel
        rw [Shell.stream_afterRead]
        have := streamRead_count_lt hnil
        omega

theorem leads_drainAll (sh : Shell) (o : Output) :
    Leads call ⟨sh, .reading o ⟨.test, []⟩, n, saved, []⟩ ⟨drainAll o.index sh, o.after, n, saved, []⟩ :=
  leads_drain sh o (by omega)

/-- A statement that does not look at the log. -/
theorem Leads.statement {c c' : Config} (h : ∀ log, Config.step call { c with log } = some { c' with log }) :
    Leads call c c' := .step fun log => ⟨log, h log⟩

theorem leads_render (sh : Shell) :
    Leads call ⟨sh, .reading .stdout ⟨.test, []⟩, n, saved, []⟩
      ⟨shRender sh, .done, n, (drainAll streamStdout sh).screen.color, []⟩ := by
  have hout : Leads call ⟨sh, .reading .stdout ⟨.test, []⟩, n, saved, []⟩
      ⟨drainAll streamStdout sh, .saveColor, n, saved, []⟩ := leads_drainAll sh .stdout
  have hsave : Leads call ⟨drainAll streamStdout sh, .saveColor, n, saved, []⟩
      ⟨drainAll streamStdout sh, .setRed, n, (drainAll streamStdout sh).screen.color, []⟩ := .statement fun _ => rfl
  have hred : Leads call ⟨drainAll streamStdout sh, .setRed, n, (drainAll streamStdout sh).screen.color, []⟩
      ⟨(drainAll streamStdout sh).setColor 0x04, .reading .stderr ⟨.test, []⟩, n,
        (drainAll streamStdout sh).screen.color, []⟩ := .statement fun _ => rfl
  have herr := @leads_drainAll call n (drainAll streamStdout sh).screen.color
    ((drainAll streamStdout sh).setColor 0x04) .stderr
  exact ((hout.trans hsave).trans hred).trans (herr.trans (.statement fun _ => rfl))

end Calls

/-- **A call without interrupts** is `shWriteStream`: its statements come to the end, with its shell and its
    answer. -/
theorem writeStream_alone (call : WriteCall) (sh : Shell) :
    ∃ saved log, Relation.ReflTransGen (fun c c' => Config.step call c = some c') (.enter sh)
      ⟨(shWriteStream sh call.target.val call.buf call.len).1, .done,
        (shWriteStream sh call.target.val call.buf call.len).2.toNat, saved, log⟩ := by
  rw [shWriteStream_staged, shWriteStream_ret]
  have henter : Leads call (.enter sh) ⟨sh.setColor 0x07, .writing ⟨.test, call.len, 0⟩, 0, 0, []⟩ :=
    .statement fun _ => rfl
  obtain ⟨log, hsteps⟩ := (henter.trans ((leads_write _).trans (leads_render _))) []
  exact ⟨_, log, hsteps⟩

end Drupe
