import Drupe.Interrupts.Correctness.ReachableShell
import Drupe.Lib.Visit

/-!
# `Shell.Correctness.ScreenBounds` — no access of the console is outside the video memory

The functions of `shell.c` that touch the video memory, once more, with every access checked against `size`
and with loops of `sh_render` that must end by their own tests (`shRenderIn`). On a screen of any geometry,
whether its rows fill it or not, the checks never fail: the cursor is below `size` before each byte and after
it (`Screen.Inside.renderChar`), and a scroll stays in the rows (`shScrollIn_eq`).
-/

namespace Drupe

open Lib

/-! ## The checked functions -/

/-- `shell->memory[i]`, read. -/
def Screen.loadIn (sc : Screen) (i : UInt32) : Except Fault ShellChar :=
  if i < sc.size then .ok (sc.memory i) else .error .outOfBounds

/-- `shell->memory[i]`, written. -/
def Screen.storeIn (sc : Screen) (i : UInt32) (c : ShellChar) : Except Fault Screen :=
  if i < sc.size then .ok (sc.store i c) else .error .outOfBounds

def scrollRowIn (sc : Screen) (row : UInt32) : Except Fault Screen :=
  (List.range sc.width.toNat).foldlM (fun sc col => do
    let dst := (row - 1) * sc.width + UInt32.ofNat col
    let src := row * sc.width + UInt32.ofNat col
    let c ← sc.loadIn src
    sc.storeIn dst c) sc

def shScrollIn (sc : Screen) : Except Fault Screen := do
  let sc ← (List.range (sc.height.toNat - 1)).foldlM (fun sc k => scrollRowIn sc (UInt32.ofNat (k + 1))) sc
  let lastLine := (sc.height - 1) * sc.width
  (List.range sc.width.toNat).foldlM (fun sc col => sc.storeIn (lastLine + UInt32.ofNat col) ⟨32, sc.color⟩) sc

def scrollIfFullIn (sc : Screen) : Except Fault Screen :=
  if sc.cursor ≥ sc.size then do
    let sc ← shScrollIn sc
    return { sc with cursor := sc.cursor - sc.width }
  else .ok sc

def renderCharIn (sc : Screen) (c : UInt8) : Except Fault Screen :=
  if c = 13 then .ok { sc with cursor := sc.cursor - sc.cursor % sc.width }
  else if c = newline then
    scrollIfFullIn { sc with cursor := sc.cursor + (sc.width - sc.cursor % sc.width) }
  else if sc.cursor < sc.size then do
    let sc ← sc.storeIn sc.cursor ⟨c, sc.color⟩
    scrollIfFullIn { sc with cursor := sc.cursor + 1 }
  else .ok sc

def renderBytesIn (sc : Screen) (bytes : List UInt8) : Except Fault Screen := bytes.foldlM renderCharIn sc

/-- A loop of `sh_render`. Here the fuel is not a way out: a loop that would go on has not returned. -/
def drainIn (i : Fin streamCount) : (fuel : Nat) → Shell → Except Fault Shell
  | 0, _ => .error .hang
  | fuel + 1, sh => do
    let r := streamRead (sh.stream i) renderBufSize
    let screen ← renderBytesIn sh.screen r.2
    let sh := { sh.setStream i r.1 with screen }
    if r.2 = [] then return sh else drainIn i fuel sh

def drainAllIn (i : Fin streamCount) (sh : Shell) : Except Fault Shell :=
  drainIn i ((sh.stream i).count.toNat + 1) sh

def shRenderIn (sh : Shell) : Except Fault Shell := do
  let sh ← drainAllIn streamStdout sh
  let savedColor := sh.screen.color
  let sh ← drainAllIn streamStderr (sh.setColor 0x04)
  return sh.setColor savedColor

theorem streamIdx_lt {streamIdx : Int} (h : ¬ (streamIdx < 0 ∨ streamIdx ≥ streamCount)) :
    streamIdx.toNat < streamCount := by
  omega

def shWriteStreamIn (sh : Shell) (streamIdx : Int) (buf : Nat → UInt8) (len : Int) : Except Fault (Shell × Int) :=
  if h : streamIdx < 0 ∨ streamIdx ≥ streamCount then .ok (sh, -1)
  else do
    let i : Fin streamCount := ⟨streamIdx.toNat, streamIdx_lt h⟩
    let sh := sh.setColor 0x07
    let r := streamWrite (sh.stream i) buf len
    let sh ← shRenderIn (sh.setStream i r.1)
    return (sh, r.2)

/-! ## The geometry -/

/-- The screen as `sh_init` lays it out: some rows, and maybe a part of one more. -/
structure Screen.Laid (sc : Screen) : Prop where
  width_le : sc.width.toNat ≤ sc.size.toNat
  sum_lt : sc.size.toNat + sc.width.toNat < 4294967296
  height_eq : sc.height = sc.size / sc.width

/-- The cursor is on the screen. -/
structure Screen.Inside (sc : Screen) : Prop extends sc.Laid where
  cursor_lt : sc.cursor.toNat < sc.size.toNat

variable {sc : Screen}

/-- What the characters and the cursor are does not matter to it. -/
theorem Screen.Laid.update (h : sc.Laid) (memory : UInt32 → ShellChar) (cursor : UInt32) (color : UInt8) :
    { sc with memory, cursor, color : Screen }.Laid :=
  ⟨h.width_le, h.sum_lt, h.height_eq⟩

theorem Screen.width_pos (sc : Screen) : 0 < sc.width.toNat := by
  rw [Nat.pos_iff_ne_zero]
  exact fun hzero => sc.width_ne_zero (UInt32.toNat_inj.mp hzero)

theorem Screen.Laid.rows_le (h : sc.Laid) : sc.height.toNat * sc.width.toNat ≤ sc.size.toNat := by
  rw [h.height_eq, UInt32.toNat_div]
  exact Nat.div_mul_le_self _ _

theorem Screen.Laid.height_pos (h : sc.Laid) : 0 < sc.height.toNat := by
  rw [h.height_eq, UInt32.toNat_div]
  exact Nat.div_pos h.width_le sc.width_pos

/-- A cell of a row. -/
theorem Screen.Laid.cell_lt (h : sc.Laid) {row col : Nat} (hrow : row < sc.height.toNat)
    (hcol : col < sc.width.toNat) : UInt32.ofNat row * sc.width + UInt32.ofNat col < sc.size := by
  have hin : row * sc.width.toNat + sc.width.toNat ≤ sc.height.toNat * sc.width.toNat := by
    rw [← Nat.succ_mul]
    exact Nat.mul_le_mul_right _ hrow
  have hrows := h.rows_le
  have hsize := sc.size.toNat_lt
  rw [rowStart_add, UInt32.lt_iff_toNat_lt, UInt32.toNat_ofNat']
  omega

/-! ## Scrolling -/

/-- The same screen, with other characters. -/
def Screen.Recharactered (sc sc' : Screen) : Prop := ∃ memory, sc' = { sc with memory }

theorem scrollRowIn_eq (h : sc.Laid) {row : Nat} (hrow : row + 1 < sc.height.toNat) :
    scrollRowIn sc (UInt32.ofNat (row + 1)) = .ok (scrollRow sc (UInt32.ofNat (row + 1))) ∧
      sc.Recharactered (scrollRow sc (UInt32.ofNat (row + 1))) := by
  apply foldlM_checked sc.Recharactered ⟨sc.memory, rfl⟩
  rintro _ col ⟨memory, rfl⟩ hcol
  have hsrc := h.cell_lt hrow (List.mem_range.mp hcol)
  have hdst := h.cell_lt (Nat.lt_of_succ_lt hrow) (List.mem_range.mp hcol)
  rw [← ofNat_succ_sub_one] at hdst
  refine ⟨?_, _, rfl⟩
  simp only [Screen.loadIn, Screen.storeIn, if_pos hsrc, if_pos hdst, ok_bind]

/-- The rows that move. -/
theorem scrollRowsIn_eq (h : sc.Laid) :
    (List.range (sc.height.toNat - 1)).foldlM (fun sc k => scrollRowIn sc (UInt32.ofNat (k + 1))) sc
      = .ok ((List.range (sc.height.toNat - 1)).foldl (fun sc k => scrollRow sc (UInt32.ofNat (k + 1))) sc) ∧
    sc.Recharactered
      ((List.range (sc.height.toNat - 1)).foldl (fun sc k => scrollRow sc (UInt32.ofNat (k + 1))) sc) := by
  apply foldlM_checked sc.Recharactered ⟨sc.memory, rfl⟩
  rintro _ k ⟨memory, rfl⟩ hk
  have hlaid : { sc with memory : Screen }.Laid := h.update _ _ _
  have hrow : k + 1 < sc.height.toNat := by
    have := List.mem_range.mp hk
    omega
  obtain ⟨heq, memory', hmemory⟩ := scrollRowIn_eq hlaid hrow
  exact ⟨heq, memory', hmemory⟩

/-- **A scroll stays on the screen.** -/
theorem shScrollIn_eq (h : sc.Laid) : shScrollIn sc = .ok (shScroll sc) ∧ sc.Recharactered (shScroll sc) := by
  obtain ⟨hrows, memory, hmemory⟩ := scrollRowsIn_eq h
  have hpos := h.height_pos
  have hlast : sc.height - 1 = UInt32.ofNat (sc.height.toNat - 1) := by
    have hheight : sc.height = UInt32.ofNat (sc.height.toNat - 1 + 1) := by
      rw [Nat.sub_add_cancel hpos, UInt32.ofNat_toNat]
    rw [← ofNat_succ_sub_one, ← hheight]
  unfold shScrollIn shScroll
  rw [hrows, ok_bind, hmemory]
  apply foldlM_checked sc.Recharactered ⟨memory, rfl⟩
  rintro _ col ⟨memory', rfl⟩ hcol
  have hcell := h.cell_lt (Nat.sub_lt hpos Nat.one_pos) (List.mem_range.mp hcol)
  rw [← hlast] at hcell
  refine ⟨?_, _, rfl⟩
  simp only [Screen.storeIn, if_pos hcell]

/-! ## One byte -/

/-- The end of a row, or of a stored character: at most a row past the screen. -/
theorem scrollIfFullIn_eq (h : sc.Laid) (hcursor : sc.cursor.toNat < sc.size.toNat + sc.width.toNat) :
    scrollIfFullIn sc = .ok (scrollIfFull sc) ∧ (scrollIfFull sc).Inside := by
  unfold scrollIfFullIn scrollIfFull
  by_cases hfull : sc.cursor ≥ sc.size
  · obtain ⟨hscroll, memory, hmemory⟩ := shScrollIn_eq h
    have hwidth : sc.width ≤ sc.cursor := by
      rw [ge_iff_le, UInt32.le_iff_toNat_le] at hfull
      rw [UInt32.le_iff_toNat_le]
      exact Nat.le_trans h.width_le hfull
    have hpos := sc.width_pos
    have hle := h.width_le
    rw [if_pos hfull, if_pos hfull, hscroll, hmemory]
    refine ⟨rfl, h.update _ _ _, ?_⟩
    show (sc.cursor - sc.width).toNat < sc.size.toNat
    rw [UInt32.toNat_sub_of_le _ _ hwidth]
    omega
  · rw [if_neg hfull, if_neg hfull]
    exact ⟨rfl, h, UInt32.lt_iff_toNat_lt.mp (UInt32.not_le.mp hfull)⟩

/-- **One byte**: its accesses are on the screen, and so is the cursor after it. -/
theorem renderCharIn_eq (h : sc.Inside) (c : UInt8) :
    renderCharIn sc c = .ok (renderChar sc c) ∧ (renderChar sc c).Inside := by
  have hlt := h.cursor_lt
  have hsum := h.sum_lt
  have hcol : (sc.cursor % sc.width).toNat < sc.width.toNat := by
    rw [UInt32.toNat_mod]
    exact Nat.mod_lt _ sc.width_pos
  have hback : (sc.cursor % sc.width).toNat ≤ sc.cursor.toNat := by
    rw [UInt32.toNat_mod]
    exact Nat.mod_le _ _
  unfold renderCharIn renderChar
  by_cases hreturn : c = 13
  · rw [if_pos hreturn, if_pos hreturn]
    refine ⟨rfl, h.toLaid.update _ _ _, ?_⟩
    show (sc.cursor - sc.cursor % sc.width).toNat < sc.size.toNat
    rw [UInt32.toNat_sub_of_le _ _ (UInt32.le_iff_toNat_le.mpr hback)]
    omega
  by_cases hline : c = newline
  · rw [if_neg hreturn, if_neg hreturn, if_pos hline, if_pos hline]
    apply scrollIfFullIn_eq (h.toLaid.update _ _ _)
    show (sc.cursor + (sc.width - sc.cursor % sc.width)).toNat < sc.size.toNat + sc.width.toNat
    rw [UInt32.toNat_add, UInt32.toNat_sub_of_le _ _ (UInt32.le_iff_toNat_le.mpr (Nat.le_of_lt hcol))]
    omega
  · have hin : sc.cursor < sc.size := UInt32.lt_iff_toNat_lt.mpr hlt
    have hstore : sc.storeIn sc.cursor ⟨c, sc.color⟩ = .ok (sc.store sc.cursor ⟨c, sc.color⟩) := if_pos hin
    rw [if_neg hreturn, if_neg hreturn, if_neg hline, if_neg hline, if_pos hin, if_pos hin, hstore, ok_bind]
    apply scrollIfFullIn_eq (h.toLaid.update _ _ _)
    show (sc.cursor + 1).toNat < sc.size.toNat + sc.width.toNat
    have hpos := sc.width_pos
    have hnext : (sc.cursor + 1).toNat = sc.cursor.toNat + 1 := toNat_add_ofNat (k := 1) (by omega)
    omega

theorem renderBytesIn_eq (h : sc.Inside) (bytes : List UInt8) :
    renderBytesIn sc bytes = .ok (renderBytes sc bytes) ∧ (renderBytes sc bytes).Inside :=
  foldlM_checked Screen.Inside h fun _ c hs _ => renderCharIn_eq hs c

theorem Screen.Inside.setColor (h : sc.Inside) (color : UInt8) : { sc with color := color : Screen }.Inside :=
  ⟨h.toLaid.update _ _ _, h.cursor_lt⟩

/-- Bytes shown one after the other, each in its own colour. -/
theorem Screen.Inside.renderEvents (h : sc.Inside) (shown : List (UInt8 × UInt8)) :
    (renderEvents sc shown).Inside := by
  induction shown generalizing sc with
  | nil => exact h
  | cons e shown ih => exact ih (renderCharIn_eq (h.setColor e.2) e.1).2

/-! ## A call -/

variable {sh : Shell}

/-- **A loop of `sh_render`** ends, within a round for each byte and one more. -/
theorem drainIn_eq {i : Fin streamCount} {fuel : Nat} (hok : (sh.stream i).Ok) (hfuel : (sh.stream i).count < fuel)
    (h : sh.screen.Inside) : drainIn i fuel sh = .ok (drain i fuel sh) ∧ (drain i fuel sh).screen.Inside := by
  induction fuel generalizing sh with
  | zero =>
      have := hok.count_nonneg
      omega
  | succ fuel ih =>
      obtain ⟨hbytes, hinside⟩ := renderBytesIn_eq h (streamRead (sh.stream i) renderBufSize).2
      rw [drainIn, drain, hbytes, ok_bind]
      by_cases hnil : (streamRead (sh.stream i) renderBufSize).2 = []
      · simp only [if_pos hnil]
        exact ⟨rfl, hinside⟩
      · have hless := streamRead_count_lt hnil
        have hround := sh.stream_afterRead i (streamRead (sh.stream i) renderBufSize).1
          (streamRead (sh.stream i) renderBufSize).2
        simp only [if_neg hnil]
        refine @ih (sh.afterRead i _ _) ?_ ?_ hinside
        · rw [hround]
          exact (streamRead_spec hok renderBufSize).1
        · rw [hround]
          omega

theorem drainAllIn_eq {i : Fin streamCount} (hok : (sh.stream i).Ok) (h : sh.screen.Inside) :
    drainAllIn i sh = .ok (drainAll i sh) ∧ (drainAll i sh).screen.Inside := by
  have := hok.count_nonneg
  exact drainIn_eq hok (by omega) h

/-- The streams after any number of rounds. -/
theorem Shell.StreamsOk.drain (h : sh.StreamsOk) (i : Fin streamCount) (fuel : Nat) :
    (drain i fuel sh).StreamsOk := by
  rw [drain_eq]
  exact Shell.StreamsOk.setStream h (drained_spec (h i) fuel).1

/-- **`sh_render`** returns, and every access is on the screen. -/
theorem shRenderIn_eq (hok : sh.StreamsOk) (h : sh.screen.Inside) :
    shRenderIn sh = .ok (shRender sh) ∧ (shRender sh).screen.Inside := by
  obtain ⟨hout, hinside⟩ := drainAllIn_eq (hok streamStdout) h
  have hok' : ((drainAll streamStdout sh).setColor 0x04).StreamsOk := hok.drain streamStdout _
  obtain ⟨herr, hinside'⟩ := drainAllIn_eq (hok' streamStderr) (hinside.setColor 0x04)
  refine ⟨?_, hinside'.setColor _⟩
  unfold shRenderIn
  rw [hout, ok_bind, herr]
  rfl

/-- The pointers of a stream are in its array, and `head` is `count` cells past `tail`. -/
structure Stream.InRange (s : Stream) : Prop where
  head : 0 ≤ s.head ∧ s.head < streamBufSize
  tail : 0 ≤ s.tail ∧ s.tail < streamBufSize
  count : 0 ≤ s.count ∧ s.count ≤ streamBufSize
  head_eq : s.head = (s.tail + s.count) % streamBufSize

theorem Stream.Ok.inRange {s : Stream} (h : s.Ok) : s.InRange := by
  refine ⟨⟨h.head_nonneg, ?_⟩, ⟨h.tail_nonneg, h.tail_lt⟩, ⟨h.count_nonneg, h.count_le⟩, h.head_eq⟩
  rw [h.head_eq]
  exact Int.emod_lt_of_pos _ (by decide)

/-- A call of `sh_write_stream`. -/
structure ConsoleWrite where
  streamIdx : Int
  buf : Nat → UInt8
  len : Int

/-- The shell after some calls. -/
def Shell.writes (sh : Shell) (calls : List ConsoleWrite) : Shell :=
  calls.foldl (fun sh c => (shWriteStream sh c.streamIdx c.buf c.len).1) sh

/-- What is inside its bounds in a shell and throughout a call of `sh_write_stream` there. -/
structure Shell.CallInside (sh : Shell) (c : ConsoleWrite) : Prop where
  streams : ∀ j, (sh.stream j).InRange
  cursor : sh.screen.cursor < sh.screen.size
  /-- Every access passes its check, and the loops of `sh_render` end. -/
  checked : shWriteStreamIn sh c.streamIdx c.buf c.len = .ok (shWriteStream sh c.streamIdx c.buf c.len)
  /-- After any part of the bytes that `sh_render` processes. -/
  between : ∀ i : Fin streamCount, c.streamIdx = i.val → ∀ shown, shown <+: (sh.staged i c.buf c.len).shown →
    (renderEvents sh.screen shown).cursor < sh.screen.size
  /-- When `sh_render` is entered, and after any number of rounds of either loop. -/
  rounds : ∀ i : Fin streamCount, c.streamIdx = i.val → ∀ fuel j,
    ((sh.staged i c.buf c.len).stream j).InRange ∧
    ((drain streamStdout fuel (sh.staged i c.buf c.len)).stream j).InRange ∧
    ((drain streamStderr fuel ((drainAll streamStdout (sh.staged i c.buf c.len)).setColor 0x04)).stream j).InRange
  refused : c.streamIdx < 0 ∨ streamCount ≤ c.streamIdx → shWriteStream sh c.streamIdx c.buf c.len = (sh, -1)

theorem Screen.Inside.below (h : sc.Inside) : sc.cursor < sc.size := UInt32.lt_iff_toNat_lt.mpr h.cursor_lt

theorem renderEvents_size (sc : Screen) (shown : List (UInt8 × UInt8)) :
    (renderEvents sc shown).size = sc.size := by
  induction shown generalizing sc with
  | nil => rfl
  | cons e shown ih =>
      obtain ⟨memory, cursor, h⟩ := renderChar_eq { sc with color := e.2 } e.1
      refine (ih _).trans ?_
      show (renderChar { sc with color := e.2 } e.1).size = sc.size
      rw [h]

/-- The shell when `sh_render` is entered. -/
theorem Shell.StreamsOk.staged (hok : sh.StreamsOk) (i : Fin streamCount) (buf : Nat → UInt8) (len : Int) :
    (sh.staged i buf len).StreamsOk :=
  Shell.StreamsOk.setStream (fun j => hok j) (streamWrite_spec (hok i) buf len).1

theorem shWriteStreamIn_eq (hok : sh.StreamsOk) (h : sh.screen.Inside) (idx : Int) (buf : Nat → UInt8) (len : Int) :
    shWriteStreamIn sh idx buf len = .ok (shWriteStream sh idx buf len) ∧
      (shWriteStream sh idx buf len).1.screen.Inside := by
  unfold shWriteStreamIn shWriteStream
  by_cases hidx : idx < 0 ∨ idx ≥ streamCount
  · rw [dif_pos hidx, dif_pos hidx]
    exact ⟨rfl, h⟩
  · rw [dif_neg hidx, dif_neg hidx]
    obtain ⟨hrender, hinside⟩ := shRenderIn_eq (hok.staged ⟨idx.toNat, streamIdx_lt hidx⟩ buf len) (h.setColor 0x07)
    refine ⟨?_, hinside⟩
    show (shRenderIn (sh.staged ⟨idx.toNat, streamIdx_lt hidx⟩ buf len) >>= fun sh' =>
      pure (sh', (streamWrite (sh.stream ⟨idx.toNat, streamIdx_lt hidx⟩) buf len).2)) = _
    rw [hrender, ok_bind]
    rfl

/-- **One call.** -/
theorem Shell.callInside (hok : sh.StreamsOk) (h : sh.screen.Inside) (c : ConsoleWrite) : sh.CallInside c where
  streams j := (hok j).inRange
  cursor := h.below
  checked := (shWriteStreamIn_eq hok h c.streamIdx c.buf c.len).1
  between i _ shown _ := by
    rw [← renderEvents_size sh.screen shown]
    exact (h.renderEvents shown).below
  rounds i _ fuel j := by
    have hstaged := hok.staged i c.buf c.len
    have hout : ((drainAll streamStdout (sh.staged i c.buf c.len)).setColor 0x04).StreamsOk :=
      hstaged.drain streamStdout _
    exact ⟨(hstaged j).inRange, (hstaged.drain streamStdout fuel j).inRange,
      (hout.drain streamStderr fuel j).inRange⟩
  refused hidx := dif_pos hidx

theorem shInit_inside {data : Fin streamCount → Vector UInt8 streamBufSize} {memory : UInt32 → ShellChar}
    {width size : UInt32} {sh : Shell} (h : shInit data memory width size = .ok sh)
    (hle : width.toNat ≤ size.toNat) (hsum : size.toNat + width.toNat < 4294967296) : sh.screen.Inside := by
  unfold shInit at h
  by_cases hzero : width = 0
  · rw [dif_pos hzero] at h
    cases h
  rw [dif_neg hzero] at h
  obtain rfl := Except.ok.inj h
  obtain ⟨blanks, hclear, -⟩ := shClear_spec ⟨memory, size, 0, width, size / width, 0x07, hzero⟩
  have hpos : width.toNat ≠ 0 := fun heq => hzero (UInt32.toNat_inj.mp heq)
  simp only [hclear]
  refine ⟨⟨hle, hsum, rfl⟩, ?_⟩
  show 0 < size.toNat
  omega

/-- Shells after any calls. -/
theorem Shell.writes_inside (hok : sh.StreamsOk) (h : sh.screen.Inside) (calls : List ConsoleWrite) :
    (sh.writes calls).StreamsOk ∧ (sh.writes calls).screen.Inside := by
  induction calls generalizing sh with
  | nil => exact ⟨hok, h⟩
  | cons c calls ih =>
      exact ih (hok.shWriteStream c.streamIdx c.buf c.len) (shWriteStreamIn_eq hok h c.streamIdx c.buf c.len).2

/-- **The console stays in its bounds**: on a screen of any geometry, after any calls of
    `sh_write_stream`, and throughout the next one. -/
theorem shInit_callInside (data : Fin streamCount → Vector UInt8 streamBufSize) (memory : UInt32 → ShellChar)
    {width size : UInt32} (hwidth : 1 ≤ width.toNat) (hle : width.toNat ≤ size.toNat)
    (hsum : size.toNat + width.toNat < 4294967296) :
    ∃ sh₀, shInit data memory width size = .ok sh₀ ∧
      ∀ (calls : List ConsoleWrite) (c : ConsoleWrite), (sh₀.writes calls).CallInside c := by
  have hne : width ≠ 0 := by
    rintro rfl
    exact absurd hwidth (by decide)
  have hinit : ∃ sh₀, shInit data memory width size = .ok sh₀ := ⟨_, dif_neg hne⟩
  obtain ⟨sh₀, hinit⟩ := hinit
  refine ⟨sh₀, hinit, fun calls c => ?_⟩
  have hreset : sh₀.StreamsOk := by
    intro i
    rw [shInit_stream hinit]
    exact Stream.ok_of_reset rfl rfl rfl
  obtain ⟨hok, hinside⟩ := Shell.writes_inside hreset (shInit_inside hinit hle hsum) calls
  exact Shell.callInside hok hinside c

/-- A screen of seven cells, with rows of three. -/
theorem shInit_callInside_seven : ∃ sh₀, shInit (fun _ => Vector.replicate streamBufSize 0) (fun _ => ⟨0, 0⟩) 3 7
    = .ok sh₀ ∧ ∀ (calls : List ConsoleWrite) (c : ConsoleWrite), (sh₀.writes calls).CallInside c :=
  shInit_callInside _ _ (by decide) (by decide) (by decide)

end Drupe
