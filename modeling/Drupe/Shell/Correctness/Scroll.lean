import Drupe.Lib.Page
import Drupe.Lib.Run
import Drupe.Lib.Store
import Drupe.Shell.Correctness.Drain

/-!
# `Shell.Correctness.Scroll` — the screen is a window onto an unbounded page

The loops of `shScroll` are one copy and one fill (`shScroll_eq`), and the copy stores behind what it
still has to read, so the rows move up whole (`shScroll_spec`). With that each byte keeps the screen a
window of `height` rows onto a `Page` (`Screen.Views.renderChar`): the cell below the last row of the
window is blank on the page, which is why a scrolled screen may be blank there.

`Shell.shown` lists what `shRender` shows, with its colours. A run of the console is any sequence of such
calls with anything done to the streams and the colour in between; `screen_refines_page` follows it byte
by byte.
-/

namespace Drupe

open Lib

/-! ## Loops over the screen -/

theorem Screen.store_eq (sc : Screen) (i : UInt32) (c : ShellChar) :
    sc.store i c = { sc with memory := Function.update sc.memory i c } := by
  have hmem : (fun j => if j = i then c else sc.memory j) = Function.update sc.memory i c := by
    funext j
    rw [Function.update_apply]
  unfold Screen.store
  rw [hmem]

/-- A loop that stores one character after the other. -/
theorem foldl_store {f : Screen → Nat → Screen} {dst : Nat → UInt32}
    {val : (UInt32 → ShellChar) → Nat → ShellChar} {sc : Screen}
    (hf : ∀ m i, f { sc with memory := m } i
      = { sc with memory := Function.update m (dst i) (val m i) }) (n : Nat) :
    (List.range n).foldl f sc = { sc with memory := store dst val n 0 sc.memory } := by
  induction n with
  | zero => rfl
  | succ n ih =>
      rw [List.range_succ, List.foldl_append, ih, List.foldl_cons, List.foldl_nil, hf, store_append,
        Nat.zero_add]
      rfl

theorem scrollRow_eq (sc : Screen) (row : UInt32) :
    scrollRow sc row = { sc with
      memory := store (fun col => (row - 1) * sc.width + UInt32.ofNat col)
        (fun m col => m (row * sc.width + UInt32.ofNat col)) sc.width.toNat 0 sc.memory } :=
  foldl_store (fun _ _ => Screen.store_eq _ _ _) _

theorem rowStart_add (width : UInt32) (row col : Nat) :
    UInt32.ofNat row * width + UInt32.ofNat col = UInt32.ofNat (row * width.toNat + col) := by
  rw [UInt32.ofNat_add, UInt32.ofNat_mul, UInt32.ofNat_toNat]

theorem ofNat_succ_sub_one (n : Nat) : UInt32.ofNat (n + 1) - 1 = UInt32.ofNat n := by
  rw [UInt32.ofNat_add]
  exact UInt32.add_sub_cancel _ _

/-- The rows that `shScroll` moves are one copy, of the cells from the second row on to the first. -/
theorem scrollRows_eq (sc : Screen) (rows : Nat) :
    (List.range rows).foldl (fun sc k => scrollRow sc (UInt32.ofNat (k + 1))) sc
      = { sc with
          memory := store (fun j => UInt32.ofNat j) (fun m j => m (UInt32.ofNat (j + sc.width.toNat)))
            (rows * sc.width.toNat) 0 sc.memory } := by
  induction rows with
  | zero =>
      rw [Nat.zero_mul]
      rfl
  | succ rows ih =>
      rw [List.range_succ, List.foldl_append, ih, List.foldl_cons, List.foldl_nil, scrollRow_eq, Nat.succ_mul,
        store_append, Nat.zero_add, ofNat_succ_sub_one]
      congr 1
      -- cell `t` of row `rows` is cell `rows * width + t` of all
      apply store_congr
      · intro t _
        rw [Nat.zero_add, rowStart_add]
      · intro t _ m
        show m (_ * sc.width + _) = m _
        rw [Nat.zero_add, rowStart_add, Nat.succ_mul, Nat.add_right_comm]

/-- The geometry of a screen of `height` rows of `width` characters. -/
structure Screen.Sized (sc : Screen) (width height : Nat) : Prop where
  width_eq : sc.width.toNat = width
  height_eq : sc.height.toNat = height
  size_eq : sc.size.toNat = width * height
  height_pos : 0 < height

/-- What becomes of the characters, and of the place where they are, does not matter to it. -/
theorem Screen.Sized.update {sc : Screen} {width height : Nat} (h : sc.Sized width height)
    (memory : UInt32 → ShellChar) (cursor : UInt32) (color : UInt8) :
    { sc with memory, cursor, color : Screen }.Sized width height :=
  ⟨h.width_eq, h.height_eq, h.size_eq, h.height_pos⟩

/-- The last row ends where the screen does. -/
theorem Screen.Sized.lastRow_end {sc : Screen} {width height : Nat} (h : sc.Sized width height) :
    (height - 1) * width + width = width * height := by
  have := h.height_pos
  rw [← Nat.succ_mul, Nat.mul_comm]
  congr 1
  omega

/-- `shScroll` changes the characters only. -/
theorem shScroll_eq (sc : Screen) : shScroll sc = { sc with
    memory := store (fun col => (sc.height - 1) * sc.width + UInt32.ofNat col) (fun _ _ => ⟨32, sc.color⟩)
      sc.width.toNat 0 (store (fun j => UInt32.ofNat j) (fun m j => m (UInt32.ofNat (j + sc.width.toNat)))
        ((sc.height.toNat - 1) * sc.width.toNat) 0 sc.memory) } := by
  unfold shScroll
  rw [scrollRows_eq]
  exact foldl_store (fun _ _ => Screen.store_eq _ _ _) _

/-- **Scrolling**: each row but the first moves up, the last one becomes blank, and nothing but the characters
    changes. The copy runs up through the memory it reads, and stores behind what it still has to read. -/
theorem shScroll_spec {sc : Screen} {width height : Nat} (h : sc.Sized width height) :
    ∃ memory, shScroll sc = { sc with memory } ∧
      (∀ j < (height - 1) * width, memory (UInt32.ofNat j) = sc.memory (UInt32.ofNat (j + width))) ∧
      ∀ c < width, memory (UInt32.ofNat ((height - 1) * width + c)) = ⟨32, sc.color⟩ := by
  obtain ⟨rfl, rfl, hsize, hpos⟩ := h
  obtain ⟨rows, hrows⟩ : ∃ rows, sc.height.toNat = rows + 1 := ⟨sc.height.toNat - 1, by omega⟩
  have hend : rows * sc.width.toNat + sc.width.toNat < 4294967296 := by
    rw [← Nat.succ_mul, Nat.succ_eq_add_one, ← hrows, Nat.mul_comm, ← hsize]
    exact sc.size.toNat_lt
  have hlast : sc.height - 1 = UInt32.ofNat rows := by
    rw [← ofNat_succ_sub_one, ← hrows, UInt32.ofNat_toNat]
  rw [hrows, Nat.add_sub_cancel]
  -- the copy: what an iteration reads is ahead of all that was stored before it
  have hmoved := @store_transferred _ _ _ (fun j => UInt32.ofNat j)
    (fun j => sc.memory (UInt32.ofNat (j + sc.width.toNat)))
    (fun m j => m (UInt32.ofNat (j + sc.width.toNat))) (rows * sc.width.toNat) sc.memory
    (fun j k hjk hk heq => absurd (ofNat_inj (by omega) (by omega) heq) (by omega))
    (fun k hk hprev => hprev.frame _ fun j hj heq =>
      absurd (ofNat_inj (by omega) (by omega) heq) (by omega))
  generalize hcopied : store (fun j => UInt32.ofNat j) _ _ _ _ = copied at hmoved
  have hblank := @store_transferred _ _ _ (fun col => UInt32.ofNat (rows * sc.width.toNat + col))
    (fun _ => (⟨32, sc.color⟩ : ShellChar)) (fun _ _ => ⟨32, sc.color⟩) sc.width.toNat copied
    (fun j k hjk hk heq => absurd (ofNat_inj (by omega) (by omega) heq) (by omega))
    (fun _ _ _ => rfl)
  refine ⟨_, ?_, ?_, hblank.written⟩
  · rw [shScroll_eq, hrows, Nat.add_sub_cancel, hcopied]
    simp only [hlast, rowStart_add]
  · intro j hj
    rw [hblank.frame]
    · exact hmoved.written j hj
    · intro col hcol heq
      have := ofNat_inj (by omega) (by omega) heq
      omega

theorem shClear_spec (sc : Screen) :
    ∃ memory, shClear sc = { sc with memory, cursor := 0 } ∧
      ∀ i < sc.size.toNat, memory (UInt32.ofNat i) = ⟨32, sc.color⟩ := by
  have hsize := sc.size.toNat_lt
  have hblank := @store_transferred _ _ _ (fun i => UInt32.ofNat i) (fun _ => (⟨32, sc.color⟩ : ShellChar))
    (fun _ _ => ⟨32, sc.color⟩) sc.size.toNat sc.memory
    (fun j k hjk hk heq => absurd (ofNat_inj (by omega) (by omega) heq) (by omega))
    (fun _ _ _ => rfl)
  have hloop := @foldl_store (fun sc i => sc.store (UInt32.ofNat i) ⟨32, sc.color⟩) (fun i => UInt32.ofNat i)
    (fun _ _ => ⟨32, sc.color⟩) { sc with cursor := 0 } (fun _ _ => Screen.store_eq _ _ _) sc.size.toNat
  refine ⟨_, ?_, hblank.written⟩
  unfold shClear
  rw [hloop]

/-! ## The window -/

/-- What the screen shows of a cell of the page: the character and colour stored there, or a blank. -/
def Displays : Option ShellChar → ShellChar → Prop
  | some a, shown => shown = a
  | none, shown => shown.character = 32

/-- Character `col` of row `row` of the screen. -/
def Screen.at (sc : Screen) (row col : Nat) : ShellChar :=
  sc.memory (UInt32.ofNat (row * sc.width.toNat + col))

/-- **The refinement**: the screen is the window of `height` rows onto the page, and its cursor stands at the
    page's cursor. -/
structure Screen.Views (sc : Screen) {width : Nat} (height : Nat) (p : Page ShellChar width) : Prop where
  sized : sc.Sized width height
  cursor_eq : sc.cursor.toNat = p.windowRow height * width + p.col
  seen : p.Seen Displays height sc.at

/-- The cursor has left the last row of the window. -/
structure Screen.AtEnd (sc : Screen) {width : Nat} (height : Nat) (p : Page ShellChar width) : Prop where
  views : ∃ cursor, { sc with cursor : Screen }.Views height p
  cursor_eq : sc.cursor.toNat = width * height
  bottom : height ≤ p.windowRow height + 1

theorem Screen.AtEnd.sized {sc : Screen} {width height : Nat} {p : Page ShellChar width} (h : sc.AtEnd height p) :
    sc.Sized width height := by
  obtain ⟨cursor, hviews⟩ := h.views
  exact hviews.sized.update sc.memory sc.cursor sc.color

/-- The cursor has moved on, and is not compared with `size` yet. -/
inductive Screen.Due {width : Nat} (height : Nat) : Screen → Page ShellChar width → Prop
  | inside {sc : Screen} {p : Page ShellChar width} (h : sc.Views height p) : Due height sc p
  | past {sc : Screen} {p : Page ShellChar width} (h : sc.AtEnd height p) : Due height sc p.nextRow

/-- What a byte with its colour does to the page. -/
def pageByte {width : Nat} (p : Page ShellChar width) (e : UInt8 × UInt8) : Page ShellChar width :=
  if e.1 = 13 then p.home
  else if e.1 = newline then p.nextRow
  else (p.store ⟨e.1, e.2⟩).forward

/-- Bytes shown one after the other, each in its own colour. -/
def renderEvents (sc : Screen) (shown : List (UInt8 × UInt8)) : Screen :=
  shown.foldl (fun sc e => renderChar { sc with color := e.2 } e.1) sc

section Views

variable {sc : Screen} {width height : Nat} {p : Page ShellChar width}

theorem Screen.Views.setColor (h : sc.Views height p) (color : UInt8) :
    { sc with color := color : Screen }.Views height p :=
  ⟨h.sized.update _ _ _, h.cursor_eq, h.seen⟩

theorem Screen.AtEnd.setColor (h : sc.AtEnd height p) (color : UInt8) :
    { sc with color := color : Screen }.AtEnd height p := by
  obtain ⟨⟨cursor, hviews⟩, hcursor, hbottom⟩ := h
  exact ⟨⟨cursor, hviews.setColor color⟩, hcursor, hbottom⟩

/-- The cursor is on the screen, and so is the rest of its row. -/
theorem Screen.Views.row_inside (h : sc.Views height p) :
    p.windowRow height * width + width ≤ width * height := by
  have hrow : p.windowRow height + 1 ≤ height := Page.windowRow_lt h.sized.height_pos
  calc p.windowRow height * width + width = (p.windowRow height + 1) * width := (Nat.succ_mul _ _).symm
    _ ≤ height * width := Nat.mul_le_mul_right width hrow
    _ = width * height := Nat.mul_comm _ _

/-- **The cursor is below `size`.** -/
theorem Screen.Views.cursor_lt (h : sc.Views height p) : sc.cursor < sc.size := by
  have hin := h.row_inside
  have hcol := p.col_lt
  rw [UInt32.lt_iff_toNat_lt, h.cursor_eq, h.sized.size_eq]
  omega

/-- The column of the cursor, as the source computes it. -/
theorem Screen.Views.column_eq (h : sc.Views height p) : (sc.cursor % sc.width).toNat = p.col := by
  rw [UInt32.toNat_mod, h.cursor_eq, h.sized.width_eq, Nat.mul_comm, Nat.mul_add_mod]
  exact Nat.mod_eq_of_lt p.col_lt

theorem Screen.Views.home (h : sc.Views height p) :
    { sc with cursor := sc.cursor - sc.cursor % sc.width : Screen }.Views height p.home := by
  have hle : sc.cursor % sc.width ≤ sc.cursor := by
    rw [UInt32.le_iff_toNat_le, UInt32.toNat_mod]
    exact Nat.mod_le _ _
  refine ⟨h.sized.update _ _ _, ?_, h.seen.home⟩
  show (sc.cursor - sc.cursor % sc.width).toNat = p.windowRow height * width + 0
  rw [UInt32.toNat_sub_of_le _ _ hle, h.column_eq, h.cursor_eq]
  omega

/-- The cursor at the end of its row: it stands in the next row already, or past the last one. -/
theorem Screen.Views.endOfRow (h : sc.Views height p) {cursor : UInt32}
    (hcursor : cursor.toNat = p.windowRow height * width + width) :
    { sc with cursor : Screen }.Due height p.nextRow := by
  have hsized : { sc with cursor : Screen }.Sized width height := h.sized.update _ _ _
  rcases Nat.lt_or_ge (p.windowRow height + 1) height with hin | hout
  · obtain ⟨-, hnext⟩ := Page.nextRow_inside hin
    refine .inside ⟨hsized, ?_, h.seen.nextRow hin⟩
    show cursor.toNat = p.nextRow.windowRow height * width + 0
    rw [hcursor, hnext, Nat.succ_mul, Nat.add_zero]
  · have hrow := Page.windowRow_lt (p := p) h.sized.height_pos
    refine .past ⟨⟨sc.cursor, h⟩, ?_, hout⟩
    have hbottom : p.windowRow height + 1 = height := by omega
    show cursor.toNat = width * height
    rw [hcursor, ← Nat.succ_mul, Nat.succ_eq_add_one, hbottom, Nat.mul_comm]

/-- The cursor where a newline puts it. -/
theorem Screen.Views.nextLine (h : sc.Views height p) :
    { sc with cursor := sc.cursor + (sc.width - sc.cursor % sc.width) : Screen }.Due height p.nextRow := by
  have hle : sc.cursor % sc.width ≤ sc.width := by
    rw [UInt32.le_iff_toNat_le, h.column_eq, h.sized.width_eq]
    exact Nat.le_of_lt p.col_lt
  have hin := h.row_inside
  have hcol := p.col_lt
  have hsize := sc.size.toNat_lt
  rw [h.sized.size_eq] at hsize
  apply h.endOfRow
  rw [UInt32.toNat_add, UInt32.toNat_sub_of_le _ _ hle, h.column_eq, h.cursor_eq, h.sized.width_eq]
  omega

theorem Screen.Views.forward (h : sc.Views height p) :
    { sc with cursor := sc.cursor + 1 : Screen }.Due height p.forward := by
  have hlt := UInt32.lt_iff_toNat_lt.mp h.cursor_lt
  have hsize := sc.size.toNat_lt
  have hnext : (sc.cursor + 1).toNat = p.windowRow height * width + (p.col + 1) := by
    rw [← Nat.add_assoc, ← h.cursor_eq]
    exact toNat_add_ofNat (k := 1) (by omega)
  unfold Page.forward
  by_cases hmore : p.col + 1 < width
  · rw [dif_pos hmore]
    exact .inside ⟨h.sized.update _ _ _, hnext, h.seen⟩
  · have hcol := p.col_lt
    rw [dif_neg hmore]
    exact h.endOfRow (by omega)

/-- A scrolled window, whose cursor goes back by a row. -/
theorem Screen.AtEnd.scrolled (h : sc.AtEnd height p) {memory : UInt32 → ShellChar}
    (hup : ∀ j < (height - 1) * width, memory (UInt32.ofNat j) = sc.memory (UInt32.ofNat (j + width)))
    (hlast : ∀ c < width, (memory (UInt32.ofNat ((height - 1) * width + c))).character = 32) :
    { sc with memory, cursor := sc.cursor - sc.width : Screen }.Views height p.nextRow := by
  have hsized := h.sized
  obtain ⟨⟨cursor, hviews⟩, hcursor, hout⟩ := h
  obtain ⟨-, hnext⟩ := Page.nextRow_outside hsized.height_pos hout
  have hend := hsized.lastRow_end
  have hwidth : sc.width ≤ sc.cursor := by
    rw [UInt32.le_iff_toNat_le, hsized.width_eq, hcursor, ← hend]
    exact Nat.le_add_left _ _
  refine ⟨hsized.update _ _ _, ?_, hviews.seen.scroll hout ?_ ?_⟩
  · show (sc.cursor - sc.width).toNat = p.nextRow.windowRow height * width + 0
    rw [UInt32.toNat_sub_of_le _ _ hwidth, hcursor, hsized.width_eq, hnext, ← hend]
    omega
  · intro k hk c hc
    have hcell : k * width + c < (height - 1) * width := by
      have : (k + 1) * width ≤ (height - 1) * width := Nat.mul_le_mul_right width (by omega)
      rw [Nat.succ_mul] at this
      omega
    show memory (UInt32.ofNat (k * sc.width.toNat + c)) = sc.memory (UInt32.ofNat ((k + 1) * sc.width.toNat + c))
    rw [hsized.width_eq, hup _ hcell, Nat.succ_mul, Nat.add_right_comm]
  · intro c hc
    show (memory (UInt32.ofNat ((height - 1) * sc.width.toNat + c))).character = 32
    rw [hsized.width_eq, hlast c hc]

/-- **The bound of the cursor**: past the last row, the screen scrolls. -/
theorem Screen.Due.scrollIfFull (h : sc.Due height p) : (scrollIfFull sc).Views height p := by
  unfold Drupe.scrollIfFull
  cases h with
  | inside h =>
      rw [if_neg (UInt32.not_le.mpr h.cursor_lt)]
      exact h
  | past h =>
      obtain ⟨memory, hscroll, hup, hlast⟩ := shScroll_spec h.sized
      have hfull : sc.cursor ≥ sc.size := by
        rw [ge_iff_le, UInt32.le_iff_toNat_le, h.sized.size_eq, h.cursor_eq]
      rw [if_pos hfull]
      simp only [hscroll]
      exact h.scrolled hup fun c hc => by rw [hlast c hc]

/-- Two places of a screen are the same only if their rows and columns are. -/
theorem place_inj {width k k' c c' : Nat} (hc : c < width) (hc' : c' < width)
    (h : k * width + c = k' * width + c') : k = k' ∧ c = c' := by
  have hpos : 0 < width := Nat.lt_of_le_of_lt (Nat.zero_le c) hc
  have hrow := congrArg (· / width) h
  simp only [Nat.mul_comm _ width, Nat.mul_add_div hpos, Nat.div_eq_of_lt hc, Nat.div_eq_of_lt hc',
    Nat.add_zero] at hrow
  subst hrow
  exact ⟨rfl, Nat.add_left_cancel h⟩

theorem Screen.Views.store (h : sc.Views height p) (a : ShellChar) :
    (sc.store sc.cursor a).Views height (p.store a) := by
  refine ⟨h.sized.update _ _ _, h.cursor_eq, ?_⟩
  have hcursor : sc.cursor = UInt32.ofNat (p.windowRow height * sc.width.toNat + p.col) := by
    rw [h.sized.width_eq, ← h.cursor_eq, UInt32.ofNat_toNat]
  apply h.seen.store
  · show (if UInt32.ofNat (p.windowRow height * sc.width.toNat + p.col) = sc.cursor then a else _) = a
    rw [if_pos hcursor.symm]
  · intro k hk c hc hne
    show (if UInt32.ofNat (k * sc.width.toNat + c) = sc.cursor then a else sc.at k c) = sc.at k c
    rw [if_neg]
    intro heq
    have hsize := sc.size.toNat_lt
    have hin := h.row_inside
    have hcol := p.col_lt
    have hplace : k * width + width ≤ width * height := by
      rw [← Nat.succ_mul, Nat.mul_comm width]
      exact Nat.mul_le_mul_right width hk
    rw [h.sized.size_eq] at hsize
    rw [hcursor, h.sized.width_eq] at heq
    exact hne (place_inj hc hcol (ofNat_inj (by omega) (by omega) heq))

/-- **One byte.** -/
theorem Screen.Views.renderChar (h : sc.Views height p) (c : UInt8) :
    (renderChar sc c).Views height (pageByte p (c, sc.color)) := by
  unfold Drupe.renderChar pageByte
  by_cases hreturn : c = 13
  · rw [if_pos hreturn, if_pos hreturn]
    exact h.home
  by_cases hline : c = newline
  · rw [if_neg hreturn, if_neg hreturn, if_pos hline, if_pos hline]
    exact h.nextLine.scrollIfFull
  · rw [if_neg hreturn, if_neg hreturn, if_neg hline, if_neg hline, if_pos h.cursor_lt]
    exact (h.store ⟨c, sc.color⟩).forward.scrollIfFull

/-- **Any bytes**, each in its colour. -/
theorem Screen.Views.renderEvents (h : sc.Views height p) (shown : List (UInt8 × UInt8)) :
    (renderEvents sc shown).Views height (shown.foldl pageByte p) := by
  induction shown generalizing sc p with
  | nil => exact h
  | cons e shown ih => exact ih ((h.setColor e.2).renderChar e.1)

end Views

/-- `shInit` shows an empty page. -/
theorem shInit_views {data : Fin streamCount → Vector UInt8 streamBufSize} {memory : UInt32 → ShellChar}
    {width size : UInt32} {height : Nat} {sh : Shell} (h : shInit data memory width size = .ok sh)
    (hwidth : 0 < width.toNat) (hheight : 0 < height) (hsize : size.toNat = width.toNat * height) :
    sh.screen.Views height (Page.blank hwidth) := by
  unfold shInit at h
  by_cases hzero : width = 0
  · rw [dif_pos hzero] at h
    cases h
  rw [dif_neg hzero] at h
  obtain rfl := Except.ok.inj h
  obtain ⟨blanks, hclear, hblank⟩ := shClear_spec ⟨memory, size, 0, width, size / width, 0x07, hzero⟩
  simp only [hclear]
  refine ⟨⟨rfl, ?_, hsize, hheight⟩, ?_, ?_⟩
  · show (size / width).toNat = height
    rw [UInt32.toNat_div, hsize, Nat.mul_div_cancel_left _ hwidth]
  · have hrow : (Page.blank (α := ShellChar) hwidth).windowRow height = 0 :=
      Nat.eq_zero_of_le_zero (Nat.sub_le 0 _)
    rw [hrow, Nat.zero_mul]
    rfl
  · apply Page.seen_blank
    intro k hk c hc
    have hcell : k * width.toNat + width.toNat ≤ width.toNat * height := by
      rw [← Nat.succ_mul, Nat.mul_comm width.toNat]
      exact Nat.mul_le_mul_right _ hk
    show (blanks (UInt32.ofNat (k * width.toNat + c))).character = 32
    rw [hblank _ (by show _ < size.toNat; omega)]

/-! ## What is shown -/

/-- What a loop of `sh_render` reads of a stream: the stream it leaves, and the bytes. -/
def drained : (fuel : Nat) → Stream → Stream × List UInt8
  | 0, s => (s, [])
  | fuel + 1, s =>
    let r := streamRead s renderBufSize
    if r.2 = [] then r
    else
      let rest := drained fuel r.1
      (rest.1, r.2 ++ rest.2)

theorem drain_eq (i : Fin streamCount) (fuel : Nat) (sh : Shell) :
    drain i fuel sh = sh.afterRead i (drained fuel (sh.stream i)).1 (drained fuel (sh.stream i)).2 := by
  induction fuel generalizing sh with
  | zero => exact (sh.afterRead_nil i).symm
  | succ fuel ih =>
      rw [drain, drained]
      by_cases hnil : (streamRead (sh.stream i) renderBufSize).2 = []
      · simp only [if_pos hnil]
      · simp only [if_neg hnil]
        rw [ih, Shell.stream_afterRead, Shell.afterRead_afterRead]

/-- The bytes that `stream_read` delivers to the loop for stream `i`. -/
def Shell.delivered (sh : Shell) (i : Fin streamCount) : List UInt8 :=
  (drained ((sh.stream i).count.toNat + 1) (sh.stream i)).2

/-- What a call of `sh_render` shows: byte and colour, in order. -/
def Shell.shown (sh : Shell) : List (UInt8 × UInt8) :=
  ((sh.delivered streamStdout).map fun c => (c, sh.screen.color)) ++
  (sh.delivered streamStderr).map fun c => (c, 0x04)

/-- A byte changes the characters and the cursor only. -/
theorem renderChar_eq (sc : Screen) (c : UInt8) : ∃ memory cursor, renderChar sc c = { sc with memory, cursor } := by
  have hscroll : ∀ sc : Screen, ∃ memory cursor, scrollIfFull sc = { sc with memory, cursor } := by
    intro sc
    unfold scrollIfFull
    split
    · rw [shScroll_eq]
      exact ⟨_, _, rfl⟩
    · exact ⟨_, _, rfl⟩
  unfold renderChar
  split
  · exact ⟨_, _, rfl⟩
  · split
    · obtain ⟨memory, cursor, h⟩ := hscroll { sc with cursor := sc.cursor + (sc.width - sc.cursor % sc.width) }
      exact ⟨memory, cursor, h⟩
    · split
      · obtain ⟨memory, cursor, h⟩ := hscroll { sc.store sc.cursor ⟨c, sc.color⟩ with cursor := sc.cursor + 1 }
        exact ⟨memory, cursor, h⟩
      · exact ⟨_, _, rfl⟩

theorem renderChar_color (sc : Screen) (c : UInt8) : (renderChar sc c).color = sc.color := by
  obtain ⟨memory, cursor, h⟩ := renderChar_eq sc c
  rw [h]

theorem renderBytes_color (sc : Screen) (bytes : List UInt8) : (renderBytes sc bytes).color = sc.color := by
  induction bytes generalizing sc with
  | nil => rfl
  | cons c bytes ih => exact (ih (renderChar sc c)).trans (renderChar_color sc c)

/-- Bytes in the colour of the screen. -/
theorem renderEvents_own (sc : Screen) (bytes : List UInt8) :
    renderEvents sc (bytes.map fun c => (c, sc.color)) = renderBytes sc bytes := by
  induction bytes generalizing sc with
  | nil => rfl
  | cons c bytes ih =>
      have hrest := ih (renderChar sc c)
      rw [renderChar_color] at hrest
      exact hrest

/-- The colour of the screen beforehand does not matter. -/
theorem renderEvents_setColor (sc : Screen) (color last : UInt8) (shown : List (UInt8 × UInt8)) :
    { renderEvents { sc with color } shown with color := last }
      = { renderEvents sc shown with color := last } := by
  cases shown <;> rfl

theorem drainAll_screen (i : Fin streamCount) (sh : Shell) :
    (drainAll i sh).screen = renderBytes sh.screen (sh.delivered i) :=
  congrArg Shell.screen (drain_eq i _ sh)

/-- **`shRender`** shows what its two loops are delivered. -/
theorem shRender_screen (sh : Shell) :
    (shRender sh).screen = { renderEvents sh.screen sh.shown with color := sh.screen.color } := by
  have hcolor : (drainAll streamStdout sh).screen.color = sh.screen.color := by
    rw [drainAll_screen, renderBytes_color]
  -- the first loop leaves stderr alone
  have herr : ((drainAll streamStdout sh).setColor 0x04).delivered streamStderr
      = sh.delivered streamStderr := by
    have hsecond : ((drainAll streamStdout sh).setColor 0x04).stream streamStderr
        = sh.stream streamStderr := drain_frame (by decide) _ sh
    rw [Shell.delivered, hsecond]
    rfl
  have hred := renderEvents_own { (drainAll streamStdout sh).screen with color := 0x04 }
    (sh.delivered streamStderr)
  have hshown : renderEvents sh.screen sh.shown
      = renderEvents (drainAll streamStdout sh).screen ((sh.delivered streamStderr).map fun c => (c, 0x04)) := by
    rw [drainAll_screen, ← renderEvents_own]
    exact List.foldl_append
  calc (shRender sh).screen
      = { (drainAll streamStderr ((drainAll streamStdout sh).setColor 0x04)).screen with
          color := (drainAll streamStdout sh).screen.color } := rfl
    _ = { renderEvents { (drainAll streamStdout sh).screen with color := 0x04 }
            ((sh.delivered streamStderr).map fun c => (c, 0x04)) with color := sh.screen.color } := by
        rw [drainAll_screen, herr, hcolor, hred]
        rfl
    _ = { renderEvents sh.screen sh.shown with color := sh.screen.color } := by
        rw [hshown]
        exact renderEvents_setColor _ _ _ _

/-! ## Runs -/

/-- A shell between and in its calls: anything happens to its streams and its colour, and `sh_render` is
    called. The label is what is shown. -/
inductive ConsoleStep : Shell → List (UInt8 × UInt8) → Shell → Prop
  | other {sh : Shell} (streams : Vector Stream streamCount) (color : UInt8) :
      ConsoleStep sh [] ⟨{ sh.screen with color }, streams⟩
  | render {sh : Shell} : ConsoleStep sh sh.shown (shRender sh)

/-- A call of `sh_write_stream` is such steps. -/
theorem shWriteStream_run (sh : Shell) (i : Int) (buf : Nat → UInt8) (len : Int) :
    ∃ vis, Run ConsoleStep sh vis (shWriteStream sh i buf len).1 := by
  unfold shWriteStream
  by_cases hi : i < 0 ∨ i ≥ streamCount
  · rw [dif_pos hi]
    exact ⟨[], .nil⟩
  · rw [dif_neg hi]
    exact ⟨_, .cons (.other _ 0x07) (.cons .render .nil)⟩

/-- All that a run shows. -/
def shownIn (vis : List (Shell × List (UInt8 × UInt8))) : List (UInt8 × UInt8) := vis.flatMap fun x => x.2

theorem consoleRun_screen {sh sh' : Shell} {vis : List (Shell × List (UInt8 × UInt8))}
    (h : Run ConsoleStep sh vis sh') :
    sh'.screen = { renderEvents sh.screen (shownIn vis) with color := sh'.screen.color } := by
  induction h with
  | nil => rfl
  | @cons s shown t vis u hstep _ ih =>
      rw [ih]
      have hsplit : renderEvents s.screen (shownIn ((s, shown) :: vis))
          = renderEvents (renderEvents s.screen shown) (shownIn vis) := List.foldl_append
      rw [hsplit]
      cases hstep with
      | other streams color => exact renderEvents_setColor _ _ _ _
      | render =>
          rw [shRender_screen]
          exact renderEvents_setColor _ _ _ _

/-- **The screen refines the page.** On a shell of any geometry that `shInit` set up, through any run: after
    every byte shown, the screen is the window onto the page on which the bytes were written. -/
theorem screen_refines_page (data : Fin streamCount → Vector UInt8 streamBufSize)
    (memory : UInt32 → ShellChar) {width size : UInt32} {height : Nat} (hwidth : 0 < width.toNat)
    (hheight : 0 < height) (hsize : size.toNat = width.toNat * height) :
    ∃ sh₀, shInit data memory width size = .ok sh₀ ∧
      ∀ vis sh, Run ConsoleStep sh₀ vis sh →
        (∀ shown, shown <+: shownIn vis → (renderEvents sh₀.screen shown).Views height
          (shown.foldl pageByte (Page.blank hwidth))) ∧
        sh.screen = { renderEvents sh₀.screen (shownIn vis) with color := sh.screen.color } := by
  have hne : width ≠ 0 := by
    rintro rfl
    exact absurd hwidth (by decide)
  have hinit : ∃ sh₀, shInit data memory width size = .ok sh₀ := ⟨_, dif_neg hne⟩
  obtain ⟨sh₀, hinit⟩ := hinit
  refine ⟨sh₀, hinit, fun vis sh hrun => ⟨fun shown _ => ?_, consoleRun_screen hrun⟩⟩
  exact (shInit_views hinit hwidth hheight hsize).renderEvents shown

/-- The console of the kernel, after a line. -/
theorem screen_refines_page_vga : ∃ sh₀, shInit (fun _ => Vector.replicate streamBufSize 0) (fun _ => ⟨0, 0⟩)
    vgaWidth (vgaWidth * vgaHeight) = .ok sh₀ ∧
    ∃ p : Page ShellChar 80, (shWriteStdout sh₀ (fun k => if k = 2 then newline else 97) 3).1.screen.Views 25 p := by
  obtain ⟨sh₀, hinit, hall⟩ := @screen_refines_page (fun _ => Vector.replicate streamBufSize 0)
    (fun _ => ⟨0, 0⟩) vgaWidth (vgaWidth * vgaHeight) 25 (by decide) (by decide) (by decide)
  obtain ⟨vis, hrun⟩ := shWriteStream_run sh₀ streamStdout.val (fun k => if k = 2 then newline else 97) 3
  obtain ⟨hviews, hscreen⟩ := hall vis _ hrun
  refine ⟨sh₀, hinit, (shownIn vis).foldl pageByte (Page.blank (by decide)), ?_⟩
  show (shWriteStream sh₀ streamStdout.val _ 3).1.screen.Views 25 _
  rw [hscreen]
  exact (hviews _ (List.prefix_refl _)).setColor _

end Drupe
