import Mathlib.Logic.Function.Basic

/-!
# `Lib.Page` — an unbounded page, and a window that follows its cursor

A page has rows of `width` cells and no last row. Its cursor goes forward through the cells, or back to the
start of its row, so nothing is ever stored below it (`Page.blank_below`).

A window of `height` rows that ends at the row of the cursor, or starts at the first row, shows a part of the
page (`Page.Seen`). Each movement of the cursor says what the window has to do: nothing
(`Page.Seen.home`), store one cell (`Page.Seen.store`), or, when the cursor leaves the last row of the window,
move up its rows and blank the last one (`Page.Seen.scroll`).
-/

namespace Lib

/-- Rows of `width` cells, each empty or holding an `α`, and a cursor. -/
structure Page (α : Type*) (width : Nat) where
  cell : Nat → Nat → Option α
  row : Nat
  col : Nat
  col_lt : col < width
  blank_below : ∀ r, row < r → ∀ c, cell r c = none

namespace Page

variable {α β : Type*} {width : Nat}

/-- An empty page, the cursor at its first cell. -/
def blank (h : 0 < width) : Page α width where
  cell := fun _ _ => none
  row := 0
  col := 0
  col_lt := h
  blank_below := fun _ _ _ => rfl

/-- The cursor to the start of its row. -/
def home (p : Page α width) : Page α width :=
  { p with col := 0, col_lt := Nat.lt_of_le_of_lt (Nat.zero_le _) p.col_lt }

/-- The cursor to the start of the next row. -/
def nextRow (p : Page α width) : Page α width where
  cell := p.cell
  row := p.row + 1
  col := 0
  col_lt := Nat.lt_of_le_of_lt (Nat.zero_le _) p.col_lt
  blank_below := fun r hr c => p.blank_below r (Nat.lt_of_succ_lt hr) c

/-- `a` in the cell at the cursor. -/
def store (p : Page α width) (a : α) : Page α width where
  cell := fun r c => if r = p.row ∧ c = p.col then some a else p.cell r c
  row := p.row
  col := p.col
  col_lt := p.col_lt
  blank_below := by
    intro r hr c
    rw [if_neg (fun h => Nat.ne_of_gt hr h.1)]
    exact p.blank_below r hr c

/-- The cursor to the next cell. -/
def forward (p : Page α width) : Page α width :=
  if h : p.col + 1 < width then { p with col := p.col + 1, col_lt := h } else p.nextRow

/-! ## The window -/

/-- The first row that a window of `height` rows shows. -/
def top (p : Page α width) (height : Nat) : Nat := p.row - (height - 1)

/-- The row of the cursor in the window. -/
def windowRow (p : Page α width) (height : Nat) : Nat := p.row - p.top height

theorem windowRow_lt {p : Page α width} {height : Nat} (h : 0 < height) : p.windowRow height < height := by
  unfold windowRow top
  omega

theorem top_add_windowRow (p : Page α width) (height : Nat) : p.top height + p.windowRow height = p.row := by
  unfold windowRow top
  omega

/-- While the cursor is above the last row of the window, the next row is in the window. -/
theorem nextRow_inside {p : Page α width} {height : Nat} (h : p.windowRow height + 1 < height) :
    p.nextRow.top height = p.top height ∧ p.nextRow.windowRow height = p.windowRow height + 1 := by
  have hrow : p.nextRow.row = p.row + 1 := rfl
  unfold windowRow top at *
  omega

/-- From the last row of the window on, the window goes along. -/
theorem nextRow_outside {p : Page α width} {height : Nat} (hpos : 0 < height)
    (h : height ≤ p.windowRow height + 1) :
    p.nextRow.top height = p.top height + 1 ∧ p.nextRow.windowRow height = height - 1 := by
  have hrow : p.nextRow.row = p.row + 1 := rfl
  unfold windowRow top at *
  omega

/-- What a window shows of a page: `Shown a b` says that `b` is a display of the cell `a`. -/
def Seen (Shown : Option α → β → Prop) (height : Nat) (p : Page α width) (w : Nat → Nat → β) : Prop :=
  ∀ k < height, ∀ c < width, Shown (p.cell (p.top height + k) c) (w k c)

section Seen

variable {Shown : Option α → β → Prop} {height : Nat} {p : Page α width} {w w' : Nat → Nat → β}

theorem seen_blank {h : 0 < width} (hw : ∀ k < height, ∀ c < width, Shown none (w k c)) :
    (blank (α := α) h).Seen Shown height w := hw

theorem Seen.home (h : p.Seen Shown height w) : p.home.Seen Shown height w := h

/-- One cell of the window changes. -/
theorem Seen.store {a : α} (h : p.Seen Shown height w) (hhere : Shown (some a) (w' (p.windowRow height) p.col))
    (hrest : ∀ k < height, ∀ c < width, ¬ (k = p.windowRow height ∧ c = p.col) → w' k c = w k c) :
    (p.store a).Seen Shown height w' := by
  intro k hk c hc
  show Shown (if p.top height + k = p.row ∧ c = p.col then some a else p.cell (p.top height + k) c) (w' k c)
  have hrow := p.top_add_windowRow height
  by_cases hcell : k = p.windowRow height ∧ c = p.col
  · obtain ⟨rfl, rfl⟩ := hcell
    rw [if_pos ⟨hrow, rfl⟩]
    exact hhere
  · have hne : ¬ (p.top height + k = p.row ∧ c = p.col) := fun h => hcell ⟨by omega, h.2⟩
    rw [if_neg hne, hrest k hk c hc hcell]
    exact h k hk c hc

/-- The next row is shown already. -/
theorem Seen.nextRow (h : p.Seen Shown height w) (hin : p.windowRow height + 1 < height) :
    p.nextRow.Seen Shown height w := by
  intro k hk c hc
  rw [(nextRow_inside hin).1]
  exact h k hk c hc

/-- The rows move up by one, and the last one is blank: it is below the cursor. -/
theorem Seen.scroll (h : p.Seen Shown height w) (hout : height ≤ p.windowRow height + 1)
    (hup : ∀ k, k + 1 < height → ∀ c < width, w' k c = w (k + 1) c)
    (hlast : ∀ c < width, Shown none (w' (height - 1) c)) : p.nextRow.Seen Shown height w' := by
  intro k hk c hc
  have hpos : 0 < height := Nat.lt_of_le_of_lt (Nat.zero_le k) hk
  obtain ⟨htop, hrow⟩ := nextRow_outside hpos hout
  rw [htop]
  rcases Nat.lt_or_ge (k + 1) height with hmoved | hend
  · rw [hup k hmoved c hc, Nat.add_assoc, Nat.add_comm 1 k]
    exact h (k + 1) hmoved c hc
  · have hk' : k = height - 1 := by omega
    have hbelow : p.row < p.top height + 1 + k := by
      unfold top
      omega
    show Shown (p.cell (p.top height + 1 + k) c) (w' k c)
    rw [p.blank_below _ hbelow c, hk']
    exact hlast c hc

end Seen

end Page

end Lib
