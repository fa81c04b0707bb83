import Drupe.Shell.Correctness.Scroll
import Drupe.Shell.Statements

/-!
# `Shell.Correctness.Statements` — what one statement keeps

Between its statements `stream_write` leaves the stream of a call in disorder, and so does `stream_read`.
Each time there is a stream in order, `q`, that says what the queue is: the relations `Writing.Sound` and
`Reading.Sound` name it for every place in the two functions. `ShowAt.Views` does the same for the screen
and its page.
-/

namespace Drupe

open Lib

/-! ## `stream_write` -/

theorem Stream.put_eq (s : Stream) (b : UInt8) : s.put b = (s.storeByte b).moveHead.countUp := rfl

theorem Stream.Ok.storeByte {s : Stream} (h : s.Ok) (b : UInt8) : (s.storeByte b).Ok :=
  ⟨h.tail_nonneg, h.tail_lt, h.count_nonneg, h.count_le, h.head_eq⟩

theorem Stream.storeByte_storeByte (s : Stream) (b c : UInt8) : (s.storeByte b).storeByte c = s.storeByte c := by
  unfold Stream.storeByte
  simp

/-- The cell at `head` is not one of the queue. -/
theorem Stream.Ok.contents_storeByte {s : Stream} (h : s.Ok) (hroom : s.count < streamBufSize) (b : UInt8) :
    (s.storeByte b).contents = s.contents := by
  have hput := (h.storeByte b).contents_put hroom b
  have hsame : (s.storeByte b).put b = s.put b := by
    rw [Stream.put_eq, Stream.storeByte_storeByte, Stream.put_eq]
  rw [hsame, h.contents_put hroom] at hput
  exact (List.append_cancel_right hput).symm

theorem Stream.Ok.cell_storeByte {s : Stream} (h : s.Ok) (b : UInt8) : (s.storeByte b).cell s.head = b := by
  have hnn := h.head_nonneg
  have hlt : s.head.toNat < streamBufSize := by
    have := h.head_eq
    unfold streamBufSize at *
    omega
  have hcell := s.cell_put b hlt
  rw [if_pos rfl, Int.toNat_of_nonneg hnn] at hcell
  exact hcell

/-- Counting the byte that is in the cell before `head`. -/
theorem Stream.moveHead_countUp (s : Stream) : s.moveHead.countUp = s.put (s.cell s.head) := by
  have hset : s.data.setIfInBounds s.head.toNat (s.cell s.head) = s.data := by
    apply Vector.ext
    intro i hi
    rw [Vector.getElem_setIfInBounds hi]
    split
    · rename_i heq
      subst heq
      unfold Stream.cell
      rw [Vector.getElem?_eq_getElem hi, Option.getD_some]
    · rfl
  unfold Stream.put
  rw [hset]
  rfl

section Writing

variable {buf : Nat → UInt8} {total : Int} {watched : Prop}

/-- **`stream_write` under way**, of a text of length `total`: `w.Sound q s` when `s` is the stream and
    `q` the one with the queue. A `watched` write finds what it stored still there when it counts it. -/
inductive Writing.Sound (buf : Nat → UInt8) (total : Int) (watched : Prop) : Writing → Stream → Stream → Prop
  | test {q : Stream} : Sound buf total watched ⟨.test, total, 0⟩ q q
  | cut {q : Stream} (hcut : streamBufSize - q.count ≤ total) : Sound buf total watched ⟨.cut, total, 0⟩ q q
  | store {q : Stream} {len : Int} {written : Nat} (hlen : len ≤ total) (hdone : written ≤ len.toNat)
      (hroom : written < len → q.count + (len - written) ≤ streamBufSize) :
      Sound buf total watched ⟨.store, len, written⟩ q q
  | moveHead {q : Stream} {len : Int} {written : Nat} (hlen : len ≤ total) (hmore : written < len)
      (hroom : q.count + (len - written) ≤ streamBufSize) (hcell : watched → q.cell q.head = buf written) :
      Sound buf total watched ⟨.moveHead, len, written⟩ q q
  | countUp {q : Stream} {len : Int} {written : Nat} (hlen : len ≤ total) (hmore : written < len)
      (hroom : q.count + (len - written) ≤ streamBufSize) (hcell : watched → q.cell q.head = buf written) :
      Sound buf total watched ⟨.countUp, len, written⟩ q q.moveHead

/-- **One statement** counts bytes `counted`, one or none. -/
theorem Writing.Sound.step {w w' : Writing} {q s s' : Stream} (h : w.Sound buf total watched q s) (hok : q.Ok)
    (hstep : w.step buf s = (some w', s')) :
    ∃ q' counted, w'.Sound buf total watched q' s' ∧ q'.Ok ∧
      (watched → q'.contents = q.contents ++ counted ∧
        (List.range w'.written).map buf = (List.range w.written).map buf ++ counted) := by
  -- every statement but the last one of the loop leaves the queue
  have hsame : ∀ {w₁ : Writing} {q₁ s₁ : Stream}, w₁.Sound buf total watched q₁ s₁ → q₁.Ok →
      q₁.contents = q.contents → w₁.written = w.written →
      ∃ q' counted, w₁.Sound buf total watched q' s₁ ∧ q'.Ok ∧
        (watched → q'.contents = q.contents ++ counted ∧
          (List.range w₁.written).map buf = (List.range w.written).map buf ++ counted) := by
    intro w₁ q₁ s₁ hw hq hcont hwritten
    exact ⟨q₁, [], hw, hq, fun _ => by rw [hcont, hwritten, List.append_nil, List.append_nil]; exact ⟨rfl, rfl⟩⟩
  have hnn := hok.count_nonneg
  cases h with
  | test =>
      obtain ⟨rfl, rfl⟩ := hstep
      by_cases hlong : total > streamBufSize - q.count
      · simp only [if_pos hlong]
        exact hsame (.cut (Int.le_of_lt hlong)) hok rfl rfl
      · simp only [if_neg hlong]
        exact hsame (.store (Int.le_refl _) (Nat.zero_le _) fun _ => by omega) hok rfl rfl
  | cut hcut =>
      obtain ⟨rfl, rfl⟩ := hstep
      exact hsame (.store hcut (Nat.zero_le _) fun _ => by omega) hok rfl rfl
  | @store _ len written hlen hdone hroom =>
      unfold Writing.step at hstep
      by_cases hmore : (written : Int) < len
      · simp only [if_pos hmore] at hstep
        obtain ⟨rfl, rfl⟩ := hstep
        have hfree : q.count < streamBufSize := by
          have := hroom hmore
          omega
        exact hsame (.moveHead hlen hmore (hroom hmore) fun _ => hok.cell_storeByte _) (hok.storeByte _)
          (hok.contents_storeByte hfree _) rfl
      · simp only [if_neg hmore] at hstep
        cases hstep
  | moveHead hlen hmore hroom hcell =>
      obtain ⟨rfl, rfl⟩ := hstep
      exact hsame (.countUp hlen hmore hroom hcell) hok rfl rfl
  | @countUp _ len written hlen hmore hroom hcell =>
      obtain ⟨rfl, rfl⟩ := hstep
      have hfree : q.count < streamBufSize := by omega
      have hnext : Writing.Sound buf total watched ⟨.store, len, written + 1⟩ q.moveHead.countUp
          q.moveHead.countUp := by
        refine .store hlen (by omega) fun hlt => ?_
        show q.count + 1 + _ ≤ _
        omega
      refine ⟨_, [q.cell q.head], hnext, ?_, fun hwatched => ⟨?_, ?_⟩⟩
      · rw [Stream.moveHead_countUp]
        exact hok.put hfree _
      · rw [Stream.moveHead_countUp, hok.contents_put hfree]
      · show (List.range (written + 1)).map buf = _
        rw [List.range_succ, List.map_append, hcell hwatched]
        rfl

/-- `stream_write` returns with the stream in order. -/
theorem Writing.Sound.return {w : Writing} {q s s' : Stream} (h : w.Sound buf total watched q s)
    (hstep : w.step buf s = (none, s')) : s' = q ∧ s = q ∧ w.written ≤ total.toNat := by
  cases h with
  | test => cases hstep
  | cut => cases hstep
  | store hlen hdone hroom =>
      unfold Writing.step at hstep
      simp only at hstep
      split at hstep
      · cases hstep
      · obtain ⟨-, rfl⟩ := hstep
        exact ⟨rfl, rfl, Nat.le_trans hdone (Int.toNat_le_toNat hlen)⟩
  | moveHead => cases hstep
  | countUp => cases hstep

end Writing

/-! ## `stream_read` -/

/-- **`stream_read` under way**: `r.Sound q s` when `s` is the stream and `q` the one with the queue,
    without what was taken. -/
inductive Reading.Sound : Reading → Stream → Stream → Prop
  | test {q : Stream} {taken : List UInt8} : Sound ⟨.test, taken⟩ q q
  | newline {q : Stream} {taken : List UInt8} (hcount : 0 < q.count) : Sound ⟨.newline, taken⟩ q q
  | byte {q : Stream} {taken : List UInt8} (hcount : 0 < q.count) : Sound ⟨.byte, taken⟩ q q
  | moveTail {s : Stream} {taken : List UInt8} : Sound ⟨.moveTail, taken⟩ s.drop s
  | countDown {s : Stream} {taken : List UInt8} : Sound ⟨.countDown, taken⟩ s.drop s.moveTail

/-- **One statement.** A byte that leaves the queue was taken. -/
theorem Reading.Sound.step {r r' : Reading} {q s s' : Stream} (h : r.Sound q s) (hok : q.Ok)
    (hstep : r.step s = (some r', s')) :
    ∃ q', r'.Sound q' s' ∧ q'.Ok ∧ r'.taken ++ q'.contents = r.taken ++ q.contents := by
  cases h with
  | @test _ taken =>
      unfold Reading.step at hstep
      by_cases hmore : (taken.length : Int) < renderBufSize ∧ q.count > 0
      · simp only [if_pos hmore] at hstep
        obtain ⟨rfl, rfl⟩ := hstep
        exact ⟨_, .newline hmore.2, hok, rfl⟩
      · simp only [if_neg hmore] at hstep
        cases hstep
  | @newline _ taken hcount =>
      unfold Reading.step at hstep
      by_cases hline : q.cell taken.length = Drupe.newline
      · simp only [if_pos hline] at hstep
        cases hstep
      · simp only [if_neg hline] at hstep
        obtain ⟨rfl, rfl⟩ := hstep
        exact ⟨_, .byte hcount, hok, rfl⟩
  | @byte _ taken hcount =>
      obtain ⟨rfl, rfl⟩ := hstep
      refine ⟨q.drop, .moveTail, hok.drop hcount, ?_⟩
      show (taken ++ [q.cell q.tail]) ++ q.drop.contents = taken ++ q.contents
      rw [hok.contents_drop hcount, List.append_assoc]
      rfl
  | moveTail =>
      obtain ⟨rfl, rfl⟩ := hstep
      exact ⟨_, .countDown, hok, rfl⟩
  | @countDown s taken =>
      obtain ⟨rfl, rfl⟩ := hstep
      exact ⟨s.drop, .test, hok, rfl⟩

/-- `stream_read` returns with the stream in order. -/
theorem Reading.Sound.return {r : Reading} {q s s' : Stream} (h : r.Sound q s)
    (hstep : r.step s = (none, s')) : s' = q ∧ s = q := by
  cases h with
  | test => exact ⟨(congrArg Prod.snd hstep).symm, rfl⟩
  | newline => exact ⟨(congrArg Prod.snd hstep).symm, rfl⟩
  | byte => cases hstep
  | moveTail => cases hstep
  | countDown => cases hstep

/-! ## The characters of a read -/

/-- The copy of `sh_scroll` is done for the first `k` cells: `old` is the memory at its start. -/
structure Copied (old memory : UInt32 → ShellChar) (width cells k : Nat) : Prop where
  up : ∀ j < k, memory (UInt32.ofNat j) = old (UInt32.ofNat (j + width))
  ahead : ∀ j < cells, k ≤ j → memory (UInt32.ofNat j) = old (UInt32.ofNat j)

/-- One more cell: what it reads is ahead. -/
theorem Copied.step {old memory : UInt32 → ShellChar} {width cells k : Nat} (h : Copied old memory width cells k)
    (hpos : 0 < width) (hk : k + width < cells) (hcells : cells ≤ 4294967296) :
    Copied old (fun j => if j = UInt32.ofNat k then memory (UInt32.ofNat (k + width)) else memory j) width cells
      (k + 1) where
  up := by
    intro j hj
    rcases Nat.eq_or_lt_of_le (Nat.le_of_lt_succ hj) with rfl | hlt
    · rw [if_pos rfl]
      exact h.ahead _ hk (Nat.le_add_right _ _)
    · rw [if_neg (fun heq => absurd (ofNat_inj (by omega) (by omega) heq) (by omega))]
      exact h.up j hlt
  ahead := by
    intro j hj hle
    rw [if_neg (fun heq => absurd (ofNat_inj (by omega) (by omega) heq) (by omega))]
    exact h.ahead j hj (Nat.le_of_succ_le hle)

section Showing

variable {width height : Nat}

/-- **A character under way**: the screen `sc`, before a statement, is on the way to a window onto `p`. -/
inductive ShowAt.Views (height : Nat) : ShowAt → Screen → Page ShellChar width → Prop
  | char {sc : Screen} {p : Page ShellChar width} (h : sc.Views height p) : Views height .char sc p
  | store {sc : Screen} {p : Page ShellChar width} {c : UInt8} (hreturn : c ≠ 13) (hline : c ≠ newline)
      (h : sc.Views height p) : Views height (.store c) sc p
  | advance {sc : Screen} {p : Page ShellChar width} (h : sc.Views height p) : Views height .advance sc p.forward
  | full {sc : Screen} {p : Page ShellChar width} (h : sc.Due height p) : Views height .full sc p
  | copy {sc : Screen} {p : Page ShellChar width} {old : UInt32 → ShellChar} {row col : Nat}
      (h : { sc with memory := old : Screen }.AtEnd height p)
      (hplace : row + 1 < height ∧ col ≤ width ∨ row + 1 = height ∧ col = 0)
      (hcopied : Copied old sc.memory width (width * height) (row * width + col)) :
      Views height (.copy (row + 1) col) sc p.nextRow
  | blank {sc : Screen} {p : Page ShellChar width} {old : UInt32 → ShellChar} {col : Nat}
      (h : { sc with memory := old : Screen }.AtEnd height p) (hcol : col ≤ width)
      (hup : ∀ j < (height - 1) * width, sc.memory (UInt32.ofNat j) = old (UInt32.ofNat (j + width)))
      (hblank : ∀ c < col, (sc.memory (UInt32.ofNat ((height - 1) * width + c))).character = 32) :
      Views height (.blank col) sc p.nextRow
  | back {sc : Screen} {p : Page ShellChar width}
      (h : { sc with cursor := sc.cursor - sc.width : Screen }.Views height p) : Views height .back sc p

/-- **The copy of `sh_scroll`**, one statement of it: a cell is copied, a row is done, or the last one is. -/
theorem ShowAt.Views.step_copy {sc : Screen} {p : Page ShellChar width} {row col : Nat}
    (hviews : (ShowAt.copy row col).Views height sc p) (rest : List UInt8) :
    ∃ next sc', Showing.step ⟨.copy row col, rest⟩ sc = (some ⟨next, rest⟩, sc', []) ∧ next.Views height sc' p ∧
      sc'.color = sc.color ∧ Showing.pending ⟨next, rest⟩ = rest := by
  cases hviews with
  | @copy _ p old row col hend hplace hcopied =>
      have hsized : sc.Sized width height := hend.sized.update sc.memory sc.cursor sc.color
      have hcells := sc.size.toNat_lt
      rw [hsized.size_eq] at hcells
      rcases hplace with ⟨hrow, hcol⟩ | ⟨rfl, rfl⟩
      · have hlt : row + 1 < sc.height.toNat := by
          rw [hsized.height_eq]
          exact hrow
        have hmoved : (row + 1) * width + width ≤ width * height := by
          rw [← Nat.succ_mul, Nat.mul_comm width]
          exact Nat.mul_le_mul_right width hrow
        rw [Nat.succ_mul] at hmoved
        rcases Nat.lt_or_eq_of_le hcol with hmore | rfl
        · have hcell : col < sc.width.toNat := by
            rw [hsized.width_eq]
            exact hmore
          simp only [Showing.step, if_pos hlt, if_pos hcell]
          refine ⟨_, _, rfl, .copy hend (.inl ⟨hrow, hmore⟩) ?_, rfl, rfl⟩
          have hdst : (UInt32.ofNat (row + 1) - 1) * sc.width + UInt32.ofNat col
              = UInt32.ofNat (row * width + col) := by
            rw [ofNat_succ_sub_one, rowStart_add, hsized.width_eq]
          have hsrc : UInt32.ofNat (row + 1) * sc.width + UInt32.ofNat col
              = UInt32.ofNat (row * width + col + width) := by
            rw [rowStart_add, hsized.width_eq, Nat.succ_mul, Nat.add_right_comm]
          simp only [hdst, hsrc]
          exact hcopied.step (Nat.zero_lt_of_lt hmore) (by omega) (Nat.le_of_lt hcells)
        · have hcell : ¬ col < sc.width.toNat := by
            rw [hsized.width_eq]
            exact Nat.lt_irrefl _
          simp only [Showing.step, if_pos hlt, if_neg hcell]
          refine ⟨_, _, rfl, .copy hend (by omega) ?_, rfl, rfl⟩
          rw [Nat.succ_mul]
          exact hcopied
      · have hlt : ¬ row + 1 < sc.height.toNat := by
          rw [hsized.height_eq]
          exact Nat.lt_irrefl _
        have hblank := ShowAt.Views.blank hend (Nat.zero_le width) hcopied.up fun c hc =>
          absurd hc (Nat.not_lt_zero c)
        simp only [Showing.step, if_neg hlt]
        exact ⟨_, _, rfl, hblank, rfl, rfl⟩

/-- **The loop over the last line**, one statement of it. -/
theorem ShowAt.Views.step_blank {sc : Screen} {p : Page ShellChar width} {col : Nat}
    (hviews : (ShowAt.blank col).Views height sc p) (rest : List UInt8) :
    ∃ next sc', Showing.step ⟨.blank col, rest⟩ sc = (some ⟨next, rest⟩, sc', []) ∧ next.Views height sc' p ∧
      sc'.color = sc.color ∧ Showing.pending ⟨next, rest⟩ = rest := by
  cases hviews with
  | @blank _ p old col hend hcol hup hblank =>
      have hsized : sc.Sized width height := hend.sized.update sc.memory sc.cursor sc.color
      have hcells := sc.size.toNat_lt
      rw [hsized.size_eq] at hcells
      have hlast := hsized.lastRow_end
      rcases Nat.lt_or_eq_of_le hcol with hmore | rfl
      · have hcell : col < sc.width.toNat := by
          rw [hsized.width_eq]
          exact hmore
        simp only [Showing.step, if_pos hcell]
        have hdst : (sc.height - 1) * sc.width + UInt32.ofNat col = UInt32.ofNat ((height - 1) * width + col) := by
          have hrow : sc.height = UInt32.ofNat (height - 1 + 1) := by
            rw [Nat.sub_add_cancel hsized.height_pos, ← hsized.height_eq, UInt32.ofNat_toNat]
          rw [hrow, ofNat_succ_sub_one, rowStart_add, hsized.width_eq]
        have hfar : ∀ i < (height - 1) * width + col,
            UInt32.ofNat i ≠ UInt32.ofNat ((height - 1) * width + col) :=
          fun i hi heq => absurd (ofNat_inj (by omega) (by omega) heq) (by omega)
        simp only [hdst]
        refine ⟨_, _, rfl, .blank hend hmore ?_ ?_, rfl, rfl⟩
        · intro j hj
          rw [← hup j hj]
          exact if_neg (hfar j (by omega))
        · intro c hc
          rcases Nat.eq_or_lt_of_le (Nat.le_of_lt_succ hc) with rfl | hlt
          · exact congrArg ShellChar.character (if_pos rfl)
          · rw [← hblank c hlt]
            exact congrArg ShellChar.character (if_neg (hfar _ (by omega)))
      · have hcell : ¬ col < sc.width.toNat := by
          rw [hsized.width_eq]
          exact Nat.lt_irrefl _
        simp only [Showing.step, if_neg hcell]
        exact ⟨_, _, rfl, .back (hend.scrolled hup hblank), rfl, rfl⟩

/-- What one statement shows is the next pending byte, in the colour of the screen, or nothing; and with
    it the screen is on its way to the page that the byte leaves. -/
theorem ShowAt.Views.step {h h' : Showing} {sc sc' : Screen} {p : Page ShellChar width}
    {shown : List (UInt8 × UInt8)} (hviews : h.next.Views height sc p) (hstep : h.step sc = (some h', sc', shown)) :
    h'.next.Views height sc' (shown.foldl pageByte p) ∧ sc'.color = sc.color ∧
      (∃ bytes, shown = bytes.map (fun c => (c, sc.color)) ∧ h.pending = bytes ++ h'.pending) := by
  obtain ⟨next, rest⟩ := h
  cases hviews with
  | char hv =>
      cases rest with
      | nil => cases hstep
      | cons c rest =>
          by_cases hreturn : c = 13
          · simp only [Showing.step, if_pos hreturn] at hstep
            obtain ⟨rfl, rfl, rfl⟩ := hstep
            refine ⟨?_, rfl, [c], rfl, rfl⟩
            show ShowAt.Views height .char _ (pageByte p (c, sc.color))
            rw [pageByte, if_pos hreturn]
            exact .char hv.home
          by_cases hline : c = newline
          · simp only [Showing.step, if_neg hreturn, if_pos hline] at hstep
            obtain ⟨rfl, rfl, rfl⟩ := hstep
            refine ⟨?_, rfl, [c], rfl, rfl⟩
            show ShowAt.Views height .full _ (pageByte p (c, sc.color))
            rw [pageByte, if_neg hreturn, if_pos hline]
            exact .full hv.nextLine
          · simp only [Showing.step, if_neg hreturn, if_neg hline, if_pos hv.cursor_lt] at hstep
            obtain ⟨rfl, rfl, rfl⟩ := hstep
            exact ⟨.store hreturn hline hv, rfl, [], rfl, rfl⟩
  | @store _ _ c hreturn hline hv =>
      obtain ⟨rfl, rfl, rfl⟩ := hstep
      refine ⟨?_, rfl, [c], rfl, rfl⟩
      show ShowAt.Views height .advance _ (pageByte p (c, sc.color))
      rw [pageByte, if_neg hreturn, if_neg hline]
      exact .advance (hv.store _)
  | advance hv =>
      obtain ⟨rfl, rfl, rfl⟩ := hstep
      exact ⟨.full hv.forward, rfl, [], rfl, rfl⟩
  | full hdue =>
      cases hdue with
      | inside hv =>
          simp only [Showing.step, if_neg (UInt32.not_le.mpr hv.cursor_lt)] at hstep
          obtain ⟨rfl, rfl, rfl⟩ := hstep
          exact ⟨.char hv, rfl, [], rfl, rfl⟩
      | past hend =>
          have hfull : sc.cursor ≥ sc.size := by
            rw [ge_iff_le, UInt32.le_iff_toNat_le, hend.sized.size_eq, hend.cursor_eq]
          simp only [Showing.step, if_pos hfull] at hstep
          obtain ⟨rfl, rfl, rfl⟩ := hstep
          have hpos := hend.sized.height_pos
          refine ⟨?_, rfl, [], rfl, rfl⟩
          exact .copy hend (by omega) ⟨fun j hj => absurd hj (by omega), fun j _ _ => rfl⟩
  | copy hend hplace hcopied =>
      obtain ⟨next, sc₁, hnext, hv, hcolor, hpending⟩ := step_copy (.copy hend hplace hcopied) rest
      obtain ⟨rfl, rfl, rfl⟩ := hnext.symm.trans hstep
      exact ⟨hv, hcolor, [], rfl, hpending.symm⟩
  | blank hend hcol hup hblank =>
      obtain ⟨next, sc₁, hnext, hv, hcolor, hpending⟩ := step_blank (.blank hend hcol hup hblank) rest
      obtain ⟨rfl, rfl, rfl⟩ := hnext.symm.trans hstep
      exact ⟨hv, hcolor, [], rfl, hpending.symm⟩
  | back hv =>
      obtain ⟨rfl, rfl, rfl⟩ := hstep
      exact ⟨.char hv, rfl, [], rfl, rfl⟩

/-- A loop over characters ends between two of them, with none left. -/
theorem ShowAt.Views.return {h : Showing} {sc sc' : Screen} {p : Page ShellChar width}
    {shown : List (UInt8 × UInt8)} (hviews : h.next.Views height sc p) (hstep : h.step sc = (none, sc', shown)) :
    sc' = sc ∧ shown = [] ∧ h.pending = [] ∧ sc.Views height p := by
  have hend : h.next = .char ∧ h.rest = [] := by
    unfold Showing.step at hstep
    split at hstep
    · rename_i hnext
      split at hstep
      · rename_i hrest
        exact ⟨hnext, hrest⟩
      · split at hstep
        · cases hstep
        · split at hstep <;> cases hstep
    · cases hstep
    · cases hstep
    · cases hstep
    · split at hstep
      · split at hstep <;> cases hstep
      · cases hstep
    · split at hstep <;> cases hstep
    · cases hstep
  obtain ⟨next, rest⟩ := h
  obtain ⟨rfl, rfl⟩ := hend
  obtain ⟨-, rfl, rfl⟩ := hstep
  cases hviews with
  | char hv => exact ⟨rfl, rfl, rfl, hv⟩

/-- The colour does not matter. -/
theorem ShowAt.Views.setColor {next : ShowAt} {sc : Screen} {p : Page ShellChar width}
    (h : next.Views height sc p) (color : UInt8) : next.Views height { sc with color } p := by
  cases h with
  | char hv => exact .char (hv.setColor color)
  | store hreturn hline hv => exact .store hreturn hline (hv.setColor color)
  | advance hv => exact .advance (hv.setColor color)
  | full hdue =>
      cases hdue with
      | inside hv => exact .full (.inside (hv.setColor color))
      | past h => exact .full (.past (h.setColor color))
  | copy h hplace hcopied => exact .copy (h.setColor color) hplace hcopied
  | blank h hcol hup hblank => exact .blank (h.setColor color) hcol hup hblank
  | back hv => exact .back (hv.setColor color)

end Showing

end Drupe
