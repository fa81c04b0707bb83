import Drupe.Shell.Correctness.Drain

/-!
# `Shell.Statements` — `sh_write_stream`, one statement at a time

`shWriteStream` runs to its end in one step. Here the same code stops between any two statements, so that
something else can use the shell there. A statement that only touches locals is part of the next one that
touches the shell.

## Contents
- `stream_write` (`Writing`), `stream_read` (`Reading`), and the body of the loops of `sh_render` with
  `sh_scroll` (`Showing`). Each has the next statement and its locals, and a `step` on the part of the
  shell it uses.
- `Config.step`, a statement of `sh_write_stream`.
-/

namespace Drupe

/-! ## `stream_write` -/

/-- `s->data[s->head] = b` -/
def Stream.storeByte (s : Stream) (b : UInt8) : Stream :=
  { s with data := s.data.setIfInBounds s.head.toNat b }

/-- `s->head = (s->head + 1) % STREAM_BUF_SIZE` -/
def Stream.moveHead (s : Stream) : Stream := { s with head := (s.head + 1).tmod streamBufSize }

/-- `s->count++` -/
def Stream.countUp (s : Stream) : Stream := { s with count := s.count + 1 }

/-- The statements of `stream_write`. -/
inductive WriteAt
  /-- `if (len > STREAM_BUF_SIZE - s->count)` -/
  | test
  /-- `len = STREAM_BUF_SIZE - s->count` -/
  | cut
  /-- `while (written < len)`, and the store of the byte -/
  | store
  | moveHead
  | countUp
deriving DecidableEq

/-- `stream_write` before its statement `next`. -/
structure Writing where
  next : WriteAt
  len : Int
  written : Nat
deriving DecidableEq

/-- One statement; with `none`, `stream_write` returns `written`. -/
def Writing.step (buf : Nat → UInt8) (w : Writing) (s : Stream) : Option Writing × Stream :=
  match w.next with
  | .test => (some { w with next := if w.len > streamBufSize - s.count then .cut else .store }, s)
  | .cut => (some { w with next := .store, len := streamBufSize - s.count }, s)
  | .store =>
    if w.written < w.len then (some { w with next := .moveHead }, s.storeByte (buf w.written)) else (none, s)
  | .moveHead => (some { w with next := .countUp }, s.moveHead)
  | .countUp => (some { w with next := .store, written := w.written + 1 }, s.countUp)

/-! ## `stream_read` -/

/-- `s->tail = (s->tail + 1) % STREAM_BUF_SIZE` -/
def Stream.moveTail (s : Stream) : Stream := { s with tail := (s.tail + 1).tmod streamBufSize }

/-- `s->count--` -/
def Stream.countDown (s : Stream) : Stream := { s with count := s.count - 1 }

/-- The statements of `stream_read`. -/
inductive ReadAt
  /-- `while (read < len && s->count > 0)` -/
  | test
  /-- `if (s->data[read] == '\n')` -/
  | newline
  /-- `buf[read] = s->data[s->tail]` -/
  | byte
  | moveTail
  | countDown
deriving DecidableEq

/-- `stream_read` before its statement `next`, called by `sh_render`: `taken` is what it stored in `buf`
    so far, a byte for each round of its loop. -/
structure Reading where
  next : ReadAt
  taken : List UInt8
deriving DecidableEq

/-- One statement; with `none`, `stream_read` returns the number of bytes taken. -/
def Reading.step (r : Reading) (s : Stream) : Option Reading × Stream :=
  match r.next with
  | .test => (if r.taken.length < renderBufSize ∧ s.count > 0 then some { r with next := .newline } else none, s)
  | .newline => (if s.cell r.taken.length = newline then none else some { r with next := .byte }, s)
  | .byte => (some ⟨.moveTail, r.taken ++ [s.cell s.tail]⟩, s)
  | .moveTail => (some { r with next := .countDown }, s.moveTail)
  | .countDown => (some { r with next := .test }, s.countDown)

/-! ## The characters of a read -/

/-- The statements of the `for` loops of `sh_render`, and of `sh_scroll` where they call it. -/
inductive ShowAt
  /-- The tests on the next character, and what they lead to for a line break. -/
  | char
  /-- `shell->memory[shell->cursor] = (shell_char_t){ c, shell->color }` -/
  | store (c : UInt8)
  /-- `shell->cursor++` -/
  | advance
  /-- `if (shell->cursor >= shell->size)` -/
  | full
  /-- `shell->memory[dst] = shell->memory[src]`, in the loops over `row` and `col`. -/
  | copy (row col : Nat)
  /-- The loop over the last line. -/
  | blank (col : Nat)
  /-- `shell->cursor -= shell->width` -/
  | back
deriving DecidableEq

/-- A `for` loop of `sh_render` before its statement `next`, with the characters after the current one. -/
structure Showing where
  next : ShowAt
  rest : List UInt8
deriving DecidableEq

/-- One statement; with `none`, all characters are shown. The last answer is what the statement shows: a byte,
    with the colour it is shown in. -/
def Showing.step (h : Showing) (sc : Screen) : Option Showing × Screen × List (UInt8 × UInt8) :=
  match h.next with
  | .char =>
    match h.rest with
    | [] => (none, sc, [])
    | c :: rest =>
      if c = 13 then (some ⟨.char, rest⟩, { sc with cursor := sc.cursor - sc.cursor % sc.width }, [(c, sc.color)])
      else if c = newline then
        (some ⟨.full, rest⟩, { sc with cursor := sc.cursor + (sc.width - sc.cursor % sc.width) }, [(c, sc.color)])
      else (some ⟨if sc.cursor < sc.size then .store c else .char, rest⟩, sc, [])
  | .store c => (some { h with next := .advance }, sc.store sc.cursor ⟨c, sc.color⟩, [(c, sc.color)])
  | .advance => (some { h with next := .full }, { sc with cursor := sc.cursor + 1 }, [])
  | .full => (some { h with next := if sc.cursor ≥ sc.size then .copy 1 0 else .char }, sc, [])
  | .copy row col =>
    if row < sc.height.toNat then
      if col < sc.width.toNat then
        let dst := (UInt32.ofNat row - 1) * sc.width + UInt32.ofNat col
        let src := UInt32.ofNat row * sc.width + UInt32.ofNat col
        (some { h with next := .copy row (col + 1) }, sc.store dst (sc.memory src), [])
      else (some { h with next := .copy (row + 1) 0 }, sc, [])
    else (some { h with next := .blank 0 }, sc, [])
  | .blank col =>
    if col < sc.width.toNat then
      (some { h with next := .blank (col + 1) },
        sc.store ((sc.height - 1) * sc.width + UInt32.ofNat col) ⟨32, sc.color⟩, [])
    else (some { h with next := .back }, sc, [])
  | .back => (some { h with next := .char }, { sc with cursor := sc.cursor - sc.width }, [])

/-- The characters of a read that did not come to the screen. -/
def Showing.pending (h : Showing) : List UInt8 :=
  match h.next with
  | .store c => c :: h.rest
  | _ => h.rest

/-! ## `sh_write_stream` -/

/-- A call of `sh_write_stream` that does not return at once. -/
structure WriteCall where
  target : Fin streamCount
  buf : Nat → UInt8
  len : Int

/-- A byte of an output stream that came to the screen, with its colour there. -/
structure Rendered where
  stream : Output
  byte : UInt8
  color : UInt8
deriving DecidableEq

def Output.mark (o : Output) (e : UInt8 × UInt8) : Rendered := ⟨o, e.1, e.2⟩

/-- The statements of `sh_write_stream` and of `sh_render`. -/
inductive CallAt
  | setColor
  | writing (w : Writing)
  | reading (o : Output) (r : Reading)
  | showing (o : Output) (h : Showing)
  | saveColor
  | setRed
  | restoreColor
  | done
deriving DecidableEq

/-- A call before its statement `next`. `log` is all that came to the screen since the call was entered, in
    order. -/
structure Config where
  shell : Shell
  next : CallAt
  written : Nat
  savedColor : UInt8
  log : List Rendered

/-- A call that is entered. -/
def Config.enter (sh : Shell) : Config := ⟨sh, .setColor, 0, 0, []⟩

/-- What follows the loop of `sh_render` for a stream. -/
def Output.after : Output → CallAt
  | stdout => .saveColor
  | stderr => .restoreColor

/-- One statement; `none` when the call has returned. -/
def Config.step (call : WriteCall) (c : Config) : Option Config :=
  match c.next with
  | .setColor => some { c with shell := c.shell.setColor 0x07, next := .writing ⟨.test, call.len, 0⟩ }
  | .writing w =>
    let r := w.step call.buf (c.shell.stream call.target)
    let c := { c with shell := c.shell.setStream call.target r.2 }
    match r.1 with
    | some w => some { c with next := .writing w }
    | none => some { c with next := .reading .stdout ⟨.test, []⟩, written := w.written }
  | .reading o r =>
    let q := r.step (c.shell.stream o.index)
    let c := { c with shell := c.shell.setStream o.index q.2 }
    match q.1 with
    | some r => some { c with next := .reading o r }
    | none => some { c with next := if r.taken = [] then o.after else .showing o ⟨.char, r.taken⟩ }
  | .showing o h =>
    let q := h.step c.shell.screen
    let c := { c with
      shell := { c.shell with screen := q.2.1 }
      log := c.log ++ q.2.2.map o.mark }
    match q.1 with
    | some h => some { c with next := .showing o h }
    | none => some { c with next := .reading o ⟨.test, []⟩ }
  | .saveColor => some { c with savedColor := c.shell.screen.color, next := .setRed }
  | .setRed => some { c with shell := c.shell.setColor 0x04, next := .reading .stderr ⟨.test, []⟩ }
  | .restoreColor => some { c with shell := c.shell.setColor c.savedColor, next := .done }
  | .done => none

end Drupe
