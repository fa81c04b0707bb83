import Drupe.Machine
import Drupe.Shell.Stream

/-!
# `Shell.Shell` — the text console (`shell.c`)

A shell is a screen (video memory, cursor, geometry, colour) and three streams. Every output call queues its
bytes in a stream and lets `shRender` move all queued bytes to the screen, one `renderChar` a byte. The
functions of the source that leave the streams alone are functions of the screen.

## Contents
- The functions of the source, `shInit` to `shPrintf`.
- The streams of a shell under updates (`Shell.stream_setStream` and its neighbours).
- When `shPrintf` stays inside its format string and its arguments (`shPrintf_total`).
-/

namespace Drupe

def vgaWidth : UInt32 := 80
def vgaHeight : UInt32 := 25

/-- `shell_char_t` -/
structure ShellChar where
  character : UInt8
  vgaColor : UInt8
deriving DecidableEq

/-- `STREAM_COUNT` -/
abbrev streamCount : Nat := 3

def streamStdin : Fin streamCount := 0
def streamStdout : Fin streamCount := 1
def streamStderr : Fin streamCount := 2

/-- The fields of `shell_instance_t` other than the streams. `memory` is the video memory, by index of a
    character. A shell is only ever set up by `shInit`, which divides by the width: a width of 0 does not
    get that far. -/
structure Screen where
  memory : UInt32 → ShellChar
  size : UInt32
  cursor : UInt32
  width : UInt32
  height : UInt32
  color : UInt8
  width_ne_zero : width ≠ 0

/-- `shell_instance_t` -/
structure Shell where
  screen : Screen
  streams : Vector Stream streamCount

/-- `shell->memory[i] = c` -/
def Screen.store (sc : Screen) (i : UInt32) (c : ShellChar) : Screen :=
  { sc with memory := fun j => if j = i then c else sc.memory j }

def Shell.stream (sh : Shell) (i : Fin streamCount) : Stream := sh.streams.get i

def Shell.setStream (sh : Shell) (i : Fin streamCount) (s : Stream) : Shell :=
  { sh with streams := sh.streams.set i s }

def Shell.setColor (sh : Shell) (color : UInt8) : Shell :=
  { sh with screen := { sh.screen with color := color } }

def shClear (sc : Screen) : Screen :=
  let sc := (List.range sc.size.toNat).foldl
    (fun sc i => sc.store (UInt32.ofNat i) ⟨32, sc.color⟩) { sc with cursor := 0 }
  { sc with cursor := 0 }

/-- `data` is what the arrays of the streams hold beforehand. -/
def shInit (data : Fin streamCount → Vector UInt8 streamBufSize) (memory : UInt32 → ShellChar)
    (width size : UInt32) : Except Fault Shell :=
  if h : width = 0 then .error .divideError
  else .ok
    { screen := shClear
        { memory, size, width
          cursor := 0
          height := size / width
          color := 0x07
          width_ne_zero := h }
      streams := Vector.ofFn fun i => ⟨data i, 0, 0, 0⟩ }

/-- The inner loop of `sh_scroll`: copy row `row` to the row above. -/
def scrollRow (sc : Screen) (row : UInt32) : Screen :=
  (List.range sc.width.toNat).foldl (fun sc col =>
    let dst := (row - 1) * sc.width + UInt32.ofNat col
    let src := row * sc.width + UInt32.ofNat col
    sc.store dst (sc.memory src)) sc

def shScroll (sc : Screen) : Screen :=
  let sc := (List.range (sc.height.toNat - 1)).foldl
    (fun sc k => scrollRow sc (UInt32.ofNat (k + 1))) sc
  let lastLine := (sc.height - 1) * sc.width
  (List.range sc.width.toNat).foldl
    (fun sc col => sc.store (lastLine + UInt32.ofNat col) ⟨32, sc.color⟩) sc

/-- The end of a line or of a stored character: a cursor past the screen scrolls it. -/
def scrollIfFull (sc : Screen) : Screen :=
  if sc.cursor ≥ sc.size then
    let sc := shScroll sc
    { sc with cursor := sc.cursor - sc.width }
  else sc

/-- The body of the loops of `sh_render`. -/
def renderChar (sc : Screen) (c : UInt8) : Screen :=
  if c = 13 then { sc with cursor := sc.cursor - sc.cursor % sc.width }
  else if c = newline then
    scrollIfFull { sc with cursor := sc.cursor + (sc.width - sc.cursor % sc.width) }
  else if sc.cursor < sc.size then
    let sc := sc.store sc.cursor ⟨c, sc.color⟩
    scrollIfFull { sc with cursor := sc.cursor + 1 }
  else sc

/-- Characters shown one after the other. -/
def renderBytes (sc : Screen) (bytes : List UInt8) : Screen := bytes.foldl renderChar sc

/-- `sizeof(buf)` in `sh_render`. -/
def renderBufSize : Int := 64

/-- One round of a loop of `sh_render`: a read left stream `i` as `s`, and its bytes are shown. -/
def Shell.afterRead (sh : Shell) (i : Fin streamCount) (s : Stream) (bytes : List UInt8) : Shell :=
  { screen := renderBytes sh.screen bytes, streams := sh.streams.set i s }

/-- A loop `while ((bytes = stream_read(…)) > 0)` of `sh_render`. Every round that goes on takes a byte from
    the stream, so `count + 1` rounds of `fuel` are enough (`drainAll_done`). -/
def drain (i : Fin streamCount) : (fuel : Nat) → Shell → Shell
  | 0, sh => sh
  | fuel + 1, sh =>
    let r := streamRead (sh.stream i) renderBufSize
    let sh := sh.afterRead i r.1 r.2
    if r.2 = [] then sh else drain i fuel sh

/-- `drain` with the fuel it needs. -/
def drainAll (i : Fin streamCount) (sh : Shell) : Shell := drain i ((sh.stream i).count.toNat + 1) sh

def shRender (sh : Shell) : Shell :=
  let sh := drainAll streamStdout sh
  let savedColor := sh.screen.color
  let sh := drainAll streamStderr (sh.setColor 0x04)
  sh.setColor savedColor

def shWriteStream (sh : Shell) (streamIdx : Int) (buf : Nat → UInt8) (len : Int) : Shell × Int :=
  if h : streamIdx < 0 ∨ streamIdx ≥ streamCount then (sh, -1)
  else
    let i : Fin streamCount := ⟨streamIdx.toNat, by omega⟩
    let sh := sh.setColor 0x07
    let r := streamWrite (sh.stream i) buf len
    (shRender (sh.setStream i r.1), r.2)

def shWriteStdout (sh : Shell) (buf : Nat → UInt8) (len : Int) : Shell × Int :=
  shWriteStream sh streamStdout.val buf len

def shWriteStderr (sh : Shell) (buf : Nat → UInt8) (len : Int) : Shell × Int :=
  shWriteStream sh streamStderr.val buf len

def shPutc (sh : Shell) (c : UInt8) : Shell := (shWriteStdout sh (fun _ => c) 1).1

def shPuts (sh : Shell) (str : List UInt8) : Shell := (cString str).foldl shPutc sh

def digits : List UInt8 := [48, 49, 50, 51, 52, 53, 54, 55, 56, 57, 97, 98, 99, 100, 101, 102]

/-- The digits of `uvalue`, the lowest first, as long as there is room for `fuel` more. -/
def putintDigits (base : UInt32) : (fuel : Nat) → UInt32 → List UInt8
  | 0, _ => []
  | fuel + 1, uvalue =>
    if uvalue = 0 then []
    else digits[(uvalue % base).toNat]?.getD 0 :: putintDigits base fuel (uvalue / base)

/-- `base` is 10 or 16 in every call of the kernel. -/
def shPutint (sh : Shell) (value base : UInt32) : Shell :=
  let negative : Bool := base = 10 ∧ 0x80000000 ≤ value
  let sh := if negative then shPutc sh 45 else sh
  let uvalue := if negative then -value else value
  if uvalue = 0 then shPutc sh 48
  else (putintDigits base 31 uvalue).reverse.foldl shPutc sh

/-- A variadic argument: a pointer to a string (`none` is the null pointer), or a word. -/
inductive VaArg
  | str (s : Option (List UInt8))
  | word (w : UInt32)
deriving DecidableEq

/-- The text of a string literal; all of them are ASCII. -/
def text (s : String) : List UInt8 := s.toList.map fun c => UInt8.ofNat c.toNat

/-- The text of a C string literal in memory, its NUL included. -/
def literal (s : String) : List UInt8 := text s ++ [0]

theorem text_ofList (cs : List Char) : text (String.ofList cs) = cs.map fun c => UInt8.ofNat c.toNat := by
  rw [text, String.toList_ofList]

theorem literal_ofList (cs : List Char) :
    literal (String.ofList cs) = (cs.map fun c => UInt8.ofNat c.toNat) ++ [0] := by
  rw [literal, text_ofList]

/-- One directive, by its character. `none`: the argument it asks for is not there, or is of the other
    kind. -/
def printfDirective (sh : Shell) (d : UInt8) (args : List VaArg) : Option (Shell × List VaArg) :=
  match Char.ofNat d.toNat, args with
  | 's', .str s :: args => some (shPuts sh (s.getD (text "(null)")), args)
  | 's', _ => none
  | 'd', .word w :: args | 'u', .word w :: args => some (shPutint sh w 10, args)
  | 'd', _ | 'u', _ => none
  | 'x', .word w :: args => some (shPutint sh w 16, args)
  | 'x', _ => none
  | 'p', .word w :: args => some (shPutint (shPuts sh (text "0x")) w 16, args)
  | 'p', _ => none
  | 'c', .word w :: args => some (shPutc sh w.toUInt8, args)
  | 'c', _ => none
  | '%', args => some (shPutc sh 37, args)
  | _, args => some (shPutc (shPutc sh 37) d, args)

/-- `fmt` is the memory from the format string on, its NUL included. Where that memory or the arguments end
    before the loop does, the access is out of bounds. -/
def shPrintf (sh : Shell) : (fmt : List UInt8) → (args : List VaArg) → Except Fault Shell
  | [], _ => .error .outOfBounds
  | c :: fmt, args =>
    if c = 0 then .ok sh
    else if c = 37 then
      match fmt with
      | [] => .error .outOfBounds
      | d :: fmt =>
        match printfDirective sh d args with
        | none => .error .outOfBounds
        | some (sh, args) => shPrintf sh fmt args
    else shPrintf (shPutc sh c) fmt args

/-! ## The streams of a shell -/

@[simp] theorem Shell.stream_setStream (sh : Shell) (i : Fin streamCount) (s : Stream) :
    (sh.setStream i s).stream i = s := by
  show (sh.streams.set i s)[i] = s
  exact Vector.getElem_set_self i.isLt

theorem Shell.stream_setStream_ne (sh : Shell) {i j : Fin streamCount} (hne : i ≠ j) (s : Stream) :
    (sh.setStream i s).stream j = sh.stream j := by
  show (sh.streams.set i s)[j] = sh.streams[j]
  exact Vector.getElem_set_ne i.isLt j.isLt (fun h => hne (Fin.ext h))

@[simp] theorem Shell.stream_setColor (sh : Shell) (i : Fin streamCount) (color : UInt8) :
    (sh.setColor color).stream i = sh.stream i := rfl

@[simp] theorem Shell.stream_afterRead (sh : Shell) (i : Fin streamCount) (s : Stream)
    (bytes : List UInt8) : (sh.afterRead i s bytes).stream i = s :=
  sh.stream_setStream i s

theorem Shell.stream_afterRead_ne (sh : Shell) {i j : Fin streamCount} (hne : i ≠ j) (s : Stream)
    (bytes : List UInt8) : (sh.afterRead i s bytes).stream j = sh.stream j :=
  sh.stream_setStream_ne hne s

/-- Two rounds show the bytes of the first, then those of the second. -/
theorem Shell.afterRead_afterRead (sh : Shell) (i : Fin streamCount) (s t : Stream)
    (as bs : List UInt8) : (sh.afterRead i s as).afterRead i t bs = sh.afterRead i t (as ++ bs) := by
  unfold Shell.afterRead renderBytes
  rw [List.foldl_append, Vector.set_set]

/-- A round without bytes that leaves the stream as it was. -/
@[simp] theorem Shell.afterRead_nil (sh : Shell) (i : Fin streamCount) :
    sh.afterRead i (sh.stream i) [] = sh := by
  have hset : sh.streams.set i (sh.streams.get i) = sh.streams := Vector.set_getElem_self i.isLt
  unfold Shell.afterRead Shell.stream
  rw [hset]
  rfl

/-- A write to any stream reads and accepts no more bytes than it was passed. -/
theorem shWriteStream_le (sh : Shell) (i : Int) (buf : Nat → UInt8) (len : Int) :
    (shWriteStream sh i buf len).2.toNat ≤ len.toNat := by
  unfold shWriteStream
  split
  · exact Nat.zero_le _
  · exact streamWrite_le _ buf len

theorem shWriteStream_ret (sh : Shell) (i : Fin streamCount) (buf : Nat → UInt8) (len : Int) :
    (shWriteStream sh i.val buf len).2 = (streamWrite (sh.stream i) buf len).2 := by
  have hi : ¬ ((i.val : Int) < 0 ∨ (i.val : Int) ≥ streamCount) := by
    have := i.isLt
    omega
  unfold shWriteStream
  rw [dif_neg hi]
  rfl

/-- The shell of a call of `sh_write_stream` when `sh_render` is entered. -/
def Shell.staged (sh : Shell) (i : Fin streamCount) (buf : Nat → UInt8) (len : Int) : Shell :=
  (sh.setColor 0x07).setStream i (streamWrite (sh.stream i) buf len).1

theorem shWriteStream_staged (sh : Shell) (i : Fin streamCount) (buf : Nat → UInt8) (len : Int) :
    (shWriteStream sh i.val buf len).1 = shRender (sh.staged i buf len) := by
  have hi : ¬ ((i.val : Int) < 0 ∨ (i.val : Int) ≥ streamCount) := by
    have := i.isLt
    omega
  unfold shWriteStream
  rw [dif_neg hi]
  rfl

/-- A write to any stream depends only on the bytes it accepts. -/
theorem shWriteStream_congr {sh : Shell} {i : Int} {buf buf' : Nat → UInt8} {len : Int}
    (h : ∀ k < (shWriteStream sh i buf len).2.toNat, buf k = buf' k) :
    shWriteStream sh i buf len = shWriteStream sh i buf' len := by
  unfold shWriteStream at h ⊢
  split
  · rfl
  · rename_i hi
    rw [dif_neg hi] at h
    simp only [streamWrite_congr h]

/-- `shInit` empties the streams and leaves their old bytes in the arrays. -/
theorem shInit_stream {data : Fin streamCount → Vector UInt8 streamBufSize}
    {memory : UInt32 → ShellChar} {width size : UInt32} {sh : Shell}
    (h : shInit data memory width size = .ok sh) (i : Fin streamCount) :
    sh.stream i = ⟨data i, 0, 0, 0⟩ := by
  unfold shInit at h
  split at h
  · exact absurd h (by simp)
  · obtain rfl := Except.ok.inj h
    exact Vector.getElem_ofFn i.isLt

/-- The shell `kernel_entry` sets up, over zeroed memory. -/
def bootShell : Shell where
  screen := shClear ⟨fun _ => ⟨0, 0⟩, vgaWidth * vgaHeight, 0, vgaWidth, vgaWidth * vgaHeight / vgaWidth,
    0x07, by decide⟩
  streams := Vector.ofFn fun _ => emptyStream

theorem shInit_bootShell : shInit (fun _ => Vector.replicate streamBufSize 0) (fun _ => ⟨0, 0⟩) vgaWidth
    (vgaWidth * vgaHeight) = .ok bootShell := dif_neg (by decide)

/-! ## When `shPrintf` returns -/

/-- The kinds of variadic arguments. -/
inductive VaKind
  | str
  | word
deriving DecidableEq

def VaArg.kind : VaArg → VaKind
  | str _ => .str
  | word _ => .word

/-- The kinds of the arguments a directive leaves, or `none` when it asks for one that is not there. -/
def directiveKinds (d : UInt8) (kinds : List VaKind) : Option (List VaKind) :=
  match Char.ofNat d.toNat, kinds with
  | 's', .str :: kinds => some kinds
  | 's', _ => none
  | 'd', .word :: kinds | 'u', .word :: kinds => some kinds
  | 'd', _ | 'u', _ => none
  | 'x', .word :: kinds | 'p', .word :: kinds | 'c', .word :: kinds => some kinds
  | 'x', _ | 'p', _ | 'c', _ => none
  | _, kinds => some kinds

theorem printfDirective_kinds (sh : Shell) (d : UInt8) (args : List VaArg) :
    (printfDirective sh d args).map (fun r => r.2.map VaArg.kind)
      = directiveKinds d (args.map VaArg.kind) := by
  unfold printfDirective directiveKinds
  cases args with
  | nil => split <;> simp_all
  | cons a rest =>
      cases a with
      | str s => split <;> simp_all [VaArg.kind]
      | word w => split <;> simp_all [VaArg.kind]

/-- The loop of `sh_printf` meets a NUL, and an argument for each directive before it. -/
def formatFits : (fmt : List UInt8) → (kinds : List VaKind) → Bool
  | [], _ => false
  | c :: fmt, kinds =>
    if c = 0 then true
    else if c = 37 then
      match fmt with
      | [] => false
      | d :: fmt =>
        match directiveKinds d kinds with
        | none => false
        | some kinds => formatFits fmt kinds
    else formatFits fmt kinds

theorem formatFits_ofList {cs : List Char} {kinds : List VaKind}
    (h : formatFits ((cs.map fun c => UInt8.ofNat c.toNat) ++ [0]) kinds = true) :
    formatFits (literal (String.ofList cs)) kinds = true := by
  rw [literal_ofList]
  exact h

/-- A format string that fits its arguments is printed, whatever the shell and the arguments are. -/
theorem shPrintf_total (sh : Shell) {fmt : List UInt8} {kinds : List VaKind}
    (h : formatFits fmt kinds = true) (args : List VaArg) (hargs : args.map VaArg.kind = kinds) :
    ∃ sh', shPrintf sh fmt args = .ok sh' := by
  induction fmt, kinds using formatFits.induct generalizing sh args with
  | case1 kinds => exact absurd h (by simp [formatFits])
  | case2 fmt kinds => exact ⟨sh, by rw [shPrintf.eq_def]; simp⟩
  | case3 kinds h0 => exact absurd h (by simp [formatFits])
  | case4 kinds d fmt hnone h0 =>
      rw [formatFits.eq_def] at h
      simp [hnone] at h
  | case5 kinds d fmt rest hsome h0 ih =>
      have hfits : formatFits fmt rest = true := by
        rw [formatFits.eq_def] at h
        simpa [hsome] using h
      have hdir := printfDirective_kinds sh d args
      rw [hargs, hsome, Option.map_eq_some_iff] at hdir
      obtain ⟨⟨sh₁, rest₁⟩, hprint, hrest⟩ := hdir
      obtain ⟨sh₂, hsh₂⟩ := ih sh₁ hfits rest₁ hrest
      exact ⟨sh₂, by rw [shPrintf.eq_def]; simp [hprint, hsh₂]⟩
  | case6 c fmt kinds h0 h37 ih =>
      have hfits : formatFits fmt kinds = true := by
        rw [formatFits.eq_def] at h
        simpa [h0, h37] using h
      obtain ⟨sh₁, hsh₁⟩ := ih (shPutc sh c) hfits args hargs
      exact ⟨sh₁, by rw [shPrintf.eq_def]; simp [h0, h37, hsh₁]⟩

end Drupe
