import Drupe.Interrupts.Handlers
import Drupe.Shell.Correctness.Drained
import Drupe.Shell.Statements

/-!
# `Interrupts.Preemption` — keys that interrupt a call of `sh_write_stream`

Vector `0x80` is a trap gate, and the kernel prints after `sti`: a call of `sh_write_stream` runs with
interrupts enabled, and a key calls `sh_write_stream` again, on the same shell. The gate of the keyboard
is an interrupt gate, so `irq_handler` itself runs to its end.

`Config.Harmless` says where a key does no harm. The reason is `Stream.Dry` in most cases: the call is at
work on a stream, and the handler would take nothing from it.
-/

namespace Drupe

/-! ## The handler -/

/-- What `sh_render` brings to the screen. -/
def Shell.rendered (sh : Shell) : List Rendered :=
  ((sh.delivered streamStdout).map fun c => Output.stdout.mark (c, sh.screen.color)) ++
  (sh.delivered streamStderr).map fun c => Output.stderr.mark (c, 0x04)

/-- What a key brings to the screen. -/
def keyRendered (sh : Shell) (scancode : UInt8) : List Rendered :=
  if scancodeToAscii scancode = 0 then []
  else (sh.staged streamStdin (fun _ => scancodeToAscii scancode) 1).rendered

/-- A turn in the run of an interrupted call. -/
inductive Turn
  | statement
  | key (scancode : UInt8)
deriving DecidableEq

/-- **The interrupted call.** Before each of its statements, any number of keys. -/
inductive Preempted (call : WriteCall) : Config → Turn → Config → Prop
  | statement {c c' : Config} (hstep : c.step call = some c') : Preempted call c .statement c'
  | key {c : Config} {f : InterruptFrame} {scancode : UInt8} {sh : Shell} {ports : List (UInt16 × UInt8)}
      (hunder : c.next ≠ .done) (hvector : f.intNo = 33)
      (hhandler : irqHandler (some c.shell) scancode f = .ok (some sh, ports)) :
      Preempted call c (.key scancode) { c with shell := sh, log := c.log ++ keyRendered c.shell scancode }

/-! ## Where a key does no harm -/

/-- Inside `stream_write`. To stdin, the handler must leave room for what is still to be written. To
    another stream, it must not make room between the test of the length and the cut, unless the text is
    as long as the array. -/
def Writing.Safe (target : Fin streamCount) (w : Writing) (s : Stream) : Prop :=
  match w.next with
  | .test => True
  | .cut => target = streamStdin ∨ s.Dry ∨ streamBufSize ≤ w.len
  | _ => target ≠ streamStdin ∨ w.len ≤ w.written ∨ s.count + (w.len - w.written) < streamBufSize

/-- Inside `stream_read`. From the test of `count` to the decrement, the handler must not take what the
    call is about to take; and what was taken must still come to the screen before the rest, in its
    colour. -/
def Reading.Safe (o : Output) (r : Reading) (s : Stream) : Prop :=
  match r.next with
  | .test => r.taken = [] ∨ o = .stdout ∧ s.Dry
  | .newline => r.taken = [] ∧ s.Dry
  | _ => False

/-- The current character is on the screen, and the cursor does not follow it yet. -/
def ShowAt.Unfinished (sc : Screen) : ShowAt → Prop
  | .char | .store _ => False
  | .full => sc.cursor ≥ sc.size
  | _ => True

/-- Inside a loop over characters. In the middle of one, the handler must not show any itself. Otherwise,
    it must not show those that come after the pending ones, nor change the colour of these. -/
def Showing.Safe (o : Output) (h : Showing) (sh : Shell) : Prop :=
  (h.pending = [] ∨ o = .stdout ∧ (sh.stream streamStdout).Dry) ∧
  (h.next.Unfinished sh.screen → (sh.stream streamStdout).Dry ∧ (sh.stream streamStderr).Dry)

def Config.Safe (call : WriteCall) (c : Config) : Prop :=
  match c.next with
  | .writing w => w.Safe call.target (c.shell.stream call.target)
  | .reading o r => r.Safe o (c.shell.stream o.index)
  | .showing o h => h.Safe o c.shell
  | _ => True

/-- The keyboard interrupts that do no harm: those that type no character, and those at a safe place. -/
def Config.Harmless (call : WriteCall) (c : Config) : Turn → Prop
  | .statement => True
  | .key scancode => scancodeToAscii scancode = 0 ∨ c.Safe call

end Drupe
