import Drupe.Interrupts.Pic
import Drupe.System.Machine

/-!
# `System.Board` — the machine and its interrupt controllers

Devices ask for interrupts when they like. The processor takes one between two steps when its flags permit it, with
the vector that the controllers name, and what the handler writes to ports goes to the controllers.

The limits of `System.Machine` are those of the board. The ports of the controllers are open to the program
(`umSwitch_ports_iff`), but an instruction that uses one is no step here, so what the controllers are told they are
told by the handlers.
-/

namespace Drupe

open Lib Lib.X86

structure Board where
  machine : Machine
  pic : Pic

namespace Board

inductive Event
  /-- A step of the machine that is not an interrupt by hardware. -/
  | cpu (e : Drupe.Event)
  /-- A device asks for an interrupt. -/
  | raise (n : Line)
  | irq (vector : UInt8) (scancode : UInt8)
deriving DecidableEq

/-- **A step of the board**: of a program that leaves the ports alone, and with interrupts between two steps of the
    machine only. -/
inductive Step (u : Setup) (code : UserCode) : Board → Event → Board → Prop
  | cpu {m m' : Machine} {e : Drupe.Event} (p : Pic) (hstep : Machine.Step u code m e m')
      (hnot : ∀ vector scancode, e ≠ .irq vector scancode) : Step u code ⟨m, p⟩ (.cpu e) ⟨m', p⟩
  | raise (m : Machine) (p : Pic) {n : Line} (hdevice : n ≠ .master 2) : Step u code ⟨m, p⟩ (.raise n) ⟨m, p.raise n⟩
  | irq {m m' : Machine} {p q : Pic} {vector scancode : UInt8} {ports : List (UInt16 × UInt8)}
      (henabled : interruptsEnabled m.state.cpu.eflags) (hack : p.acknowledge = some (vector, q))
      (hserved : Served u m vector.toNat 0 scancode ports m') :
      Step u code ⟨m, p⟩ (.irq vector scancode) ⟨m', q.outs ports⟩

/-- The step of the machine. -/
def Event.onMachine : Event → Option Drupe.Event
  | cpu e => some e
  | raise _ => none
  | irq vector scancode => some (.irq vector.toNat scancode)

/-- What becomes of the requests. -/
def Event.onLines : Event → Option Lines.Event
  | cpu _ => none
  | raise n => some (.raise n)
  | irq vector _ => some (.serve (lineAt (vector - 32)))

end Board

end Drupe
