import Drupe.Interrupts.Handlers
import Drupe.Lib.Pic

/-!
# `Interrupts.Pic` — the interrupt controllers (`interrupts.c`)

`irqEnable` and `irqDisable` are not called by the kernel; they are here as what the file offers. The shift in
them is undefined for a line from 40 on.
-/

namespace Drupe

open Lib

attribute [local instance] neZero_eight

/-- What `pic_init` writes. The masks that it reads before are not used. -/
def picInitWrites : List (UInt16 × UInt8) :=
  [(0x20, 0x11), (0xA0, 0x11), (0x21, 0x20), (0xA1, 0x28), (0x21, 0x04), (0xA1, 0x02), (0x21, 0x01), (0xA1, 0x01),
    (0x21, 0xFC), (0xA1, 0xFF)]

def picInit (p : Pic) : Pic := p.outs picInitWrites

def irqEnable (irq : UInt8) (p : Pic) : Pic :=
  let (port, irq) : UInt16 × UInt8 := if irq < 8 then (0x21, irq) else (0xA1, irq - 8)
  let value := ((p.mask port).toUInt32 &&& ~~~(1 <<< irq.toUInt32)).toUInt8
  p.out port value

def irqDisable (irq : UInt8) (p : Pic) : Pic :=
  let (port, irq) : UInt16 × UInt8 := if irq < 8 then (0x21, irq) else (0xA1, irq - 8)
  let value := ((p.mask port).toUInt32 ||| 1 <<< irq.toUInt32).toUInt8
  p.out port value

/-! ## Interrupts by hardware -/

inductive PicEvent
  /-- A device asks for an interrupt. -/
  | raise (n : Line)
  /-- The processor takes an interrupt, and `irq_handler` runs. -/
  | irq (vector : UInt8)
  | enable (irq : UInt8)
  | disable (irq : UInt8)
deriving DecidableEq

/-- The gates of hardware are interrupt gates, so nothing comes between an interrupt and the end of its handler. -/
inductive PicStep : Pic → PicEvent → Pic → Prop
  | raise (p : Pic) {n : Line} (hdevice : n ≠ .master 2) : PicStep p (.raise n) (p.raise n)
  | irq {p q : Pic} {vector : UInt8} {shell shell' : Option Shell} {scancode : UInt8} {f : InterruptFrame}
      {ports : List (UInt16 × UInt8)} (hack : p.acknowledge = some (vector, q)) (hframe : f.intNo = vector.toUInt32)
      (hhandler : irqHandler shell scancode f = .ok (shell', ports)) : PicStep p (.irq vector) (q.outs ports)
  | enable (p : Pic) {irq : UInt8} (hirq : irq < 40) : PicStep p (.enable irq) (irqEnable irq p)
  | disable (p : Pic) {irq : UInt8} (hirq : irq < 40) : PicStep p (.disable irq) (irqDisable irq p)

/-- The line of a number below 16. -/
def lineAt (irq : UInt8) : Line := if irq < 8 then .master (Fin.ofNat 8 irq.toNat) else .slave (Fin.ofNat 8 irq.toNat)

/-- What happens to the requests. -/
def PicEvent.onLines : PicEvent → Lines.Event
  | .raise n => .raise n
  | .irq vector => .serve (lineAt (vector - 32))
  | .enable k => .enable (if k < 16 then some (lineAt k) else none) true
  | .disable k => .enable (if k < 16 then some (lineAt k) else none) false

/-- Nothing is requested, and the timer and the keyboard are enabled. -/
def bootLines : Lines where
  requested _ := false
  enabled n := n = .master 0 ∨ n = .master 1

end Drupe
