import Drupe.Interrupts.Handlers
import Drupe.Lib.X86

/-!
# `Interrupts.Stubs` — the stubs (`idt_asm.asm`) and their gates (`idt.c`)

A stub pushes a vector, after a zero where the processor pushes no error code, and goes on to `isr_common`
or `irq_common`; the jump is an append here. The common code saves the registers, passes the address of
what it saved to the C handler, and restores them.

`idtSetup` fills the table of gates. The frame a handler gets is memory of the kernel stack, which is
apart from the memory that system calls get at.
-/

namespace Drupe

open Lib.X86

/-- The C functions that the stubs call. -/
inductive CHandler
  | interruptHandler
  | irqHandler
deriving DecidableEq

/-- The code of `isr_common` and `irq_common`, which differ in the function they call. -/
def commonCode (handler : CHandler) : List (Instr CHandler) :=
  [.pushad, .pushSreg .ds, .pushSreg .es, .pushSreg .fs, .pushSreg .gs,
    .movAx 0x10, .movSreg .ds, .movSreg .es, .movSreg .fs, .movSreg .gs,
    .pushEsp, .call handler, .addEsp 4,
    .popSreg .gs, .popSreg .fs, .popSreg .es, .popSreg .ds,
    .popad, .addEsp 8, .iret]

def isrCommon : List (Instr CHandler) := commonCode .interruptHandler

def irqCommon : List (Instr CHandler) := commonCode .irqHandler

/-- The stubs, by their labels. -/
inductive Stub
  | isr0
  | isr1
  | isr2
  | isr3
  | isr4
  | isr5
  | isr6
  | isr7
  | isr8
  | isr10
  | isr11
  | isr12
  | isr13
  | isr14
  | isr16
  | isr128
  | irq0
  | irq1
deriving DecidableEq

def Stub.code : Stub → List (Instr CHandler)
  | isr0 => [.push 0, .push 0] ++ isrCommon
  | isr1 => [.push 0, .push 1] ++ isrCommon
  | isr2 => [.push 0, .push 2] ++ isrCommon
  | isr3 => [.push 0, .push 3] ++ isrCommon
  | isr4 => [.push 0, .push 4] ++ isrCommon
  | isr5 => [.push 0, .push 5] ++ isrCommon
  | isr6 => [.push 0, .push 6] ++ isrCommon
  | isr7 => [.push 0, .push 7] ++ isrCommon
  | isr8 => [.push 8] ++ isrCommon
  | isr10 => [.push 10] ++ isrCommon
  | isr11 => [.push 11] ++ isrCommon
  | isr12 => [.push 12] ++ isrCommon
  | isr13 => [.push 13] ++ isrCommon
  | isr14 => [.push 14] ++ isrCommon
  | isr16 => [.push 0, .push 16] ++ isrCommon
  | isr128 => [.push 0, .push 128] ++ isrCommon
  | irq0 => [.push 0, .push 32] ++ irqCommon
  | irq1 => [.push 0, .push 33] ++ irqCommon

/-! ## The table of gates -/

def gdtKernelCodeSel : UInt16 := 0x08
def gdtKernelDataSel : UInt16 := 0x10

def idtTypeInterruptGate : UInt8 := 0x8E
def idtTypeTrapGate : UInt8 := 0x8F
def idtFlagRing3 : UInt8 := 0x60

/-- `IDT_ENTRIES_COUNT` -/
abbrev idtEntriesCount : Nat := 256

/-- `idt_entry_t` -/
structure IdtEntry where
  handlerLow : UInt16
  selector : UInt16
  reserved : UInt8
  typeAttr : UInt8
  handlerHigh : UInt16
deriving DecidableEq

def idtSetEntry (idt : Vector IdtEntry idtEntriesCount) (index : Int) (handler : UInt32) (selector : UInt16)
    (typeAttr : UInt8) : Vector IdtEntry idtEntriesCount :=
  if index < 0 ∨ index ≥ idtEntriesCount then idt
  else idt.setIfInBounds index.toNat
    { handlerLow := (handler &&& 0xFFFF).toUInt16
      handlerHigh := ((handler >>> 16) &&& 0xFFFF).toUInt16
      selector
      reserved := 0
      typeAttr }

/-- The calls of `idt_set_entry` that `idt_setup` makes, in order: vector, stub and type. All are for the code
    segment of the kernel. -/
def idtCalls : List (Nat × Stub × UInt8) :=
  [(0, .isr0, idtTypeInterruptGate), (1, .isr1, idtTypeInterruptGate), (2, .isr2, idtTypeInterruptGate),
    (3, .isr3, idtTypeInterruptGate), (4, .isr4, idtTypeInterruptGate), (5, .isr5, idtTypeInterruptGate),
    (6, .isr6, idtTypeInterruptGate), (7, .isr7, idtTypeInterruptGate), (8, .isr8, idtTypeInterruptGate),
    (10, .isr10, idtTypeInterruptGate), (11, .isr11, idtTypeInterruptGate), (12, .isr12, idtTypeInterruptGate),
    (13, .isr13, idtTypeInterruptGate), (14, .isr14, idtTypeInterruptGate), (16, .isr16, idtTypeInterruptGate),
    (32, .irq0, idtTypeInterruptGate), (33, .irq1, idtTypeInterruptGate),
    (0x80, .isr128, idtTypeTrapGate ||| idtFlagRing3)]

/-- `idt_setup`, up to `tss_setup`. `address` is where the linker put the stubs. -/
def idtSetup (address : Stub → UInt32) : Vector IdtEntry idtEntriesCount :=
  idtCalls.foldl (fun idt call => idtSetEntry idt call.1 (address call.2.1) gdtKernelCodeSel call.2.2)
    (Vector.replicate idtEntriesCount ⟨0, 0, 0, 0, 0⟩)

/-- An entry, as the processor reads it. Bit 0 of the type tells the kinds of gates apart. -/
def IdtEntry.gate (e : IdtEntry) : Gate where
  selector := e.selector
  offset := e.handlerHigh.toUInt32 <<< 16 ||| e.handlerLow.toUInt32
  interruptGate := e.typeAttr &&& 1 = 0

/-! ## The frame -/

/-- The fields of a frame, from the lowest address up. -/
def InterruptFrame.words (f : InterruptFrame) : List UInt32 :=
  [f.gs, f.fs, f.es, f.ds, f.edi, f.esi, f.ebp, f.esp, f.ebx, f.edx, f.ecx, f.eax, f.intNo, f.errCode, f.eip,
    f.cs, f.eflags, f.useresp, f.ss]

/-- The `interrupt_frame_t` at `a`. -/
def InterruptFrame.read (stack : UInt32 → UInt32) (a : UInt32) : InterruptFrame where
  gs := stack a
  fs := stack (a + 4)
  es := stack (a + 8)
  ds := stack (a + 12)
  edi := stack (a + 16)
  esi := stack (a + 20)
  ebp := stack (a + 24)
  esp := stack (a + 28)
  ebx := stack (a + 32)
  edx := stack (a + 36)
  ecx := stack (a + 40)
  eax := stack (a + 44)
  intNo := stack (a + 48)
  errCode := stack (a + 52)
  eip := stack (a + 56)
  cs := stack (a + 60)
  eflags := stack (a + 64)
  useresp := stack (a + 68)
  ss := stack (a + 72)

/-- The argument of a call: the address on top of the stack, of a frame. -/
def passedFrame (s : State) : InterruptFrame := InterruptFrame.read s.stack s.top

end Drupe
