import Drupe.Boot.Gdt
import Drupe.Interrupts.Stubs

/-!
# `Boot.Tss` — the task state segment and the descriptor tables (`idt.c`)

The kernel has one task state segment, at an address that the linker gives, `tssAddr`. `tss_setup` clears
it, sets its selectors, and enters it in the global descriptor table. After that only `esp0` changes.
-/

namespace Drupe

open Lib

/-- `tss_entry_t` -/
structure Tss where
  prevTss : UInt32
  esp0 : UInt32
  ss0 : UInt32
  esp1 : UInt32
  ss1 : UInt32
  esp2 : UInt32
  ss2 : UInt32
  cr3 : UInt32
  eip : UInt32
  eflags : UInt32
  eax : UInt32
  ecx : UInt32
  edx : UInt32
  ebx : UInt32
  esp : UInt32
  ebp : UInt32
  esi : UInt32
  edi : UInt32
  es : UInt32
  cs : UInt32
  ss : UInt32
  ds : UInt32
  fs : UInt32
  gs : UInt32
  ldt : UInt32
  trap : UInt16
  iomapBase : UInt16
deriving DecidableEq

/-- The bytes of a word in memory, the lowest first. -/
def bytes32 (w : UInt32) : List UInt8 :=
  [w.toUInt8, (w >>> 8).toUInt8, (w >>> 16).toUInt8, (w >>> 24).toUInt8]

/-- The bytes of the segment in memory. -/
def Tss.bytes (t : Tss) : List UInt8 :=
  [t.prevTss, t.esp0, t.ss0, t.esp1, t.ss1, t.esp2, t.ss2, t.cr3, t.eip, t.eflags, t.eax, t.ecx, t.edx, t.ebx,
    t.esp, t.ebp, t.esi, t.edi, t.es, t.cs, t.ss, t.ds, t.fs, t.gs, t.ldt].flatMap bytes32
  ++ bytes16 t.trap ++ bytes16 t.iomapBase

/-- `sizeof(tss_entry_t)` -/
def tssSize : UInt32 := 104

def clearedTss : Tss where
  prevTss := 0
  esp0 := 0
  ss0 := 0
  esp1 := 0
  ss1 := 0
  esp2 := 0
  ss2 := 0
  cr3 := 0
  eip := 0
  eflags := 0
  eax := 0
  ecx := 0
  edx := 0
  ebx := 0
  esp := 0
  ebp := 0
  esi := 0
  edi := 0
  es := 0
  cs := 0
  ss := 0
  ds := 0
  fs := 0
  gs := 0
  ldt := 0
  trap := 0
  iomapBase := 0

/-- The descriptor tables: the static variables of `gdt.c` and `idt.c`. -/
structure Tables where
  gdt : Gdt
  idtEntries : Vector IdtEntry idtEntriesCount
  tss : Tss

def tssSetup (tssAddr : UInt32) (t : Tables) : Tables where
  tss := { clearedTss with
    ss0 := gdtKernelDataSel.toUInt32
    esp0 := 0
    cs := gdtKernelCodeSel.toUInt32
    ss := gdtKernelDataSel.toUInt32
    ds := gdtKernelDataSel.toUInt32
    es := gdtKernelDataSel.toUInt32
    fs := gdtKernelDataSel.toUInt32
    gs := gdtKernelDataSel.toUInt32 }
  gdt := { t.gdt with
    gdtEntries := gdtSetEntry t.gdt.gdtEntries gdtTssEntry tssAddr (tssSize - 1) 0x89 0x00 }
  idtEntries := t.idtEntries

/-- `tss_set_kernel_stack` -/
def Tables.tssSetKernelStack (t : Tables) (stack : UInt32) : Tables := { t with tss := { t.tss with esp0 := stack } }

/-- The tables before the kernel sets them up: the static variables are zero. -/
def clearedTables : Tables where
  gdt := ⟨Vector.replicate gdtEntriesCount ⟨0, 0, 0, 0, 0, 0⟩, ⟨0, 0⟩, 0, false⟩
  idtEntries := Vector.replicate idtEntriesCount ⟨0, 0, 0, 0, 0⟩
  tss := clearedTss

/-- Where the linker put the tables and the stubs. -/
structure TableAddrs where
  gdt : UInt32
  tss : UInt32
  stub : Stub → UInt32

/-- `gdt_setup` -/
def Tables.gdtSetup (t : Tables) (addrs : TableAddrs) : Tables := { t with gdt := (Drupe.gdtSetup addrs.gdt t.gdt).1 }

/-- `idt_setup` -/
def Tables.idtSetup (t : Tables) (addrs : TableAddrs) : Tables :=
  tssSetup addrs.tss { t with idtEntries := Drupe.idtSetup addrs.stub }

/-- The operations of the kernel on the descriptor tables. -/
inductive TableOp
  | gdtSetup
  | idtSetup
  | tssSetKernelStack (stack : UInt32)
deriving DecidableEq

def Tables.apply (addrs : TableAddrs) (t : Tables) : TableOp → Tables
  | .gdtSetup => t.gdtSetup addrs
  | .idtSetup => t.idtSetup addrs
  | .tssSetKernelStack stack => t.tssSetKernelStack stack

/-- The descriptor of the task state segment. -/
def tssDescriptor (tssAddr : UInt32) : GdtEntry where
  baseLow := (tssAddr &&& 0xFFFF).toUInt16
  baseMiddle := ((tssAddr >>> 16) &&& 0xFF).toUInt8
  baseHigh := ((tssAddr >>> 24) &&& 0xFF).toUInt8
  limitLow := 103
  granularity := 0
  access := 0x89

theorem tssSetup_gdt (tssAddr : UInt32) (t : Tables) : (tssSetup tssAddr t).gdt = { t.gdt with
    gdtEntries := t.gdt.gdtEntries.setIfInBounds gdtTssEntry (tssDescriptor tssAddr) } := rfl

end Drupe
