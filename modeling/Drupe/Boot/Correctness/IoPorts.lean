import Drupe.Boot.Tss
import Drupe.Usermode.Switch

/-!
# `Boot.Correctness.IoPorts` — the ports that the user program may use

The segment has no room for an I/O permission bitmap after its fields, and `tss_setup` leaves the base of the
bitmap 0: the bitmap is what the fields themselves happen to be. A clear bit in them permits a port, and most
of them are zero (`umSwitch_mayAccess_iff`).
-/

namespace Drupe

open Lib Lib.X86

/-- The last offset of the segment of an entry. -/
def GdtEntry.limit (e : GdtEntry) : Nat :=
  let limit := e.limitLow.toNat + 65536 * (e.granularity &&& 0xF).toNat
  if e.granularity &&& 0x80 = 0 then limit else 4096 * limit + 4095

/-- The task state segment, as the processor reads it. -/
def Tables.taskSegment (t : Tables) : TaskSegment where
  byte i := t.tss.bytes[i]?.getD 0
  limit := (t.gdt.entry gdtTssEntry).limit
  iomapBase := t.tss.iomapBase.toNat

/-- The tables after `tss_setup` and calls of `tss_set_kernel_stack`. -/
def stackedTables (tssAddr : UInt32) (t : Tables) (tops : List UInt32) : Tables :=
  tops.foldl Tables.tssSetKernelStack (tssSetup tssAddr t)

/-- Only the stack changes. -/
theorem foldl_tssSetKernelStack (t : Tables) (tops : List UInt32) :
    (tops.foldl Tables.tssSetKernelStack t).gdt = t.gdt ∧
      ∃ stack, (tops.foldl Tables.tssSetKernelStack t).tss = { t.tss with esp0 := stack } := by
  induction tops generalizing t with
  | nil => exact ⟨rfl, t.tss.esp0, rfl⟩
  | cons stack tops ih =>
    obtain ⟨hgdt, last, htss⟩ := ih (t.tssSetKernelStack stack)
    exact ⟨hgdt, last, htss⟩

theorem tssDescriptor_limit (tssAddr : UInt32) : (tssDescriptor tssAddr).limit = 103 := by
  have hlow : (tssDescriptor tssAddr).limitLow = 103 := rfl
  have hgran : (tssDescriptor tssAddr).granularity = 0 := rfl
  unfold GdtEntry.limit
  rw [hlow, hgran]
  decide

theorem stackedTables_limit (tssAddr : UInt32) (t : Tables) (tops : List UInt32) :
    (stackedTables tssAddr t tops).taskSegment.limit = 103 := by
  have hentry : (stackedTables tssAddr t tops).gdt.entry gdtTssEntry = tssDescriptor tssAddr := by
    unfold stackedTables Gdt.entry
    rw [(foldl_tssSetKernelStack _ tops).1, tssSetup_gdt, Vector.getElem?_setIfInBounds]
    rfl
  exact (congrArg GdtEntry.limit hentry).trans (tssDescriptor_limit tssAddr)

theorem stackedTables_iomapBase (tssAddr : UInt32) (t : Tables) (tops : List UInt32) :
    (stackedTables tssAddr t tops).taskSegment.iomapBase = 0 := by
  obtain ⟨-, stack, htss⟩ := foldl_tssSetKernelStack (tssSetup tssAddr t) tops
  unfold Tables.taskSegment stackedTables
  rw [htss]
  rfl

/-- **The ports that are open to the user program**: those with a clear bit in the fields of the segment, for
    every state of the processor before the switch, every address of the segment and all stacks. -/
theorem umSwitch_mayAccess_iff {s : State} (hiopl : iopl s.cpu.eflags = 0) (tssAddr : UInt32) (t : Tables)
    (tops : List UInt32) (p : UInt16) :
    (umSwitch s).cpu.MayAccess (stackedTables tssAddr t tops).taskSegment p ↔
      p.toNat < 824 ∧
        (((stackedTables tssAddr t tops).tss.bytes[p.toNat / 8]?).getD 0).toNat.testBit (p.toNat % 8) = false := by
  obtain ⟨hcs, hflags⟩ := umSwitch_cpu s
  have hring : rpl (umSwitch s).cpu.cs = 3 := by
    rw [hcs]
    decide
  rw [Cpu.mayAccess_iff hring (hflags.trans hiopl)]
  unfold TaskSegment.Permits
  rw [stackedTables_limit, stackedTables_iomapBase, Nat.zero_add]
  constructor
  · rintro ⟨-, hnext, hclear⟩
    exact ⟨by omega, hclear⟩
  · rintro ⟨hlt, hclear⟩
    exact ⟨by omega, by omega, hclear⟩

/-- The port of the keyboard, 0x60, is one: its bit is in the field `esp1`, which is 0. -/
theorem stackedTables_keyboard (tssAddr : UInt32) (t : Tables) (tops : List UInt32) :
    (stackedTables tssAddr t tops).tss.bytes[12]? = some 0 := by
  obtain ⟨-, stack, htss⟩ := foldl_tssSetKernelStack (tssSetup tssAddr t) tops
  unfold stackedTables
  rw [htss]
  rfl

/-- No port is open. -/
def PortsDenied (c : Cpu) (t : TaskSegment) : Prop := ∀ p, ¬ c.MayAccess t p

/-- **The ports are never denied to the user program.** -/
theorem umSwitch_not_portsDenied {s : State} (hiopl : iopl s.cpu.eflags = 0) (tssAddr : UInt32) (t : Tables)
    (tops : List UInt32) :
    ¬ PortsDenied (umSwitch s).cpu (stackedTables tssAddr t tops).taskSegment := by
  intro hdenied
  apply hdenied 0x60
  rw [umSwitch_mayAccess_iff hiopl]
  have hbyte : (0x60 : UInt16).toNat / 8 = 12 := rfl
  refine ⟨by decide, ?_⟩
  rw [hbyte, stackedTables_keyboard]
  rfl

/-- The processor in the kernel, with interrupts enabled. -/
def bootState : State where
  cpu := ⟨0, 0, 0, 0, 0x90000, 0, 0, 0, 0, 0x202, gdtKernelCodeSel, gdtKernelDataSel, gdtKernelDataSel,
    gdtKernelDataSel, gdtKernelDataSel, gdtKernelDataSel⟩
  stack _ := 0

theorem umSwitch_not_portsDenied_boot :
    ¬ PortsDenied (umSwitch bootState).cpu (stackedTables 0x2000 clearedTables [0x90000]).taskSegment :=
  umSwitch_not_portsDenied (by decide) 0x2000 clearedTables [0x90000]

/-- The stack that the kernel sets when it starts, and the port of the keyboard. -/
theorem umSwitch_keyboard :
    (umSwitch bootState).cpu.MayAccess (stackedTables 0x2000 clearedTables [0x90000]).taskSegment 0x60 := by
  decide +kernel

end Drupe
