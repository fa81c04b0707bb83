import Drupe.Lib.X86

/-!
# `Lib.IoPort` — the ports that a program may use

Code of an outer ring may use a port when its privilege level is at most the I/O privilege level of the
flags, and otherwise when the I/O permission bitmap of the task state segment says so. The bitmap is what
lies in the segment from a base on that the segment itself names.
-/

namespace Lib.X86

/-- The I/O privilege level. -/
def iopl (eflags : UInt32) : UInt32 := (eflags >>> 12) &&& 3

/-- What the processor reads of a task state segment when a program uses a port. -/
structure TaskSegment where
  byte : Nat → UInt8
  /-- The last offset. -/
  limit : Nat
  iomapBase : Nat

/-- The bitmap permits the port: its byte and the one after it lie in the segment, and its bit is clear. -/
def TaskSegment.Permits (t : TaskSegment) (p : UInt16) : Prop :=
  t.iomapBase + p.toNat / 8 ≤ t.limit ∧ t.iomapBase + p.toNat / 8 + 1 ≤ t.limit ∧
    (t.byte (t.iomapBase + p.toNat / 8)).toNat.testBit (p.toNat % 8) = false

instance (t : TaskSegment) (p : UInt16) : Decidable (t.Permits p) := inferInstanceAs (Decidable (_ ∧ _ ∧ _))

def Cpu.MayAccess (c : Cpu) (t : TaskSegment) (p : UInt16) : Prop :=
  (rpl c.cs).toUInt32 ≤ iopl c.eflags ∨ t.Permits p

instance (c : Cpu) (t : TaskSegment) (p : UInt16) : Decidable (c.MayAccess t p) := inferInstanceAs (Decidable (_ ∨ _))

/-- In ring 3, without an I/O privilege level, all is up to the bitmap. -/
theorem Cpu.mayAccess_iff {c : Cpu} (hring : rpl c.cs = 3) (hiopl : iopl c.eflags = 0) (t : TaskSegment)
    (p : UInt16) : c.MayAccess t p ↔ t.Permits p := by
  unfold Cpu.MayAccess
  rw [hring, hiopl]
  exact or_iff_right (by decide)

/-! ## Flags on the stack -/

/-- `pushf`: `VM` and `RF` are clear in what is pushed. -/
def State.pushf (s : State) : State := s.push (s.cpu.eflags &&& 0xFCFFFF)

theorem State.Top.pushf {s : State} {ws : List UInt32} (h : s.Top ws) (hsmall : ws.length < 1073741824) :
    s.pushf.Top ((s.cpu.eflags &&& 0xFCFFFF) :: ws) :=
  h.push hsmall _

/-- `or dword [esp], imm`. The flags that it sets are not tracked. -/
def State.orTop (s : State) (imm : UInt32) : State :=
  { s with stack := Function.update s.stack s.cpu.esp (s.top ||| imm) }

theorem State.orTop_eq (s : State) (imm : UInt32) : s.orTop imm = (s.drop 4).push (s.top ||| imm) := by
  have hback : s.cpu.esp + 4 - 4 = s.cpu.esp := UInt32.add_sub_cancel _ _
  unfold State.orTop State.push State.drop
  simp only [hback]

theorem State.Top.orTop {s : State} {w : UInt32} {ws : List UInt32} (h : s.Top (w :: ws))
    (hsmall : ws.length < 1073741824) (imm : UInt32) : (s.orTop imm).Top ((w ||| imm) :: ws) := by
  have hdropped : (s.drop 4).Top ws := h.2
  have htop : s.top = w := h.1
  rw [State.orTop_eq, htop]
  exact hdropped.push hsmall _

/-- What `iret` takes from the stack, to whichever ring. -/
theorem State.iret_cpu (s : State) : s.iret.cpu.cs = (s.stack (s.cpu.esp + 4)).toUInt16 ∧
    s.iret.cpu.eflags = s.stack (s.cpu.esp + 8) := by
  unfold State.iret
  simp only
  split
  · exact ⟨rfl, rfl⟩
  · exact ⟨rfl, rfl⟩

/-- The I/O privilege level is among neither the flags that `pushf` clears nor those below it. -/
theorem iopl_pushf (eflags : UInt32) : iopl (eflags &&& 0xFCFFFF ||| 0x200) = iopl eflags := by
  have hshift : (0x200 : UInt32) >>> 12 = 0 := by decide
  have hmask : (0xFCFFFF : UInt32) >>> 12 = 0xFCF := by decide
  have hlow : (0xFCF : UInt32) &&& 3 = 3 := by decide
  unfold iopl
  rw [UInt32.shiftRight_or, UInt32.shiftRight_and, hshift, hmask, UInt32.or_zero, UInt32.and_assoc, hlow]

end Lib.X86
