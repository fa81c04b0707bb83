import Drupe.Lib.IoPort
import Drupe.Usermode.Usermode

/-!
# `Usermode.Switch` — the way to the user program (`um_switch`)

`um_switch` builds the frame of an interrupt by hand and returns through it.
-/

namespace Drupe

open Lib.X86

/-- The user data selector, with the privilege level of the user. -/
def userDataSel : UInt16 := 0x23

/-- The user code selector. -/
def userCodeSel : UInt16 := 0x1B

/-- The user data segment is set up. -/
def userSregs (c : Cpu) : Cpu := [Sreg.ds, .es, .fs, .gs].foldl (fun c r => c.setSreg r userDataSel) c

/-- `um_switch`, up to its `iret`. -/
def umSwitchFrame (s : State) : State :=
  let s := { s with cpu := userSregs s.cpu }
  let s := (s.push userDataSel.toUInt32).push userStackTop
  let s := s.pushf.orTop 0x200
  (s.push userCodeSel.toUInt32).push userCodeBase

def umSwitch (s : State) : State := (umSwitchFrame s).iret

theorem userSregs_eflags (c : Cpu) : (userSregs c).eflags = c.eflags := rfl

theorem umSwitchFrame_top (s : State) : (umSwitchFrame s).Top
    [userCodeBase, userCodeSel.toUInt32, s.cpu.eflags &&& 0xFCFFFF ||| 0x200, userStackTop,
      userDataSel.toUInt32] := by
  have hempty : ({ s with cpu := userSregs s.cpu } : State).Top [] := True.intro
  have hstack := (hempty.push (by simp) userDataSel.toUInt32).push (by simp) userStackTop
  have hflags := (hstack.pushf (by simp)).orTop (by simp) 0x200
  have hframe := (hflags.push (by simp) userCodeSel.toUInt32).push (by simp) userCodeBase
  have heflags : ((({ s with cpu := userSregs s.cpu } : State).push userDataSel.toUInt32).push
      userStackTop).cpu.eflags = s.cpu.eflags := userSregs_eflags s.cpu
  rw [heflags] at hframe
  exact hframe

/-- **The switch to the user program**: it runs in ring 3, with the I/O privilege level of the kernel. -/
theorem umSwitch_cpu (s : State) :
    (umSwitch s).cpu.cs = userCodeSel ∧ iopl (umSwitch s).cpu.eflags = iopl s.cpu.eflags := by
  have htop := umSwitchFrame_top s
  have hcs : (umSwitchFrame s).stack ((umSwitchFrame s).cpu.esp + 4) = userCodeSel.toUInt32 :=
    htop.get (i := 1) rfl
  have hflags : (umSwitchFrame s).stack ((umSwitchFrame s).cpu.esp + 8) = s.cpu.eflags &&& 0xFCFFFF ||| 0x200 :=
    htop.get (i := 2) rfl
  unfold umSwitch
  obtain ⟨hcs', hflags'⟩ := (umSwitchFrame s).iret_cpu
  rw [hcs', hflags', hcs, hflags, iopl_pushf]
  exact ⟨rfl, rfl⟩

end Drupe
