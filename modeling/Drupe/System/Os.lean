import Drupe.Shell.Console
import Drupe.Shell.Correctness.Printf
import Drupe.System.Machine

/-!
# `System.Os` — what the kernel is to a program

A program has its registers and its memory; beside it there is the console. A system call is one step that
changes `eax`, the console and, when it reads, the memory; a tick of the timer changes nothing, and a key puts
its letter into the pipe of stdin. A program that raises an exception is reported and the system stops; one
that exits leaves an idle system behind. There are no stubs here, no frames and no stack, and an instruction uses
no port.
-/

namespace Drupe

open Lib.X86

/-- Bytes that the kernel prints: a write to stdout for each. -/
def Console.print (c : Console) (bytes : List UInt8) : Console :=
  bytes.foldl (fun c b => c.write streamStdout [b]) c

/-- The bytes at `a` replaced. -/
def Mem.put (m : Mem) (a : UInt32) (bytes : List UInt8) : Mem := fun x => bytes[(x - a).toNat]?.getD (m x)

/-- What is printed for a format string. -/
def Says (fmt : String) (args : List VaArg) (bytes : List UInt8) : Prop := printfBytes (literal fmt) args = .ok bytes

/-- **The system calls**, from the registers of the program: the answer, the console and the memory they leave. -/
inductive Syscall (c : Cpu) (con : Console) (m : Mem) : UInt32 → Console → Mem → Prop
  | write {con' : Console} {ret : Int} (hcall : c.eax = sysWrite) (hbuf : InWindow c.ecx)
      (hwrite : Console.Step con
        (.write (signed c.ebx) ((List.range (signed c.edx).toNat).map (userBuf m c.ecx)) ret) con') :
      Syscall c con m c.edx con' m
  | read {con' : Console} {bytes : List UInt8} (hcall : c.eax = sysRead) (hbuf : InWindow c.ecx)
      (hread : Console.Step con (.read (signed c.edx).toNat bytes) con') :
      Syscall c con m (UInt32.ofNat bytes.length) con' (m.put c.ecx bytes)
  | getpid (hcall : c.eax = sysGetpid) : Syscall c con m 1 con m
  | nullBuffer (hcall : c.eax = sysWrite ∨ c.eax = sysRead) (hnull : c.ecx = 0) : Syscall c con m errorResult con m
  | badString {bytes : List UInt8} (hcall : c.eax = sysWrite) (hnull : c.ecx ≠ 0) (hbuf : ¬ InWindow c.ecx)
      (htext : Says "Invalid string pointer: 0x%x\r\n" [.word c.ecx] bytes) :
      Syscall c con m errorResult (con.print bytes) m
  | badBuffer {bytes : List UInt8} (hcall : c.eax = sysRead) (hnull : c.ecx ≠ 0) (hbuf : ¬ InWindow c.ecx)
      (htext : Says "Invalid buffer pointer: 0x%x\r\n" [.word c.ecx] bytes) :
      Syscall c con m errorResult (con.print bytes) m
  | unknown {bytes : List UInt8} (hcall : c.eax ≠ sysWrite ∧ c.eax ≠ sysExit ∧ c.eax ≠ sysGetpid ∧ c.eax ≠ sysRead)
      (htext : Says "Unknown system call: %d\r\n" [.word c.eax] bytes) :
      Syscall c con m errorResult (con.print bytes) m

/-- The report of an exception that the program raised. -/
inductive Reported (c : Cpu) (vector : Nat) (code : UInt32) : List UInt8 → Prop
  | user {name first second third : List UInt8} (hname : exceptionMessages[vector]?.map text = some name)
      (hfirst : Says "EXCEPTION: %s (0x%x)\r\n" [.str (some name), .word (UInt32.ofNat vector)] first)
      (hsecond : Says "Error Code: 0x%x\r\n" [.word (if hasErrorCode vector then code else 0)] second)
      (hthird : Says "EIP: 0x%x, CS: 0x%x\r\n" [.word c.eip, .word c.cs.toUInt32] third) :
      Reported c vector code (first ++ second ++ third ++ text "Exception occurred in user mode!\r\n")

structure Os where
  cpu : Cpu
  mem : Mem
  console : Console
  place : Place

/-- The registers after an instruction of `n` bytes. -/
def nextInstr (c : Cpu) (n : UInt32) : Cpu := { c with eip := c.eip + n }

inductive Os.Step (code : UserCode) : Os → Event → Os → Prop
  | exec {o : Os} {cpu : Cpu} {mem : Mem} (hplace : o.place = .program) (hexec : code.exec o.cpu o.mem [] cpu mem) :
      Os.Step code o .exec { o with cpu, mem }
  | syscall {o : Os} {eax : UInt32} {console : Console} {mem : Mem} (hplace : o.place = .program)
      (hexit : o.cpu.eax ≠ sysExit) (hcall : Syscall (nextInstr o.cpu 2) o.console o.mem eax console mem) :
      Os.Step code o (.int 0x80) ⟨{ nextInstr o.cpu 2 with eax }, mem, console, .program⟩
  | exit {o : Os} {bytes : List UInt8} (hplace : o.place = .program) (hexit : o.cpu.eax = sysExit)
      (htext : Says "Exited with code %d\r\n" [.word o.cpu.ebx] bytes) :
      Os.Step code o (.int 0x80) { o with console := o.console.print bytes, place := .exiting }
  /-- Any other `int` is a general protection fault. -/
  | int {o : Os} {n : UInt8} {bytes : List UInt8} (hplace : o.place = .program) (hn : n ≠ 0x80)
      (hreport : Reported o.cpu 13 (n.toUInt32 * 8 + 2) bytes) :
      Os.Step code o (.int n) { o with console := o.console.print bytes, place := .halted }
  | fault {o : Os} {vector : Nat} {c : UInt32} {bytes : List UInt8} (hplace : o.place = .program)
      (hvector : vector < 32) (hreport : Reported o.cpu vector c bytes) :
      Os.Step code o (.fault vector c) { o with console := o.console.print bytes, place := .halted }
  | tick {o : Os} (scancode : UInt8) (hrunning : o.place ≠ .halted) : Os.Step code o (.irq 32 scancode) o
  | key {o : Os} {scancode : UInt8} {console : Console} {ret : Int} (hrunning : o.place ≠ .halted)
      (hletter : scancodeToAscii scancode ≠ 0)
      (hwrite : Console.Step o.console (.write streamStdin.val [scancodeToAscii scancode] ret) console) :
      Os.Step code o (.irq 33 scancode) { o with console }
  | noLetter {o : Os} {scancode : UInt8} (hrunning : o.place ≠ .halted) (hnone : scancodeToAscii scancode = 0) :
      Os.Step code o (.irq 33 scancode) o
  | settle {o : Os} (hplace : o.place = .exiting) :
      Os.Step code o .settle { o with console := o.console.print (cString (text "Idling...\r\n")), place := .idle }

end Drupe
