import Drupe.Lib.Store
import Drupe.Shell.Shell

/-!
# `Interrupts.Syscalls` — the system calls (`syscalls.c`)

`handleSyscall` is `handle_syscall` on the saved frame of the caller, the shell of the kernel and the memory
of the machine. Its result names the addresses of the caller's buffer that the call read or wrote.
-/

namespace Drupe

open Lib

/-- `interrupt_frame_t` -/
structure InterruptFrame where
  gs : UInt32
  fs : UInt32
  es : UInt32
  ds : UInt32
  edi : UInt32
  esi : UInt32
  ebp : UInt32
  esp : UInt32
  ebx : UInt32
  edx : UInt32
  ecx : UInt32
  eax : UInt32
  intNo : UInt32
  errCode : UInt32
  eip : UInt32
  cs : UInt32
  eflags : UInt32
  useresp : UInt32
  ss : UInt32
deriving DecidableEq

def sysExit : UInt32 := 0x01
def sysWrite : UInt32 := 0x04
def sysGetpid : UInt32 := 0x14
def sysRead : UInt32 := 0x03

/-- `-1`, stored in a register. -/
def errorResult : UInt32 := 0xFFFFFFFF

/-- The user window of the system calls. -/
def userWindowStart : UInt32 := 0x400000
def userWindowEnd : UInt32 := 0x900000

/-- `arg1 >= 0x400000 && arg1 < 0x900000` -/
def InWindow (a : UInt32) : Prop := userWindowStart ≤ a ∧ a < userWindowEnd

instance (a : UInt32) : Decidable (InWindow a) := inferInstanceAs (Decidable (_ ∧ _))

/-- The addresses a system call returns control to: `kernel_stack_top` and `exit_to_kernel`. -/
structure KernelAddrs where
  kernelStackTop : UInt32
  exitToKernel : UInt32

/-- What a system call leaves. `touched` are the addresses of the caller's buffer that were accessed, in
    order. -/
structure SyscallResult where
  frame : InterruptFrame
  shell : Option Shell
  mem : Mem
  touched : List UInt32

/-- The caller's buffer, as memory from `a` on. -/
def userBuf (m : Mem) (a : UInt32) (k : Nat) : UInt8 := m (a + UInt32.ofNat k)

/-- The first `n` addresses of the caller's buffer. -/
def bufAddrs (a : UInt32) (n : Nat) : List UInt32 := (List.range n).map fun k => a + UInt32.ofNat k

/-- The answer -1. -/
def refuse (shell : Option Shell) (m : Mem) (f : InterruptFrame) : SyscallResult :=
  ⟨{ f with eax := errorResult }, shell, m, []⟩

/-- The checks that `SYS_WRITE` and `SYS_READ` make before they access the caller's buffer, with the message
    of the one that fails. -/
def onUserBuffer (shell : Option Shell) (m : Mem) (f : InterruptFrame) (message : String)
    (access : Shell → SyscallResult) : Except Fault SyscallResult :=
  match shell with
  | none => .ok (refuse none m f)
  | some sh =>
    if f.ecx = 0 then .ok (refuse (some sh) m f)
    else if InWindow f.ecx then .ok (access sh)
    else do
      let sh ← shPrintf sh (literal message) [.word f.ecx]
      return refuse (some sh) m f

/-- The case `SYS_WRITE`. `stream_write` reads as many bytes of the buffer as it returns. -/
def handleWrite (shell : Option Shell) (m : Mem) (f : InterruptFrame) : Except Fault SyscallResult :=
  onUserBuffer shell m f "Invalid string pointer: 0x%x\r\n" fun sh =>
    let r := shWriteStream sh (signed f.ebx) (userBuf m f.ecx) (signed f.edx)
    ⟨{ f with eax := f.edx }, some r.1, m, bufAddrs f.ecx r.2.toNat⟩

/-- The case `SYS_READ`. `stream_read` stores the bytes it delivers. -/
def handleRead (shell : Option Shell) (m : Mem) (f : InterruptFrame) : Except Fault SyscallResult :=
  onUserBuffer shell m f "Invalid buffer pointer: 0x%x\r\n" fun sh =>
    let r := streamRead (sh.stream streamStdin) (signed f.edx)
    let m := store (fun k => f.ecx + UInt32.ofNat k) (fun _ k => r.2[k]?.getD 0) r.2.length 0 m
    ⟨{ f with eax := UInt32.ofNat r.2.length }, some (sh.setStream streamStdin r.1), m,
      bufAddrs f.ecx r.2.length⟩

/-- `sh_printf`, when there is a shell. -/
def printfIfShell (shell : Option Shell) (fmt : List UInt8) (args : List VaArg) :
    Except Fault (Option Shell) :=
  match shell with
  | none => .ok none
  | some sh => (shPrintf sh fmt args).map some

/-- The case `SYS_EXIT`. -/
def handleExit (addrs : KernelAddrs) (shell : Option Shell) (m : Mem) (f : InterruptFrame) :
    Except Fault SyscallResult := do
  let shell ← printfIfShell shell (literal "Exited with code %d\r\n") [.word f.ebx]
  let frame :=
    { f with
      eax := 0
      cs := 0x08
      ss := 0x10
      eip := addrs.exitToKernel
      useresp := addrs.kernelStackTop
      ds := 0x10
      es := 0x10
      fs := 0x10
      gs := 0x10 }
  return ⟨frame, shell, m, []⟩

def handleSyscall (addrs : KernelAddrs) (shell : Option Shell) (m : Mem) (f : InterruptFrame) :
    Except Fault SyscallResult :=
  if f.cs &&& 0x3 ≠ 3 then
    match shell with
    | none => .error .nullPointer
    | some sh =>
      .ok ⟨f, some (shPuts sh (text "System call from kernel mode - ignoring\r\n")), m, []⟩
  else if f.eax = sysWrite then handleWrite shell m f
  else if f.eax = sysExit then handleExit addrs shell m f
  else if f.eax = sysGetpid then .ok ⟨{ f with eax := 1 }, shell, m, []⟩
  else if f.eax = sysRead then handleRead shell m f
  else do
    let shell ← printfIfShell shell (literal "Unknown system call: %d\r\n") [.word f.eax]
    return ⟨{ f with eax := errorResult }, shell, m, []⟩

end Drupe
