import Drupe.Boot.Idt
import Drupe.Boot.Multiboot
import Drupe.Boot.Tss
import Drupe.Kernel.Entry
import Drupe.System.Board
import Drupe.Usermode.Switch

/-!
# `System.Boot` — from the boot loader to the user program

`boot` is `kernel_entry` with nothing left open: the descriptor tables are set up and checked, and the memory is what
the structure of the boot loader says. Where it ends in `um_switch`, `KernelState.userBoard` is the board that the user
program finds. No interrupt comes before that, though `sti` is earlier, and the code, the variables and the stacks of the
kernel are apart from the memory that the boot stores to.
-/

namespace Drupe

open Lib Lib.X86

/-- What the linker and the boot loader leave. The static variables that the boot sets are not part of it. -/
structure Loaded where
  mem : Mem
  /-- The old bytes of the streams of `ksh`. -/
  streamData : Fin streamCount → Vector UInt8 streamBufSize
  videoMemory : UInt32 → ShellChar
  phys : PhysMem
  gdt : Gdt
  gdtAddr : UInt32
  idtAddr : UInt32
  address : Stub → UInt32
  address_injective : Function.Injective address
  addrs : KernelAddrs
  /-- The memory of the kernel, with the stack that the program's process will have. -/
  kernel : UInt32 → Bool
  kernel_far : ∀ {a}, kernel a = true → OutOfReach a
  mb2Magic : UInt32
  mb2Address : UInt32
  /-- `_binary_disk_img_start` -/
  diskImg : UInt32

/-- `gdt_setup() && gdt_verify_integrity()` -/
def Loaded.gdtReady (l : Loaded) : Bool :=
  let r := gdtSetup l.gdtAddr l.gdt
  r.2 && gdtVerifyIntegrity l.gdtAddr r.1

/-- `idt_setup() && idt_verify_integrity()` -/
def Loaded.idtReady (l : Loaded) : Bool := idtVerifyIntegrity l.idtAddr (Idt.setup l.idtAddr l.address)

def Loaded.input (l : Loaded) (totalMemoryBytes : UInt64) : BootInput where
  mem := l.mem
  streamData := l.streamData
  videoMemory := l.videoMemory
  phys := l.phys
  gdtReady := l.gdtReady
  idtReady := l.idtReady
  kernelStackTop := l.addrs.kernelStackTop
  totalMemoryBytes
  diskImg := l.diskImg

/-- `kernel_entry`. `mb2_get_memory` is called only once the tables are ready. -/
def boot (l : Loaded) : Except Fault (KernelState × BootEnd) := do
  let totalMemoryBytes ← if l.gdtReady && l.idtReady then mb2GetMemory l.mem l.mb2Magic l.mb2Address else pure 0
  kernelEntry (l.input totalMemoryBytes)

/-- What is set up when the program is entered. -/
def Loaded.setup (l : Loaded) (k : KernelState) : Setup where
  address := l.address
  address_injective := l.address_injective
  addrs := l.addrs
  esp0 := k.tssEsp0
  kernel := l.kernel
  kernel_far := l.kernel_far

/-- The machine after `um_switch`, which the kernel calls in the state `s`. `um_switch` uses some of the general
    registers for its operands, as the compiler chooses; those of `s` are the ones at its `iret`, and may be any.
    What the boot left in memory is the program's, but for what `Loaded.kernel` says is the kernel's own: the shell
    and the stacks are not part of `k.mem`. -/
def KernelState.userMachine (k : KernelState) (s : State) : Machine := ⟨umSwitch s, k.mem, some k.shell, .program⟩

/-- The board then; the controllers were in some state before `pic_init`. -/
def KernelState.userBoard (k : KernelState) (s : State) (p : Pic) : Board := ⟨k.userMachine s, picInit p⟩

end Drupe
