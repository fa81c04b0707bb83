import Drupe.Usermode.Usermode

/-!
# `Kernel.Entry` — the boot of the kernel (`kernel_entry` of `kernel.c`)

`kernelEntry` ends in the halt loop or in `um_switch`, which enters user mode at `userCodeBase`; the model
returns which of the two, and the state then. In the second case it also returns how `umSetupEnv` had
returned, which the source does not look at.

The outcome of the checks of the descriptor tables and the amount of memory are inputs.
-/

namespace Drupe

open Lib

/-- `. = 1M` of `linker.ld`, and `pmm_start_addr` of `kernel_entry`. -/
def kernelBase : UInt32 := 0x100000

/-- Where `kernel_entry` ends. -/
inductive BootEnd
  /-- In the halt loop. -/
  | halted
  /-- In `um_switch`, after `um_setup_env` returned from `setup`. -/
  | userMode (setup : SetupReturn)
deriving DecidableEq, Repr

/-- What `kernel_entry` finds. -/
structure BootInput where
  mem : Mem
  /-- The old bytes of the streams of `ksh`. -/
  streamData : Fin streamCount → Vector UInt8 streamBufSize
  videoMemory : UInt32 → ShellChar
  /-- The static variables of `physical.c`, which `mem_phys_init` sets. -/
  phys : PhysMem
  /-- `gdt_setup() && gdt_verify_integrity()` -/
  gdtReady : Bool
  /-- `idt_setup() && idt_verify_integrity()` -/
  idtReady : Bool
  kernelStackTop : UInt32
  /-- The answer of `mb2_get_memory`. -/
  totalMemoryBytes : UInt64
  /-- `_binary_disk_img_start` -/
  diskImg : UInt32

/-- The part of `kernel_entry` from `ext2_mount` on. -/
def mountAndSwitch (k : KernelState) (diskImg : UInt32) (programName : List UInt8) :
    Except Fault (KernelState × BootEnd) := do
  let (mem, phys, mounted) ← ext2Mount k.mem k.phys diskImg
  let k := { k with mem, phys }
  match mounted with
  | some fs =>
    let shell ← shPrintf k.shell
      (literal "EXT2 filesystem mounted successfully! Block size: %d bytes\r\n") [.word fs.blockSize]
    -- `um_switch` follows wherever `um_setup_env` returned
    let (k, setup) ← umSetupEnv { k with shell } fs programName
    return (k, .userMode setup)
  | none =>
    let shell := shPuts k.shell (text "Failed to mount EXT2 filesystem from embedded image.\r\n")
    return ({ k with shell }, .halted)

/-- The part of `kernel_entry` before `ext2_mount`, and whether it goes on from there. -/
def setupKernel (b : BootInput) : Except Fault (KernelState × Bool) := do
  let ksh ← shInit b.streamData b.videoMemory vgaWidth (vgaWidth * vgaHeight)
  let k : KernelState := { mem := b.mem, phys := b.phys, procs := .zeroed, tssEsp0 := 0, shell := ksh }
  if !b.gdtReady then
    return ({ k with shell := shPuts ksh (text "FATAL: Failed to initialize GDT!\r\n") }, false)
  if !b.idtReady then
    return ({ k with shell := shPuts ksh (text "FATAL: Failed to initialize IDT!\r\n") }, false)
  let k := tssSetKernelStack k b.kernelStackTop
  let shell ← shPrintf ksh (literal "Booted with %d MB of Memory.\r\n")
    [.word (b.totalMemoryBytes / (1024 * 1024)).toUInt32]
  -- the difference is taken in 64 bits and cut to a `size_t`
  let pmmTotalSize := (b.totalMemoryBytes - kernelBase.toUInt64).toUInt32
  return ({ k with shell, phys := memPhysInit kernelBase pmmTotalSize }, true)

def kernelEntry (b : BootInput) : Except Fault (KernelState × BootEnd) := do
  let (k, goOn) ← setupKernel b
  if goOn then mountAndSwitch k b.diskImg (text "example.bin") else return (k, .halted)

end Drupe
