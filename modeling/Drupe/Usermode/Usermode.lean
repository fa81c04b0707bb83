import Drupe.Kernel.FindFile
import Drupe.Usermode.Processes

/-!
# `Usermode.Usermode` — loading the user program (`usermode.c`)

`umSetupEnv` is a `void` function in the source: it prints what goes wrong and returns. The model returns,
beside the state, *where* it returned (`SetupReturn`), which nothing in the source can look at.
-/

namespace Drupe

open Lib

/-- `USER_CODE_BASE` -/
def userCodeBase : UInt32 := 0x400000

/-- The state of the kernel: memory, the static variables of `physical.c`, `processes.c` and `idt.c` (the
    field of the TSS that changes), and the shell. The statics are kept apart from the flat memory. -/
structure KernelState where
  mem : Mem
  phys : PhysMem
  procs : ProcTable
  tssEsp0 : UInt32
  shell : Shell

/-- Where `um_setup_env` returns. -/
inductive SetupReturn
  /-- `proc_create` had no slot. -/
  | noProcess
  /-- There is no such file, or no such inode. -/
  | notFound
  /-- Fewer bytes were read than the file has. -/
  | shortRead
  /-- At its end. -/
  | complete
deriving DecidableEq, Repr

def tssSetKernelStack (k : KernelState) (stack : UInt32) : KernelState := { k with tssEsp0 := stack }

/-- The part of `um_setup_env` that reads the program. -/
def umReadProgram (k : KernelState) (fs : Ext2Fs) (inode : Inode) :
    Except Fault (KernelState × SetupReturn) := do
  let (mem, bytesRead) ← ext2ReadFile k.mem fs inode userCodeBase inode.iSizeLo 0
  let k := { k with mem }
  if bytesRead ≠ inode.iSizeLo then
    let shell ← shPrintf k.shell
      (literal "Failed to read complete program (read %d of %d bytes)\r\n")
      [.word bytesRead, .word inode.iSizeLo]
    return ({ k with shell }, .shortRead)
  else return (k, .complete)

/-- The part of `um_setup_env` that looks for the program. -/
def umFindProgram (k : KernelState) (fs : Ext2Fs) (programName : List UInt8) :
    Except Fault (KernelState × SetupReturn) := do
  let (shell, inodeNum) ← ext2FindFileInodeByName k.shell k.mem fs programName
  let k := { k with shell }
  -- `ext2_read_inode` is not called for inode 0
  let inode ← if inodeNum = 0 then pure none else ext2ReadInode k.mem fs inodeNum
  match inode with
  | none =>
    let shell ← shPrintf k.shell (literal "Failed to find program: %s\r\n") [.str (some programName)]
    return ({ k with shell }, .notFound)
  | some inode => umReadProgram k fs inode

def umSetupEnv (k : KernelState) (fs : Ext2Fs) (programName : List UInt8) :
    Except Fault (KernelState × SetupReturn) :=
  let r := procCreate k.phys k.procs
  let k := { k with phys := r.1, procs := r.2.1 }
  match r.2.2 with
  | none =>
    .ok ({ k with shell := shPuts k.shell (text "Failed to create process\r\n") }, .noProcess)
  -- the stack top is used whether it is null or not
  | some pid => umFindProgram (tssSetKernelStack k (k.procs.proc pid).kernelStackTop) fs programName

end Drupe
