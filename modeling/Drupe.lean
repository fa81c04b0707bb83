import Drupe.Lib.Run
import Drupe.Lib.Pool
import Drupe.Memory.Physical
import Drupe.Memory.Clients
import Drupe.Memory.Correctness.Exclusive
import Drupe.Memory.Correctness.Managed
import Drupe.Memory.Correctness.FirstFit
import Drupe.Memory.Correctness.MapIndex
import Drupe.Lib.Fifo
import Drupe.Shell.Stream
import Drupe.Shell.Correctness.StreamFifo
import Drupe.Shell.Shell
import Drupe.Shell.Correctness.Drain
import Drupe.Usermode.Correctness.KernelStack
import Drupe.Filesystem.Ext2
import Drupe.Filesystem.Correctness.Kpmalloc
import Drupe.Filesystem.Correctness.MountChecks
import Drupe.Filesystem.Correctness.DirHoles
import Drupe.Filesystem.Correctness.DirBounds
import Drupe.Filesystem.Correctness.FileWrites
import Drupe.Interrupts.Correctness.ReachableShell
import Drupe.Interrupts.Correctness.WriteResult
import Drupe.Filesystem.Correctness.ReadFile
import Drupe.Kernel.Correctness.Layout
import Drupe.Interrupts.Syscalls
import Drupe.Interrupts.Correctness.UserWindow
import Drupe.Filesystem.Correctness.ReadDir
import Drupe.Kernel.FindFile
import Drupe.Kernel.Correctness.FindFile
import Drupe.Usermode.Correctness.Setup
import Drupe.Usermode.Correctness.Load
import Drupe.Kernel.Correctness.UserEntry
import Drupe.Memory.Correctness.Accounting
import Drupe.Filesystem.Correctness.ReadBounds
import Drupe.Shell.Correctness.ReadStop
import Drupe.Boot.Correctness.AvailableMemory
import Drupe.Kernel.Correctness.ManagedSize
import Drupe.Filesystem.Correctness.DirLayout
import Drupe.Kernel.Correctness.RootDirectory
import Drupe.Filesystem.Correctness.Mount
import Drupe.Filesystem.Correctness.ImageReads
import Drupe.Lib.Page
import Drupe.Shell.Correctness.Scroll
import Drupe.Interrupts.Handlers
import Drupe.Lib.X86
import Drupe.Interrupts.Correctness.Context
import Drupe.Shell.Statements
import Drupe.Interrupts.Preemption
import Drupe.Shell.Correctness.Statements
import Drupe.Shell.Correctness.Call
import Drupe.Interrupts.Correctness.Preempted
import Drupe.Shell.Correctness.Alone
import Drupe.Filesystem.Correctness.DirTermination
import Drupe.Lib.Checksum
import Drupe.Boot.Gdt
import Drupe.Boot.Tss
import Drupe.Boot.Correctness.Integrity
import Drupe.Lib.IoPort
import Drupe.Usermode.Switch
import Drupe.Boot.Correctness.IoPorts
import Drupe.Shell.Correctness.ScreenBounds
import Drupe.Lib.Numeral
import Drupe.Shell.Correctness.Putint
import Drupe.Shell.Correctness.Printf
import Drupe.Boot.Correctness.MultibootBounds
import Drupe.Lib.Pipe
import Drupe.Shell.Correctness.Jam
import Drupe.Shell.Console
import Drupe.Shell.Correctness.Console
import Drupe.Lib.Ring0
import Drupe.Interrupts.Correctness.Ring0
import Drupe.System.Machine
import Drupe.System.Os
import Drupe.System.Correctness.Calls
import Drupe.System.Correctness.Refines
import Drupe.System.Correctness.Progress
import Drupe.System.Correctness.Left
import Drupe.System.Correctness.Unseen
import Drupe.Interrupts.Correctness.Pic
import Drupe.System.Board
import Drupe.System.Correctness.Board
import Drupe.Boot.Correctness.OpenPorts
import Drupe.Boot.Correctness.Segments
import Drupe.Boot.Idt
import Drupe.Kernel.Correctness.Log
import Drupe.System.Boot
import Drupe.System.Correctness.Boot
import Drupe.System.Correctness.Typed
import Drupe.Shell.Display
import Drupe.System.Correctness.Session
