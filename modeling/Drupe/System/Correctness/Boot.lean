import Drupe.Boot.Correctness.Integrity
import Drupe.Kernel.Correctness.Log
import Drupe.Kernel.Correctness.UserEntry
import Drupe.System.Boot
import Drupe.System.Correctness.Board
import Drupe.System.Correctness.Printed

/-!
# `System.Correctness.Boot` — from the boot loader to the user program

The checks of the descriptor tables always pass (`boot_ready`), so a boot ends where the boot loader, the image and
the allocator say: in user mode exactly for an image that mounts and makes no division by zero
(`boot_enters_iff`). The screen then shows the log, up to the first newline at a multiple of `streamBufSize`, where
the output jams (`boot_console`). What the user program gets from there on is the system of `System.Os`, whose console
begins with that log (`boot_refines`).
-/

namespace Drupe

open Lib Lib.X86

/-! ## The checks -/

variable {l : Loaded}

/-- **The tables are ready**, unless the linker put a handler at address 0. -/
theorem boot_ready (l : Loaded) :
    l.gdtReady = true ∧ (l.idtReady = true ↔ l.address .isr0 ≠ 0 ∧ l.address .isr13 ≠ 0) := by
  refine ⟨?_, idtVerifyIntegrity_setup l.idtAddr l.address⟩
  have hpass := gdtVerifyIntegrity_boot l.gdtAddr
  rw [← gdtSetup_eq l.gdtAddr l.gdt] at hpass
  exact Bool.and_eq_true_iff.mpr ⟨hpass, hpass⟩

/-- With handlers in place, the boot goes on to the memory map and the image. -/
theorem boot_eq (h0 : l.address .isr0 ≠ 0) (h13 : l.address .isr13 ≠ 0) :
    boot l = mb2GetMemory l.mem l.mb2Magic l.mb2Address >>= fun total => kernelEntry (l.input total) := by
  obtain ⟨hgdt, hidt⟩ := boot_ready l
  unfold boot
  rw [hgdt, hidt.mpr ⟨h0, h13⟩]
  rfl

theorem kernelEntry_eq (h0 : l.address .isr0 ≠ 0) (h13 : l.address .isr13 ≠ 0) (total : UInt64) :
    ∃ k, k.mem = l.mem ∧ k.procs = .zeroed ∧ k.phys = freshPhys total ∧
      kernelEntry (l.input total) = mountAndSwitch k l.diskImg (text "example.bin") := by
  obtain ⟨hgdt, hidt⟩ := boot_ready l
  have hidt := hidt.mpr ⟨h0, h13⟩
  obtain ⟨k, heq, hready⟩ := setupKernel_eq (l.input total)
  obtain ⟨hmem, hprocs, hphys⟩ := hready hgdt hidt
  refine ⟨k, hmem, hprocs, hphys, ?_⟩
  unfold kernelEntry
  rw [heq, ok_bind, show (l.input total).gdtReady = true from hgdt, show (l.input total).idtReady = true from hidt]
  rfl

variable {k : KernelState} {e : BootEnd} {setup : SetupReturn}

/-- A boot that returns has read the memory map, and did what `kernelEntry` does then. -/
theorem boot_eq_ok (h0 : l.address .isr0 ≠ 0) (h13 : l.address .isr13 ≠ 0) (hboot : boot l = .ok (k, e)) :
    ∃ total, mb2GetMemory l.mem l.mb2Magic l.mb2Address = .ok total ∧ kernelEntry (l.input total) = .ok (k, e) := by
  rw [boot_eq h0 h13] at hboot
  exact bind_eq_ok.mp hboot

/-- An image that mounts and makes no division by zero leads to user mode. -/
theorem boot_enters (h0 : l.address .isr0 ≠ 0) (h13 : l.address .isr13 ≠ 0) {total : UInt64} {m : Mem} {s : PhysMem}
    {fs : Ext2Fs} (hmemory : mb2GetMemory l.mem l.mb2Magic l.mb2Address = .ok total)
    (hmount : ext2Mount l.mem (freshPhys total) l.diskImg = .ok (m, s, some fs)) (hdiv : fs.Divisible) :
    ∃ k setup, boot l = .ok (k, .userMode setup) := by
  obtain ⟨k₀, hmem, hprocs, hphys, heq⟩ := kernelEntry_eq h0 h13 total
  rw [← hmem, ← hphys] at hmount
  obtain ⟨shell, hswitch⟩ := mountAndSwitch_mounted (text "example.bin") hmount
  rw [boot_eq h0 h13, hmemory, ok_bind, heq, hswitch]
  rcases umSetupEnv_cases { k₀ with mem := m, phys := s, shell } fs (text "example.bin") with
    ⟨hno, -⟩ | ⟨-, hndiv, -⟩ | ⟨-, -, -, k', hok, -⟩ | ⟨-, -, inode, k', -, hok, -⟩
  · exact absurd (show k₀.procs.Unused 0 by rw [hprocs]; exact zeroed_unused 0) (hno 0)
  · exact absurd hdiv hndiv
  · rw [hok]
    exact ⟨_, _, rfl⟩
  · rw [hok]
    exact ⟨_, _, rfl⟩

/-- A boot that entered user mode has mounted the image and created a process. -/
theorem boot_entered (h0 : l.address .isr0 ≠ 0) (h13 : l.address .isr13 ≠ 0)
    (hboot : boot l = .ok (k, .userMode setup)) :
    (∃ total m s fs, mb2GetMemory l.mem l.mb2Magic l.mb2Address = .ok total ∧
      ext2Mount l.mem (freshPhys total) l.diskImg = .ok (m, s, some fs) ∧ fs.Divisible) ∧
    setup ≠ .noProcess ∧ ∃ pid, k.procs.currentProcess = some pid := by
  obtain ⟨total, hmemory, hentry⟩ := boot_eq_ok h0 h13 hboot
  obtain ⟨k₀, hmem, hprocs, hphys, heq⟩ := kernelEntry_eq h0 h13 total
  rw [heq] at hentry
  obtain ⟨m, s, fs, hmount⟩ := mountAndSwitch_notMounted hentry
  obtain ⟨shell, hswitch⟩ := mountAndSwitch_mounted (text "example.bin") hmount
  rw [hswitch] at hentry
  obtain ⟨r, hsetup, hend⟩ := bind_eq_ok.mp hentry
  obtain ⟨rfl, hr⟩ := Prod.mk.inj (Except.ok.inj hend)
  obtain rfl : r.2 = setup := BootEnd.userMode.inj hr
  rw [hmem, hphys] at hmount
  rcases umSetupEnv_cases { k₀ with mem := m, phys := s, shell } fs (text "example.bin") with
    ⟨hno, -⟩ | ⟨-, -, herror⟩ | ⟨-, hdiv, -, k', hok, -, pid, hcurrent, -⟩ |
      ⟨-, hdiv, inode, k', -, hok, -, pid, hcurrent, -⟩
  · exact absurd (show k₀.procs.Unused 0 by rw [hprocs]; exact zeroed_unused 0) (hno 0)
  · rw [herror] at hsetup
    cases hsetup
  · obtain rfl := Except.ok.inj (hok.symm.trans hsetup)
    exact ⟨⟨total, m, s, fs, hmemory, hmount, hdiv⟩, nofun, pid, hcurrent⟩
  · obtain rfl := Except.ok.inj (hok.symm.trans hsetup)
    refine ⟨⟨total, m, s, fs, hmemory, hmount, hdiv⟩, ?_, pid, hcurrent⟩
    show (if loadCount fs inode = inode.iSizeLo.toNat then _ else _) ≠ _
    split <;> nofun

/-- **When a boot enters user mode.** Both checks of the tables pass. It gets to `um_switch` exactly when
    `mb2_get_memory` returns, the image mounts, and nothing divides by zero; and then it has created a process. -/
theorem boot_enters_iff (h0 : l.address .isr0 ≠ 0) (h13 : l.address .isr13 ≠ 0) :
    l.gdtReady = true ∧ l.idtReady = true ∧
    ((∃ k setup, boot l = .ok (k, .userMode setup)) ↔
      ∃ total m s fs, mb2GetMemory l.mem l.mb2Magic l.mb2Address = .ok total ∧
        ext2Mount l.mem (freshPhys total) l.diskImg = .ok (m, s, some fs) ∧ fs.Divisible) ∧
    ∀ k setup, boot l = .ok (k, .userMode setup) →
      setup ≠ .noProcess ∧ ∃ pid, k.procs.currentProcess = some pid := by
  obtain ⟨hgdt, hidt⟩ := boot_ready l
  refine ⟨hgdt, hidt.mpr ⟨h0, h13⟩, ⟨?_, ?_⟩, fun k setup hboot => (boot_entered h0 h13 hboot).2⟩
  · rintro ⟨k, setup, hboot⟩
    exact (boot_entered h0 h13 hboot).1
  · rintro ⟨total, m, s, fs, hmemory, hmount, hdiv⟩
    exact boot_enters h0 h13 hmemory hmount hdiv

/-- A memory map of one entry at `0x1000`, 2 MiB, and an image without a file behind it. -/
def bootableMem : Mem := fun a =>
  (([(0x1008, 6), (0x100C, 40), (0x1010, 24), (0x1022, 0x20), (0x1028, 1), (0x200400, 16), (0x200404, 16),
    (0x200421, 0x20), (0x200428, 16), (0x200438, 0x53), (0x200439, 0xEF), (0x200808, 5)] :
    List (UInt32 × UInt8)).lookup a).getD 0

def bootable : Loaded where
  mem := bootableMem
  streamData := fun _ => Vector.replicate streamBufSize 0
  videoMemory := fun _ => ⟨0, 0⟩
  phys := memPhysInit 0 0
  gdt := clearedTables.gdt
  gdtAddr := 0x104000
  idtAddr := 0x105000
  address := stubsInOrder.address
  address_injective := stubsInOrder.address_injective
  addrs := stubsInOrder.addrs
  kernel := stubsInOrder.kernel
  kernel_far := stubsInOrder.kernel_far
  mb2Magic := multiboot2Magic
  mb2Address := 0x1000
  diskImg := 0x200000

theorem bootable_memory : mb2GetMemory bootableMem multiboot2Magic 0x1000 = .ok 0x200000 := by
  have hend : bootableMem.read32 (0x1000 + 8) ≠ multibootTagTypeEnd := by decide
  have hmap : bootableMem.read32 (0x1000 + 8) = multibootTagTypeMmap := by decide
  have hloop : mmapLoop bootableMem (bootableMem.read32 (0x1000 + 8 + 8))
      (0x1000 + 8 + bootableMem.read32 (0x1000 + 8 + 4)) (4294967294 + 1 + 1) (0x1000 + 8 + mmapTagSize) 0
      = .ok 0x200000 := by
    rw [mmapLoop, if_pos (by decide), mmapLoop, if_neg (by decide)]
    decide
  rw [mb2GetMemory, if_neg (not_not.mpr rfl), show (2 : Nat) ^ 32 = 4294967295 + 1 by decide, tagLoop, if_neg hend,
    if_pos hmap]
  exact hloop

theorem bootable_mount :
    ∃ s, ext2Mount bootableMem (freshPhys 0x200000) 0x200000
      = .ok (kpmemcpy bootableMem 0x100000 0x200800 32, s, some smallFs) :=
  ext2Mount_smallFs (by decide)

theorem bootable_enters : ∃ k setup, boot bootable = .ok (k, .userMode setup) := by
  obtain ⟨s, hmount⟩ := bootable_mount
  exact boot_enters (by decide) (by decide) bootable_memory hmount ⟨by decide, by decide⟩

theorem boot_enters_iff_bootable : ∃ total m s fs, mb2GetMemory bootable.mem multiboot2Magic 0x1000 = .ok total ∧
    ext2Mount bootable.mem (freshPhys total) 0x200000 = .ok (m, s, some fs) ∧ fs.Divisible :=
  (boot_enters_iff (l := bootable) (by decide) (by decide)).2.2.1.mp bootable_enters

/-! ## The console -/

/-- The shell at the end of a boot is the console that printed the log. -/
theorem boot_realizes (h0 : l.address .isr0 ≠ 0) (h13 : l.address .isr13 ≠ 0) (hboot : boot l = .ok (k, e)) :
    ∃ total ksh log, mb2GetMemory l.mem l.mb2Magic l.mb2Address = .ok total ∧
      shInit l.streamData l.videoMemory vgaWidth (vgaWidth * vgaHeight) = .ok ksh ∧
      BootLog (l.input total) e log ∧ k.shell = ksh.puts log ∧
      k.shell.Realizes ksh.screen (Console.empty.print log) := by
  obtain ⟨total, hmemory, hentry⟩ := boot_eq_ok h0 h13 hboot
  obtain ⟨ksh, log, hinit, hlog, hshell⟩ := kernelEntry_log hentry
  refine ⟨total, ksh, log, hmemory, hinit, hlog, hshell, ?_⟩
  rw [hshell]
  exact (shInit_realizes hinit).print log

/-- **What the screen shows of the boot.** The log has no `FATAL` line. All of it is shown, unless it has a newline at a
    multiple of `streamBufSize`: then the screen stops before the first such newline, `streamBufSize` bytes from
    there on are queued, and the others are lost. -/
theorem boot_console (h0 : l.address .isr0 ≠ 0) (h13 : l.address .isr13 ≠ 0) (hboot : boot l = .ok (k, e)) :
    ∃ total ksh log w rest, mb2GetMemory l.mem l.mb2Magic l.mb2Address = .ok total ∧
      shInit l.streamData l.videoMemory vgaWidth (vgaWidth * vgaHeight) = .ok ksh ∧
      (l.input total).gdtReady = true ∧ (l.input total).idtReady = true ∧ BootLog (l.input total) e log ∧
      log = w ++ rest ∧ ¬ NewlineAtBase w ∧ (rest = [] ∨ NewlineAtBase (w ++ rest.take 1)) ∧
      k.shell.screen = { renderEvents ksh.screen (w.map fun b => (b, Output.stdout.color)) with
        color := k.shell.screen.color } ∧
      (k.shell.stream streamStdout).contents = rest.take streamBufSize := by
  obtain ⟨total, ksh, log, hmemory, hinit, hlog, -, hsh⟩ := boot_realizes h0 h13 hboot
  obtain ⟨hgdt, hidt⟩ := boot_ready l
  obtain ⟨w, rest, rfl, hclear, hrest, hshown, hwaiting⟩ :=
    Console.print_spec (c := Console.empty) rfl rfl (by decide) log
  refine ⟨total, ksh, _, w, rest, hmemory, hinit, hgdt, hidt.mpr ⟨h0, h13⟩, hlog, rfl, hclear, hrest, ?_, ?_⟩
  · rw [hsh.screen, hshown]
    rfl
  · rw [(hsh.carries streamStdout).contents, hwaiting]

theorem boot_console_bootable : ∃ k e log w rest, boot bootable = .ok (k, e) ∧ log = w ++ rest ∧ ¬ NewlineAtBase w ∧
    (k.shell.stream streamStdout).contents = rest.take streamBufSize := by
  obtain ⟨k, setup, hboot⟩ := bootable_enters
  obtain ⟨total, ksh, log, w, rest, -, -, -, -, -, hlog, hclear, -, -, hcontents⟩ :=
    boot_console (by decide) (by decide) hboot
  exact ⟨k, _, log, w, rest, hboot, hlog, hclear, hcontents⟩

/-! ## The user program -/

variable {s : State}

theorem umSwitchFrame_cpu (s : State) :
    (umSwitchFrame s).cpu = { userSregs s.cpu with esp := s.cpu.esp - 4 - 4 - 4 - 4 - 4 } := rfl

/-- The registers that the user program starts with: those of its `iret`, and what `um_switch` leaves in the others. -/
def userCpu (c : Cpu) : Cpu := { userSregs c with
  eip := userCodeBase, cs := userCodeSel, eflags := c.eflags &&& 0xFCFFFF ||| 0x200, esp := userStackTop
  ss := userDataSel }

theorem umSwitch_user (hring : rpl s.cpu.cs = 0) : (umSwitch s).cpu = userCpu s.cpu := by
  have hlt : rpl (umSwitchFrame s).cpu.cs < rpl userCodeSel.toUInt32.toUInt16 := by
    rw [umSwitchFrame_cpu, show rpl (userSregs s.cpu).cs = 0 from hring]
    decide
  obtain ⟨s', hback, hcpu⟩ := run_iret (umSwitchFrame_top s) hlt ([] : List (Instr Unit))
  cases hback
  rw [umSwitch, hcpu, umSwitchFrame_cpu]
  rfl

theorem enabled_or (eflags : UInt32) : interruptsEnabled (eflags ||| 0x200) := by
  have h9 : (0x200 : UInt32).toNat.testBit 9 = true := by decide
  intro hzero
  have hbit := congrArg (fun x => x.toNat.testBit 9) hzero
  simp only [UInt32.toNat_and, UInt32.toNat_or, Nat.testBit_and, Nat.testBit_or, h9] at hbit
  simp at hbit

/-- Where the kernel leaves user mode to the program, the system starts. -/
theorem boot_starts (hring : rpl s.cpu.cs = 0) {sc₀ : Screen} {con : Console} (hsh : k.shell.Realizes sc₀ con) :
    (k.userMachine s).Realizes sc₀ ⟨userCpu s.cpu, k.mem, con, .program⟩ := by
  have hcpu : (k.userMachine s).state.cpu = userCpu s.cpu := umSwitch_user hring
  have hstart := @Machine.realizes_start (k.userMachine s) sc₀ rfl
    (by rw [hcpu]; exact show rpl userCodeSel = 3 by decide) (by rw [hcpu]; exact enabled_or _) k.shell rfl _ hsh
  rw [hcpu] at hstart
  exact hstart

/-- **From the boot loader to the user program, and on.** A boot that enters user mode has printed its log; then every
    run of the board, with any program and any ticks and keys between two steps, is a run of the system that
    starts at `userCodeBase` with the memory that the boot left, in ring 3 with interrupts enabled, on a console
    where the log was printed and nothing else happened. No instruction and no `SYS_READ` stores to the memory of
    the kernel. -/
theorem boot_refines (h0 : l.address .isr0 ≠ 0) (h13 : l.address .isr13 ≠ 0)
    (hboot : boot l = .ok (k, .userMode setup)) (hring : rpl s.cpu.cs = 0) (p : Pic) {program : UserCode}
    {vis : List (Board × Board.Event)} {b : Board}
    (hrun : Run (Board.Step (l.setup k) program) (k.userBoard s p) vis b) :
    ∃ total ksh log avis o, mb2GetMemory l.mem l.mb2Magic l.mb2Address = .ok total ∧
      shInit l.streamData l.videoMemory vgaWidth (vgaWidth * vgaHeight) = .ok ksh ∧
      BootLog (l.input total) (.userMode setup) log ∧
      Run (Os.Step program) ⟨userCpu s.cpu, k.mem, Console.empty.print log, .program⟩ avis o ∧
      avis.map Prod.snd = vis.filterMap (fun x => x.2.onMachine) ∧
      b.machine.place = o.place ∧ b.machine.mem = o.mem ∧ (o.place = .program → b.machine.state.cpu = o.cpu) ∧
      (∀ a, l.kernel a = true → b.machine.mem a = k.mem a) ∧
      ∃ sh, b.machine.shell = some sh ∧ sh.Realizes ksh.screen o.console := by
  obtain ⟨total, ksh, log, hmemory, hinit, hlog, -, hsh⟩ := boot_realizes h0 h13 hboot
  have hstart := boot_starts hring hsh
  obtain ⟨mvis, hmachine, hmlabels⟩ := (Board.inv_realizes hstart p).machine_run hrun
  obtain ⟨avis, o, harun, hlabels, ho⟩ := hstart.run hmachine
  exact ⟨total, ksh, log, avis, o, hmemory, hinit, hlog, harun, hlabels.trans hmlabels, ho.place, ho.mem,
    fun hplace => (ho.program hplace).1, fun a ha => hstart.run_kept hmachine ha, ho.shell⟩

/-- The state in which the kernel calls `um_switch`. -/
def switchState : State := { userState with cpu := { userState.cpu with cs := 0x08, ss := 0x10 } }

/-- A key is pressed before the first instruction. -/
theorem boot_refines_bootable : ∃ k setup log avis o, boot bootable = .ok (k, .userMode setup) ∧
    Run (Os.Step nops) ⟨userCpu switchState.cpu, k.mem, Console.empty.print log, .program⟩ avis o ∧
    avis.map Prod.snd = [.exec] := by
  obtain ⟨k, setup, hboot⟩ := bootable_enters
  have hrun : Run (Board.Step (bootable.setup k) nops) (k.userBoard switchState coldPic) _ _ :=
    .cons (.raise _ _ (show Line.master 1 ≠ .master 2 by decide)) (.cons (.cpu _ (.exec rfl (nops_stays _ _ _)) nofun) .nil)
  obtain ⟨total, ksh, log, avis, o, -, -, -, harun, hlabels, -⟩ :=
    boot_refines (by decide) (by decide) hboot (by decide) coldPic hrun
  exact ⟨k, setup, log, avis, o, hboot, harun, hlabels⟩

end Drupe
