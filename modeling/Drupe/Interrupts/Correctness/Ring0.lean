import Drupe.Interrupts.Correctness.Context
import Drupe.Lib.Ring0

/-!
# `Interrupts.Correctness.Ring0` — interrupts of the kernel, and the way out of a program that exits

Vector `0x80` is a trap gate and `exit_to_kernel` idles with interrupts enabled, so the stubs also run on top of
code of ring 0. There `iret` loads neither `esp` nor `ss`: the interrupted code finds its stack as it was
(`interrupt_ring0`), and a program that exits leaves the kernel on the stack of the task state segment,
whatever `SYS_EXIT` stored in `useresp` (`exit_ring0`).
-/

namespace Drupe

open Lib.X86

/-! ## Stack pointers -/

/-- The code of a stub up to its call. -/
def stubLine (vector : Nat) : List (Instr CHandler) :=
  (if hasErrorCode vector then [] else [.push 0]) ++ .push (UInt32.ofNat vector) ::
    [.pushad, .pushSreg .ds, .pushSreg .es, .pushSreg .fs, .pushSreg .gs,
      .movAx 0x10, .movSreg .ds, .movSreg .es, .movSreg .fs, .movSreg .gs, .pushEsp]

theorem stubLine_plain (vector : Nat) : ∀ i ∈ stubLine vector, i.plain = true := by
  unfold stubLine
  split <;> simp [Instr.plain]

theorem stub_line {call : Nat × Stub × UInt8} (hcall : call ∈ idtCalls) :
    call.2.1.code = stubLine call.1 ++ .call call.2.1.handler :: restoreCode := by
  rw [stub_code call hcall, stubLine, List.append_assoc]
  rfl

/-- Where a stub makes its call. -/
theorem stub_before {call : Nat × Stub × UInt8} (hcall : call ∈ idtCalls) {s before : State} {handler : CHandler}
    {rest : List (Instr CHandler)} (hrun : run call.2.1.code s = .call handler before rest) :
    before.cpu.SameFlow s.cpu ∧
      before.cpu.esp = if hasErrorCode call.1 then s.cpu.esp - 56 else s.cpu.esp - 60 := by
  rw [stub_line hcall, run_line (stubLine_plain call.1)] at hrun
  cases hrun
  obtain ⟨hflow, hesp⟩ := line_esp (stubLine call.1) s
  refine ⟨hflow, hesp.trans ?_⟩
  unfold stubLine
  by_cases hcode : hasErrorCode call.1
  · rw [if_pos hcode, if_pos hcode]
    show s.cpu.esp - 4 - 32 - 4 - 4 - 4 - 4 - 4 = s.cpu.esp - 56
    grind
  · rw [if_neg hcode, if_neg hcode]
    show s.cpu.esp - 4 - 4 - 32 - 4 - 4 - 4 - 4 - 4 = s.cpu.esp - 60
    grind

/-- **After the call**, and back within ring 0. -/
theorem run_restoreInner {after : State} {f : InterruptFrame} {ws : List UInt32}
    (h : Holds after.stack (after.cpu.esp + 4) (f.words.take 17 ++ ws))
    (hring : ¬ rpl after.cpu.cs < rpl f.cs.toUInt16) :
    ∃ resumed, run restoreCode after = .back resumed ∧ resumed.Top ws ∧
      resumed.cpu = { f.context with esp := after.cpu.esp + 72, ss := after.cpu.ss } := by
  have hplain : ∀ i ∈ restoreLine, i.plain = true := by decide
  obtain ⟨s, hrun, htop, hcs, hcpu⟩ := run_registers h [.call .irqHandler]
  obtain rfl : s = after.line restoreLine := line_of_call hplain hrun
  obtain ⟨hflow, hesp⟩ := line_esp restoreLine after
  have hup : (after.line restoreLine).cpu.esp + 12 = after.cpu.esp + 72 := by
    rw [hesp]
    show after.cpu.esp + 4 + 4 + 4 + 4 + 4 + 32 + 8 + 12 = after.cpu.esp + 72
    grind
  obtain ⟨resumed, hback, htop', hresumed⟩ := run_iretInner htop (by rw [hcs]; exact hring) []
  refine ⟨resumed, (run_line hplain after [.iret]).trans hback, htop', ?_⟩
  rw [hresumed, hup, ← hcpu, ← hflow.ss]

/-! ## An interrupt of ring 0 -/

/-- The frame that a stub passes when ring 0 was interrupted. Its last two words are the first ones of the
    interrupted stack. -/
theorem run_interruptInner {call : Nat × Stub × UInt8} (hcall : call ∈ idtCalls) (s : State) (g : Gate)
    (code : UInt32) {n : Nat} (hn : n ≤ 1048576) :
    ∃ before esp, run call.2.1.code (s.interruptInner g call.1 code)
        = .call call.2.1.handler before restoreCode ∧
      before.cpu.cs = g.selector ∧ before.cpu.ss = s.cpu.ss ∧ before.cpu.esp = s.cpu.esp - 72 ∧
      before.top = before.cpu.esp + 4 ∧
      Holds before.stack (before.cpu.esp + 4)
        ((frameOf s.cpu esp (UInt32.ofNat call.1) (if hasErrorCode call.1 then code else 0)).words.take 17
          ++ words s.stack s.cpu.esp n) := by
  have hentry := s.interruptInner_top g call.1 code (words_holds s.stack s.cpu.esp n) (by rw [length_words]; exact hn)
  rw [List.append_assoc] at hentry
  obtain ⟨hentered, hcs₀⟩ := s.interruptInner_saved g call.1 code
  obtain ⟨s₁, hrun₁, htop₁, hsaved₁, hcs₁⟩ := run_stub hentry (by
    simp only [List.length_append, List.length_cons, List.length_nil, length_words]
    omega) (commonCode call.2.1.handler)
  obtain ⟨before, hrun, hcs, htop⟩ := run_save htop₁ (by
    simp only [List.length_append, List.length_cons, List.length_nil, length_words]
    omega) call.2.1.handler
  have hcode : run call.2.1.code (s.interruptInner g call.1 code)
      = .call call.2.1.handler before restoreCode := by
    rw [stub_code call hcall]
    exact hrun₁.trans hrun
  obtain ⟨hflow, hesp⟩ := stub_before hcall hcode
  obtain ⟨hentryEsp, hentrySs⟩ := s.interruptInner_esp g call.1 code
  have hsaved := hsaved₁.trans hentered
  have hds : s₁.cpu.ds = s.cpu.ds := hsaved.sreg .ds
  have hes : s₁.cpu.es = s.cpu.es := hsaved.sreg .es
  have hfs : s₁.cpu.fs = s.cpu.fs := hsaved.sreg .fs
  have hgs : s₁.cpu.gs = s.cpu.gs := hsaved.sreg .gs
  rw [hds, hes, hfs, hgs, hsaved.eax, hsaved.ecx, hsaved.edx, hsaved.ebx, hsaved.ebp, hsaved.esi, hsaved.edi]
    at htop
  refine ⟨before, s₁.cpu.esp, hcode, hcs.trans (hcs₁.trans hcs₀), hflow.ss.trans hentrySs, ?_, htop.1, htop.2⟩
  rw [hesp, hentryEsp]
  by_cases herr : hasErrorCode call.1
  · rw [if_pos herr, if_pos herr]
    grind
  · rw [if_neg herr, if_neg herr]
    grind

/-- The way back, when the handler leaves the frame and the words below it as they are. -/
theorem interruptInner_back {call : Nat × Stub × UInt8} (hcall : call ∈ idtCalls) (s : State)
    (hring : rpl s.cpu.cs = 0) (g : Gate) (code : UInt32) {n : Nat} (hn : n ≤ 1048576) :
    ∃ before, run call.2.1.code (s.interruptInner g call.1 code) = .call call.2.1.handler before restoreCode ∧
      ∀ after, Returned before after →
        words after.stack before.top (17 + n) = words before.stack before.top (17 + n) →
        ∃ resumed, run restoreCode after = .back resumed ∧ resumed.cpu = s.cpu ∧
          words resumed.stack s.cpu.esp n = words s.stack s.cpu.esp n := by
  obtain ⟨before, esp, hrun, -, hss, hesp, hptr, hframe⟩ := run_interruptInner hcall s g code hn
  refine ⟨before, hrun, fun after hreturned hwords => ?_⟩
  have hkept : Holds after.stack (after.cpu.esp + 4)
      ((frameOf s.cpu esp (UInt32.ofNat call.1) (if hasErrorCode call.1 then code else 0)).words.take 17
        ++ words s.stack s.cpu.esp n) := by
    have hlength : ((frameOf s.cpu esp (UInt32.ofNat call.1)
        (if hasErrorCode call.1 then code else 0)).words.take 17 ++ words s.stack s.cpu.esp n).length = 17 + n := by
      rw [List.length_append, length_words]
      rfl
    rw [holds_iff, hlength] at hframe ⊢
    rw [hreturned.esp, ← hptr, hwords, hptr]
    exact hframe
  obtain ⟨resumed, hback, htop, hcpu⟩ := run_restoreInner hkept (by
    show ¬ rpl after.cpu.cs < rpl s.cpu.cs.toUInt32.toUInt16
    rw [selector_back, hring]
    exact UInt16.not_lt_zero)
  have hsame : resumed.cpu = s.cpu := by
    have hup : before.cpu.esp + 72 = s.cpu.esp := by
      rw [hesp]
      grind
    rw [hcpu, frameOf_context, hreturned.esp, hup, hreturned.ss, hss]
  refine ⟨resumed, hback, hsame, ?_⟩
  rw [State.Top, hsame, holds_iff, length_words] at htop
  exact htop

/-- **An interrupt of ring 0**, by any gate that `idt_setup` installs, is invisible to the interrupted code when the
    handler leaves the frame as it is: all registers are what they were, the stack pointer among them, and so
    are the words of its stack that the handler leaves. -/
theorem interrupt_ring0 (address : Stub → UInt32) (ss0 : UInt16) (esp0 : UInt32) (s : State)
    (hring : rpl s.cpu.cs = 0) {vector : Nat} {stub : Stub} {typeAttr : UInt8}
    (hcall : (vector, stub, typeAttr) ∈ idtCalls) (code : UInt32) {n : Nat} (hn : n ≤ 1048576) :
    ∃ e, (idtSetup address)[vector]? = some e ∧
      ∃ before, run stub.code (s.enter e.gate ss0 esp0 vector code) = .call stub.handler before restoreCode ∧
        ∀ after, Returned before after →
          words after.stack before.top (17 + n) = words before.stack before.top (17 + n) →
          ∃ resumed, run restoreCode after = .back resumed ∧ resumed.cpu = s.cpu ∧
            words resumed.stack s.cpu.esp n = words s.stack s.cpu.esp n := by
  obtain ⟨hfind, hlt⟩ := find_call _ hcall
  have hget := idtSetup_get address hlt
  rw [hfind] at hget
  have henter : s.enter (entryOf (address stub) gdtKernelCodeSel typeAttr).gate ss0 esp0 vector code
      = s.interruptInner (entryOf (address stub) gdtKernelCodeSel typeAttr).gate vector code :=
    if_neg (by rw [hring]; exact show ¬ rpl gdtKernelCodeSel < 0 by decide)
  refine ⟨_, hget, ?_⟩
  rw [henter]
  exact interruptInner_back hcall s hring _ code hn

/-- The loop of `exit_to_kernel`. -/
def loopState : State := { userState with
  cpu := { userState.cpu with esp := 0x101FF8, eip := 0x103000, cs := 0x08, ss := 0x10 } }

/-- A tick there. -/
theorem interrupt_ring0_tick : ∃ before after resumed, Returned before after ∧
    run Stub.irq0.code (loopState.enter (entryOf 0x100000 gdtKernelCodeSel idtTypeInterruptGate).gate
      gdtKernelDataSel 0x102000 32 0) = .call .irqHandler before restoreCode ∧
    run restoreCode after = .back resumed ∧ resumed.cpu = loopState.cpu := by
  have hcall : (32, Stub.irq0, idtTypeInterruptGate) ∈ idtCalls := by decide
  obtain ⟨e, hget, before, hrun, hafter⟩ :=
    interrupt_ring0 (fun _ => 0x100000) gdtKernelDataSel 0x102000 loopState (by decide) hcall 0 (Nat.zero_le _)
  have hentry := idtSetup_get (fun _ => 0x100000) (show 32 < idtEntriesCount by decide)
  obtain rfl := Option.some.inj (hget.symm.trans hentry)
  have hreturned : Returned before before := ⟨rfl, rfl, rfl, rfl, rfl, rfl, rfl, fun _ => rfl⟩
  obtain ⟨resumed, hback, hcpu, -⟩ := hafter before hreturned rfl
  exact ⟨before, before, resumed, hreturned, hrun, hback, hcpu⟩

/-! ## The way out of a program -/

/-- `SYS_EXIT` returns, and the frame that it leaves. -/
theorem interruptHandler_exit (addrs : KernelAddrs) (sh : Shell) (m : Mem) {f : InterruptFrame}
    (hvector : f.intNo = 0x80) (huser : f.cs &&& 0x3 = 3) (hexit : f.eax = sysExit) :
    ∃ r, interruptHandler addrs (some sh) m f = .ok (some r) ∧
      r.frame = { f with
        eax := 0, cs := 0x08, ss := 0x10, eip := addrs.exitToKernel, useresp := addrs.kernelStackTop, ds := 0x10
        es := 0x10, fs := 0x10, gs := 0x10 } := by
  have hfits : formatFits (literal "Exited with code %d\r\n") [.word] = true := formatFits_ofList (by decide)
  obtain ⟨shell', hprint⟩ := printfIfShell_total (some sh) hfits [.word f.ebx] rfl
  have hsmall : ¬ f.intNo < 17 := by
    rw [hvector]
    decide
  have hwrite : f.eax ≠ sysWrite := by
    rw [hexit]
    decide
  have hreturns : ¬ (f.intNo < 32 ∧ f.intNo ≠ 3) := by
    rw [hvector]
    decide
  refine ⟨⟨_, shell', m, []⟩, ?_, rfl⟩
  unfold interruptHandler handleSyscall handleExit
  simp only [if_neg hsmall, if_pos hvector, if_neg (not_not.mpr huser), if_neg hwrite, if_pos hexit, hprint, ok_bind,
    pure_bind, if_neg hreturns]
  rfl

/-- **`SYS_EXIT` leaves the program for the kernel.** The stub returns to `exit_to_kernel`, in ring 0, on the stack
    that the task state segment names, two words below its top; the `useresp` and `ss` of the frame are not
    loaded. The flags and the other registers are still those of the program. -/
theorem exit_ring0 (address : Stub → UInt32) (addrs : KernelAddrs) (esp0 : UInt32) (s : State) (sh : Shell) (m : Mem)
    (hring : rpl s.cpu.cs = 3) (hexit : s.cpu.eax = sysExit) :
    ∃ e before r, (idtSetup address)[0x80]? = some e ∧
      run Stub.isr128.code (s.enter e.gate gdtKernelDataSel esp0 0x80 0)
        = .call .interruptHandler before restoreCode ∧
      interruptHandler addrs (some sh) m (passedFrame before) = .ok (some r) ∧
      ∀ after, Returned before after → InterruptFrame.read after.stack before.top = r.frame →
        ∃ resumed, run restoreCode after = .back resumed ∧ resumed.cpu = { s.cpu with
          eax := 0, cs := 0x08, ss := 0x10, eip := addrs.exitToKernel, esp := esp0 - 8, ds := 0x10, es := 0x10
          fs := 0x10, gs := 0x10 } := by
  have hcall : (0x80, Stub.isr128, idtTypeTrapGate ||| idtFlagRing3) ∈ idtCalls := by decide
  have hget := idtSetup_get address (show 0x80 < idtEntriesCount by decide)
  obtain ⟨before, esp, hrun, hcs, hptr, hframe⟩ := run_interrupt hcall s
    (entryOf (address .isr128) gdtKernelCodeSel (idtTypeTrapGate ||| idtFlagRing3)).gate esp0 0
  have henter : s.enter (entryOf (address .isr128) gdtKernelCodeSel (idtTypeTrapGate ||| idtFlagRing3)).gate
      gdtKernelDataSel esp0 0x80 0 = s.interrupt (entryOf (address .isr128) gdtKernelCodeSel
        (idtTypeTrapGate ||| idtFlagRing3)).gate gdtKernelDataSel esp0 0x80 0 :=
    if_pos (by rw [hring]; exact show rpl gdtKernelCodeSel < 3 by decide)
  have huser : (passedFrame before).cs &&& 0x3 = 3 := by
    rw [hframe]
    exact (UInt16.toUInt32_and s.cpu.cs 3).symm.trans (congrArg UInt16.toUInt32 hring)
  obtain ⟨r, hr, hrframe⟩ := interruptHandler_exit addrs sh m (f := passedFrame before)
    (by rw [hframe]; exact show UInt32.ofNat 0x80 = 0x80 by decide) huser (by rw [hframe]; exact hexit)
  refine ⟨_, before, r, hget, henter.symm ▸ hrun, hr, fun after hreturned hread => ?_⟩
  -- where the stub made its call
  obtain ⟨hflow, hesp⟩ := stub_before hcall hrun
  obtain ⟨hentryEsp, hentrySs⟩ := s.interrupt_esp
    (entryOf (address .isr128) gdtKernelCodeSel (idtTypeTrapGate ||| idtFlagRing3)).gate gdtKernelDataSel esp0 0x80 0
  have hback : before.cpu.esp + 72 = esp0 - 8 := by
    rw [hesp, hentryEsp, if_neg (by decide), if_neg (by decide)]
    grind
  have hwords : Holds after.stack (after.cpu.esp + 4) (r.frame.words.take 17 ++ [r.frame.useresp, r.frame.ss]) := by
    rw [hreturned.esp, ← hptr, ← hread]
    exact InterruptFrame.read_holds _ _
  have hselector : rpl r.frame.cs.toUInt16 = 0 := by
    rw [hrframe]
    exact show rpl (0x08 : UInt32).toUInt16 = 0 by decide
  obtain ⟨resumed, hrestore, -, hcpu⟩ := run_restoreInner hwords (by
    rw [hselector]
    exact UInt16.not_lt_zero)
  refine ⟨resumed, hrestore, ?_⟩
  rw [hcpu, hreturned.esp, hback, hreturned.ss, hflow.ss, hentrySs, hrframe, hframe]
  rfl

/-- A program that exits with code 3. -/
def exitState : State := { userState with cpu := { userState.cpu with eax := sysExit } }

theorem exit_ring0_code : ∃ e before r, (idtSetup fun _ => 0x100000)[0x80]? = some e ∧
    run Stub.isr128.code (exitState.enter e.gate gdtKernelDataSel 0x102000 0x80 0)
      = .call .interruptHandler before restoreCode ∧
    interruptHandler ⟨0x101000, 0x103000⟩ (some bootShell) (fun _ => 0) (passedFrame before) = .ok (some r) := by
  obtain ⟨e, before, r, hget, hrun, hr, -⟩ := exit_ring0 (fun _ => 0x100000) ⟨0x101000, 0x103000⟩ 0x102000 exitState
    bootShell (fun _ => 0) (by decide) rfl
  exact ⟨e, before, r, hget, hrun, hr⟩

end Drupe
