import Drupe.System.Correctness.Refines

/-!
# `System.Correctness.Progress` — no interrupt gets the machine stuck

The handlers fault on no frame (`interruptHandler_total`, `irqHandler_total`), and every state of the stack that
they may leave lets a stub return. So whatever a program does that stays in its memory, and between whichever steps a
line is raised, there is a next state, until an exception halts the machine with interrupts disabled (`machine_live`).
-/

namespace Drupe

open Lib Lib.X86

/-! ## Handlers -/

section Handlers

variable (addrs : KernelAddrs) (sh : Shell) (m : Mem) (f : InterruptFrame)

theorem handleSyscall_total : ∃ r, handleSyscall addrs (some sh) m f = .ok r := by
  unfold handleSyscall
  by_cases hkernel : f.cs &&& 0x3 ≠ 3
  · rw [if_pos hkernel]
    exact ⟨_, rfl⟩
  rw [if_neg hkernel]
  by_cases hwrite : f.eax = sysWrite
  · obtain ⟨r, hr, -⟩ := onUserBuffer_cases sh m f "Invalid string pointer: 0x%x\r\n" (formatFits_ofList (by decide)) _
    rw [if_pos hwrite]
    exact ⟨r, hr⟩
  rw [if_neg hwrite]
  by_cases hexit : f.eax = sysExit
  · have hfits : formatFits (literal "Exited with code %d\r\n") [.word] = true := formatFits_ofList (by decide)
    obtain ⟨shell', hprint⟩ := printfIfShell_total (some sh) hfits [.word f.ebx] rfl
    rw [if_pos hexit, handleExit, hprint]
    exact ⟨_, rfl⟩
  rw [if_neg hexit]
  by_cases hpid : f.eax = sysGetpid
  · rw [if_pos hpid]
    exact ⟨_, rfl⟩
  rw [if_neg hpid]
  by_cases hread : f.eax = sysRead
  · obtain ⟨r, hr, -⟩ := onUserBuffer_cases sh m f "Invalid buffer pointer: 0x%x\r\n" (formatFits_ofList (by decide)) _
    rw [if_pos hread]
    exact ⟨r, hr⟩
  · have hfits : formatFits (literal "Unknown system call: %d\r\n") [.word] = true := formatFits_ofList (by decide)
    obtain ⟨shell', hprint⟩ := printfIfShell_total (some sh) hfits [.word f.eax] rfl
    rw [if_neg hread, hprint]
    exact ⟨_, rfl⟩

theorem exceptionReport_total : ∃ sh', exceptionReport sh f = .ok sh' := by
  have hfirst : formatFits (literal "EXCEPTION: %s (0x%x)\r\n") [.str, .word] = true := formatFits_ofList (by decide)
  have hsecond : formatFits (literal "Error Code: 0x%x\r\n") [.word] = true := formatFits_ofList (by decide)
  have hthird : formatFits (literal "EIP: 0x%x, CS: 0x%x\r\n") [.word, .word] = true := formatFits_ofList (by decide)
  obtain ⟨sh₁, h₁⟩ := shPrintf_total sh hfirst
    [.str (exceptionMessages[f.intNo.toNat]?.map text), .word f.intNo] rfl
  obtain ⟨sh₂, h₂⟩ := shPrintf_total sh₁ hsecond [.word f.errCode] rfl
  obtain ⟨sh₃, h₃⟩ := shPrintf_total sh₂ hthird [.word f.eip, .word f.cs] rfl
  unfold exceptionReport
  rw [h₁, ok_bind, h₂, ok_bind, h₃, ok_bind]
  exact ⟨_, rfl⟩

/-- **`interrupt_handler` faults on no frame.** -/
theorem interruptHandler_total : ∃ out, interruptHandler addrs (some sh) m f = .ok out := by
  unfold interruptHandler
  simp only
  by_cases hexception : f.intNo < 17
  · obtain ⟨sh', hreport⟩ := exceptionReport_total sh f
    unfold exceptionReport at hreport
    obtain ⟨sh₁, h₁, hreport⟩ := bind_eq_ok.mp hreport
    obtain ⟨sh₂, h₂, hreport⟩ := bind_eq_ok.mp hreport
    obtain ⟨sh₃, h₃, -⟩ := bind_eq_ok.mp hreport
    rw [if_pos hexception, h₁, ok_bind, h₂, ok_bind, h₃, ok_bind]
    exact ⟨_, rfl⟩
  rw [if_neg hexception]
  by_cases hcall : f.intNo = 0x80
  · obtain ⟨r, hr⟩ := handleSyscall_total addrs sh m f
    rw [if_pos hcall, hr]
    exact ⟨_, rfl⟩
  · have hfits : formatFits (literal "Unknown interrupt: 0x%x\r\n") [.word] = true := formatFits_ofList (by decide)
    obtain ⟨sh', hprint⟩ := shPrintf_total sh hfits [.word f.intNo] rfl
    rw [if_neg hcall, hprint]
    exact ⟨_, rfl⟩

theorem irqHandler_total (scancode : UInt8) : ∃ out, irqHandler (some sh) scancode f = .ok out := by
  unfold irqHandler
  simp only
  by_cases htimer : f.intNo = 32
  · rw [if_pos htimer]
    exact ⟨_, rfl⟩
  rw [if_neg htimer]
  by_cases hkey : f.intNo = 33
  · rw [if_pos hkey]
    split
    · exact ⟨_, rfl⟩
    · exact ⟨_, rfl⟩
  · have hfits : formatFits (literal "Hardware interrupt: IRQ%d (INT 0x%x)\r\n") [.word, .word] = true :=
      formatFits_ofList (by decide)
    obtain ⟨sh', hprint⟩ := shPrintf_total sh hfits [.word (f.intNo - 32), .word f.intNo] rfl
    rw [if_neg hkey, hprint]
    exact ⟨_, rfl⟩

end Handlers

/-! ## Stubs -/

variable {u : Setup} {program : UserCode} {m : Machine} {sc₀ : Screen} {o : Os}

/-- Every gate that is installed leads to its handler. -/
theorem enters (u : Setup) (s : State) {vector : Nat} {stub : Stub} {typeAttr : UInt8}
    (hcall : (vector, stub, typeAttr) ∈ idtCalls) (code : UInt32) :
    ∃ before, Entered u s vector code stub.handler before restoreCode := by
  have hpresents : ∀ call ∈ idtCalls, call.2.2 &&& 0x80 ≠ 0 := by decide
  have hrun := run_line (stubLine_plain vector) (s.enter (entryOf (u.address stub) gdtKernelCodeSel typeAttr).gate
    gdtKernelDataSel u.esp0 vector code) (.call stub.handler :: restoreCode)
  rw [← stub_line hcall] at hrun
  exact ⟨_, _, stub, installed_gate u.address hcall, hpresents _ hcall, (entryOf_offset _ _ _).symm, hrun⟩

/-- A handler may return at once. -/
theorem returns_at_once (s : State) : Returned s s :=
  ⟨rfl, rfl, rfl, rfl, rfl, rfl, rfl, fun _ => rfl⟩

/-- A handler may leave any frame. -/
theorem returns_frame (before : State) (f : InterruptFrame) :
    ∃ after, Returned before after ∧ InterruptFrame.read after.stack before.top = f := by
  refine ⟨{ before with stack := putWords before.stack before.top f.words }, ⟨rfl, rfl, rfl, rfl, rfl, rfl, rfl,
    fun _ => rfl⟩, InterruptFrame.read_eq (holds_putWords _ _ _ ?_)⟩
  exact show 19 ≤ 1073741824 by decide

/-- The end of a stub is a return. -/
theorem restore_back (after : State) : ∃ resumed, run restoreCode after = .back resumed :=
  ⟨_, rfl⟩

/-- A hardware interrupt is served. -/
theorem serves_irq (u : Setup) {sh : Shell} (hshell : m.shell = some sh) {vector : Nat}
    (hvector : vector = 32 ∨ vector = 33) (code : UInt32) (scancode : UInt8) :
    ∃ ports m', Served u m vector code scancode ports m' := by
  have hcall : ∃ stub, (vector, stub, idtTypeInterruptGate) ∈ idtCalls ∧ stub.handler = .irqHandler := by
    rcases hvector with rfl | rfl
    · exact ⟨.irq0, by decide, rfl⟩
    · exact ⟨.irq1, by decide, rfl⟩
  obtain ⟨stub, hcall, hhandler⟩ := hcall
  obtain ⟨before, hentered⟩ := enters u m.state hcall code
  rw [hhandler] at hentered
  obtain ⟨out, hout⟩ := irqHandler_total sh (passedFrame before) scancode
  obtain ⟨resumed, hback⟩ := restore_back before
  rw [← hshell] at hout
  exact ⟨_, _, .irq hentered hout (returns_at_once before) rfl hback⟩

/-- So is an exception or a system call. -/
theorem serves_exception (u : Setup) {sh : Shell} (hshell : m.shell = some sh) {vector : Nat} {stub : Stub}
    {typeAttr : UInt8} (hcall : (vector, stub, typeAttr) ∈ idtCalls) (hhandler : stub.handler = .interruptHandler)
    (code : UInt32) (scancode : UInt8) : ∃ ports m', Served u m vector code scancode ports m' := by
  obtain ⟨before, hentered⟩ := enters u m.state hcall code
  rw [hhandler] at hentered
  obtain ⟨out, hout⟩ := interruptHandler_total u.addrs sh m.mem (passedFrame before)
  rw [← hshell] at hout
  cases out with
  | none =>
      obtain ⟨sh', hreport⟩ := exceptionReport_total sh (passedFrame before)
      exact ⟨_, _, .halt hentered hshell hout hreport⟩
  | some r =>
      obtain ⟨after, hreturned, hframe⟩ := returns_frame before r.frame
      obtain ⟨resumed, hback⟩ := restore_back after
      exact ⟨_, _, .exception hentered hout hreturned hframe hback⟩

/-- A halted machine stays where it is. -/
theorem Machine.Realizes.halted (h : m.Realizes sc₀ o) (hplace : o.place = .halted) (e : Event) (m' : Machine) :
    ¬ Machine.Step u program m e m' := by
  have hnot := h.place.trans hplace
  intro hstep
  cases hstep with
  | exec hp => cases hnot.symm.trans hp
  | int hp => cases hnot.symm.trans hp
  | intDenied hp => cases hnot.symm.trans hp
  | fault hp => cases hnot.symm.trans hp
  | irq henabled => exact h.enabled.mp henabled hplace
  | settle hp => cases hnot.symm.trans hp

/-- A machine that did not halt goes on. -/
theorem Machine.Realizes.goes_on (h : m.Realizes sc₀ o) (hrunning : o.place ≠ .halted) :
    interruptsEnabled m.state.cpu.eflags ∧
      (∀ vector scancode, vector = 32 ∨ vector = 33 → ∃ m', Machine.Step u program m (.irq vector scancode) m') ∧
      (o.place = .program → ∀ n, ∃ m', Machine.Step u program m (.int n) m') ∧
      (o.place = .exiting → ∃ m', Machine.Step u program m .settle m') := by
  have henabled := h.enabled.mpr hrunning
  obtain ⟨sh, hshell, -⟩ := h.shell
  refine ⟨henabled, fun vector scancode hvector => ?_, fun hplace n => ?_, fun hplace => ?_⟩
  · obtain ⟨ports, m', hserved⟩ := serves_irq u hshell hvector 0 scancode
    exact ⟨m', .irq henabled (by omega) (by omega) hserved⟩
  · obtain ⟨e, hgate⟩ : ∃ e, (idtSetup u.address)[n.toNat]? = some e :=
      ⟨_, Vector.getElem?_eq_getElem (UInt8.toNat_lt n)⟩
    by_cases hcallable : e.Callable m.state.cpu.cs
    · obtain ⟨hcpu, hring⟩ := h.program hplace
      rw [← hcpu] at hring
      obtain rfl := (callable_iff hring hgate).mp hcallable
      have hcall : (0x80, Stub.isr128, idtTypeTrapGate ||| idtFlagRing3) ∈ idtCalls := by decide
      obtain ⟨ports, m', hserved⟩ := @serves_exception (m.skip 2) u sh hshell _ _ _ hcall rfl 0 0
      exact ⟨m', .int (h.place.trans hplace) hgate hcallable hserved⟩
    · have hcall : (13, Stub.isr13, idtTypeInterruptGate) ∈ idtCalls := by decide
      obtain ⟨ports, m', hserved⟩ := serves_exception u hshell hcall rfl (n.toUInt32 * 8 + 2) 0
      exact ⟨m', .intDenied (h.place.trans hplace) hgate hcallable hserved⟩
  · exact ⟨_, .settle (h.place.trans hplace) rfl rfl⟩

/-- **The machine is never stuck.** In every run from a user program with interrupts enabled, the machine at the end
    is halted, with interrupts disabled and nothing that can happen any more; or interrupts are enabled and each
    tick and key is served, and where the program runs, so is each `int`. -/
theorem machine_live (hplace : m.place = .program) (hring : rpl m.state.cpu.cs = 3)
    (henabled : interruptsEnabled m.state.cpu.eflags) {sh : Shell} (hshell : m.shell = some sh)
    (hreach : sh.Reachable) {m' : Machine} {vis : List (Machine × Event)}
    (hrun : Run (Machine.Step u program) m vis m') :
    (m'.place = .halted ∧ ¬ interruptsEnabled m'.state.cpu.eflags ∧ ∀ e m'', ¬ Machine.Step u program m' e m'') ∨
    (m'.place ≠ .halted ∧ interruptsEnabled m'.state.cpu.eflags ∧
      (∀ vector scancode, vector = 32 ∨ vector = 33 → ∃ m'', Machine.Step u program m' (.irq vector scancode) m'') ∧
      (m'.place = .program → ∀ n, ∃ m'', Machine.Step u program m' (.int n) m'') ∧
      (m'.place = .exiting → ∃ m'', Machine.Step u program m' .settle m'')) := by
  obtain ⟨sc₀, o, ho⟩ := Machine.realizes_reached hplace hring henabled hshell hreach hrun
  by_cases hhalted : o.place = .halted
  · exact .inl ⟨ho.place.trans hhalted, fun hif => ho.enabled.mp hif hhalted, ho.halted hhalted⟩
  · rw [ho.place]
    exact .inr ⟨hhalted, ho.goes_on hhalted⟩

theorem machine_live_getpid : ∃ m'', Machine.Step stubsInOrder nops getpidMachine (.int 0x80) m'' := by
  have hrun : Run (Machine.Step stubsInOrder nops) getpidMachine [] getpidMachine := .nil
  rcases machine_live rfl (by decide) (by decide) rfl bootShell_reachable hrun with ⟨hhalted, -⟩ | ⟨-, -, -, hint, -⟩
  · cases hhalted
  · exact hint rfl 0x80

end Drupe
