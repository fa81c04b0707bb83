import Drupe.Interrupts.Correctness.Ring0
import Drupe.Interrupts.Correctness.UserWindow
import Drupe.Interrupts.Correctness.WriteResult
import Drupe.System.Correctness.Calls

/-!
# `System.Correctness.Refines` — the machine is the system

Every step of the machine, stub, handler and `iret` included, is one step of the system
(`Machine.Realizes.step`), so every run is a run (`machine_refines`). What a program finds in its registers and
its memory is what the system says, however many interrupts come between its steps. The memory of the kernel is
left by all of them (`Machine.Realizes.kept`): a program stays out of it, and `SYS_READ` does not reach it.
-/

namespace Drupe

open Lib Lib.X86

/-! ## Gates -/

/-- The gates that may be used lead to the stubs that were installed. -/
theorem gate_stub {address : Stub → UInt32} {vector : Nat} {e : IdtEntry}
    (hgate : (idtSetup address)[vector]? = some e) (hpresent : e.Present) :
    ∃ stub typeAttr, (vector, stub, typeAttr) ∈ idtCalls ∧ e = entryOf (address stub) gdtKernelCodeSel typeAttr := by
  have hlt : vector < idtEntriesCount := (Vector.getElem?_eq_some_iff.mp hgate).1
  rw [idtSetup_get address hlt] at hgate
  obtain rfl := Option.some.inj hgate
  cases hfind : idtCalls.find? (·.1 = vector) with
  | none =>
      rw [hfind] at hpresent
      exact absurd hpresent (show ¬ IdtEntry.Present ⟨0, 0, 0, 0, 0⟩ by decide)
  | some call =>
      have hvector : call.1 = vector := by simpa using List.find?_some hfind
      refine ⟨call.2.1, call.2.2, ?_, rfl⟩
      rw [← hvector]
      exact List.mem_of_find?_eq_some hfind

/-- The gate of a call of `idt_setup`. -/
theorem installed_gate (address : Stub → UInt32) {vector : Nat} {stub : Stub} {typeAttr : UInt8}
    (hcall : (vector, stub, typeAttr) ∈ idtCalls) :
    (idtSetup address)[vector]? = some (entryOf (address stub) gdtKernelCodeSel typeAttr) := by
  obtain ⟨hfind, hlt⟩ := find_call _ hcall
  have hget := idtSetup_get address hlt
  rw [hfind] at hget
  exact hget

/-- **Vector `0x80` is all that a program may call.** -/
theorem callable_iff {address : Stub → UInt32} {n : UInt8} {e : IdtEntry} {cs : UInt16} (hring : rpl cs = 3)
    (hgate : (idtSetup address)[n.toNat]? = some e) : e.Callable cs ↔ n = 0x80 := by
  have hcalls : ∀ call ∈ idtCalls,
      (call.2.2 &&& 0x80 ≠ 0 ∧ (3 : UInt16) ≤ ((call.2.2 >>> 5) &&& 3).toUInt16) ↔ call.1 = 128 := by
    decide
  unfold IdtEntry.Callable
  rw [hring]
  constructor
  · rintro ⟨hpresent, hdpl⟩
    obtain ⟨stub, typeAttr, hcall, rfl⟩ := gate_stub hgate hpresent
    exact UInt8.toNat_inj.mp ((hcalls _ hcall).mp ⟨hpresent, hdpl⟩)
  · rintro rfl
    have hcall : (0x80, Stub.isr128, idtTypeTrapGate ||| idtFlagRing3) ∈ idtCalls := by decide
    obtain rfl := Option.some.inj ((installed_gate address hcall).symm.trans hgate)
    exact (hcalls _ hcall).mpr rfl

variable {u : Setup} {s before after resumed : State} {vector : Nat} {code : UInt32} {handler : CHandler}
  {rest : List (Instr CHandler)}

/-- What a gate leads to, in terms of the calls of `idt_setup`. -/
theorem Entered.call (h : Entered u s vector code handler before rest) :
    ∃ stub typeAttr, (vector, stub, typeAttr) ∈ idtCalls ∧ handler = stub.handler ∧ rest = restoreCode ∧
      run stub.code (s.enter (entryOf (u.address stub) gdtKernelCodeSel typeAttr).gate gdtKernelDataSel u.esp0 vector
        code) = .call stub.handler before restoreCode := by
  obtain ⟨e, stub, hgate, hpresent, haddress, hrun⟩ := h.entered
  obtain ⟨stub', typeAttr, hcall, rfl⟩ := gate_stub hgate hpresent
  rw [entryOf_offset] at haddress
  obtain rfl := u.address_injective haddress
  have hline := hrun
  rw [stub_line hcall, run_line (stubLine_plain _)] at hline
  cases hline
  exact ⟨stub, typeAttr, hcall, rfl, rfl, hrun⟩

/-- The handler of a vector. -/
theorem idtCalls_handler : ∀ call ∈ idtCalls,
    (call.1 = 128 ∨ call.1 < 17 → call.2.1.handler = .interruptHandler) ∧
      (32 ≤ call.1 → call.1 < 48 → call.2.1.handler = .irqHandler ∧ (call.1 = 32 ∨ call.1 = 33)) ∧
      (call.1 < 32 → call.1 < 17 ∧ call.2.2 &&& 1 = 0) := by
  decide

/-- **The program is interrupted.** -/
theorem Entered.user (h : Entered u s vector code handler before rest) (hring : rpl s.cpu.cs = 3) :
    rpl before.cpu.cs = 0 ∧ before.top = before.cpu.esp + 4 ∧
      ∃ esp, passedFrame before
        = frameOf s.cpu esp (UInt32.ofNat vector) (if hasErrorCode vector then code else 0) := by
  obtain ⟨stub, typeAttr, hcall, rfl, rfl, hrun⟩ := h.call
  have henter : s.enter (entryOf (u.address stub) gdtKernelCodeSel typeAttr).gate gdtKernelDataSel u.esp0 vector code
      = s.interrupt (entryOf (u.address stub) gdtKernelCodeSel typeAttr).gate gdtKernelDataSel u.esp0 vector code :=
    if_pos (by rw [hring]; exact show rpl gdtKernelCodeSel < 3 by decide)
  rw [henter] at hrun
  obtain ⟨before', esp, hrun', hcs, hptr, hframe⟩ := run_interrupt hcall s
    (entryOf (u.address stub) gdtKernelCodeSel typeAttr).gate u.esp0 code
  cases hrun.symm.trans hrun'
  exact ⟨(congrArg rpl hcs).trans (show rpl gdtKernelCodeSel = 0 by decide), hptr, esp, hframe⟩

/-- **The kernel is interrupted**, and finds its registers again. -/
theorem Entered.kernel (h : Entered u s vector code handler before rest) (hring : rpl s.cpu.cs = 0) :
    (passedFrame before).intNo = UInt32.ofNat vector ∧
      (Returned before after → words after.stack before.top 19 = words before.stack before.top 19 →
        run restoreCode after = .back resumed → resumed.cpu = s.cpu) := by
  obtain ⟨stub, typeAttr, hcall, rfl, rfl, hrun⟩ := h.call
  have henter : s.enter (entryOf (u.address stub) gdtKernelCodeSel typeAttr).gate gdtKernelDataSel u.esp0 vector code
      = s.interruptInner (entryOf (u.address stub) gdtKernelCodeSel typeAttr).gate vector code :=
    if_neg (by rw [hring]; exact show ¬ rpl gdtKernelCodeSel < 0 by decide)
  rw [henter] at hrun
  obtain ⟨before', esp, hrun', -, -, -, hptr, hframe⟩ := @run_interruptInner _ hcall s
    (entryOf (u.address stub) gdtKernelCodeSel typeAttr).gate code 2 (by decide)
  cases hrun.symm.trans hrun'
  obtain ⟨before', hrun', hafter⟩ := @interruptInner_back _ hcall s hring
    (entryOf (u.address stub) gdtKernelCodeSel typeAttr).gate code 2 (by decide)
  cases hrun.symm.trans hrun'
  refine ⟨?_, fun hreturned hkept hback => ?_⟩
  · rw [passedFrame, hptr]
    exact hframe.get (i := 12) rfl
  · obtain ⟨resumed', hback', hcpu, -⟩ := hafter after hreturned hkept
    cases hback.symm.trans hback'
    exact hcpu

/-- Through an interrupt gate, the handler runs with interrupts disabled. -/
theorem Entered.disabled (h : Entered u s vector code handler before rest) (hvector : vector < 32) :
    ¬ interruptsEnabled before.cpu.eflags := by
  obtain ⟨stub, typeAttr, hcall, rfl, rfl, hrun⟩ := h.call
  have hgate : (entryOf (u.address stub) gdtKernelCodeSel typeAttr).gate.interruptGate = true :=
    decide_eq_true ((idtCalls_handler _ hcall).2.2 hvector).2
  obtain ⟨hflow, -⟩ := stub_before hcall hrun
  have hflags : (s.enter (entryOf (u.address stub) gdtKernelCodeSel typeAttr).gate gdtKernelDataSel u.esp0 vector
      code).cpu.eflags = s.cpu.eflags &&& ~~~ (entryOf (u.address stub) gdtKernelCodeSel typeAttr).gate.clears := by
    unfold State.enter
    split <;> rfl
  rw [hflow.eflags, hflags]
  exact Gate.clears_disables hgate _

/-! ## Returns -/

/-- The words of a frame that was kept. -/
theorem passedFrame_kept (hkept : words after.stack before.top 19 = words before.stack before.top 19) :
    InterruptFrame.read after.stack before.top = passedFrame before := by
  have hbefore := InterruptFrame.read_holds before.stack before.top
  rw [holds_iff] at hbefore
  apply InterruptFrame.read_eq
  rw [holds_iff]
  exact hkept.trans hbefore

/-- The stub goes back to the program. -/
theorem returns_user {f : InterruptFrame} (hreturned : Returned before after) (hptr : before.top = before.cpu.esp + 4)
    (hcs : rpl before.cpu.cs = 0) (hframe : InterruptFrame.read after.stack before.top = f)
    (huser : rpl f.cs.toUInt16 = 3) (hback : run restoreCode after = .back resumed) : resumed.cpu = f.context := by
  obtain ⟨resumed', hrun, hcpu⟩ := @run_restore after f (by
    rw [hreturned.esp, ← hptr, ← hframe]
    exact InterruptFrame.read_holds _ _) (by
    rw [hreturned.cs, hcs, huser]
    decide)
  cases hback.symm.trans hrun
  exact hcpu

/-- The stub goes back to the kernel. -/
theorem returns_kernel {f : InterruptFrame} (hreturned : Returned before after)
    (hptr : before.top = before.cpu.esp + 4) (hframe : InterruptFrame.read after.stack before.top = f)
    (hkernel : rpl f.cs.toUInt16 = 0) (hback : run restoreCode after = .back resumed) :
    resumed.cpu = { f.context with esp := before.cpu.esp + 72, ss := before.cpu.ss } := by
  have hwords : Holds after.stack (after.cpu.esp + 4) (f.words.take 17 ++ [f.useresp, f.ss]) := by
    rw [hreturned.esp, ← hptr, ← hframe]
    exact InterruptFrame.read_holds _ _
  obtain ⟨resumed', hrun, -, hcpu⟩ := run_restoreInner hwords (by
    rw [hkernel]
    exact UInt16.not_lt_zero)
  cases hback.symm.trans hrun
  rw [hcpu, hreturned.esp, hreturned.ss]

/-! ## Memory -/

/-- A write to a buffer of the program does not reach far. -/
theorem Mem.put_far (m : Mem) {a b : UInt32} {bytes : List UInt8} (ha : OutOfReach a) (hb : InWindow b)
    (hlen : bytes.length ≤ streamBufSize) : m.put b bytes a = m a := by
  obtain ⟨hlow, hhigh⟩ := (inWindow_iff b).mp hb
  obtain ⟨hstart, hend⟩ := window_toNat
  have hsize : streamBufSize = 1024 := rfl
  have hoffset : bytes.length ≤ (a - b).toNat := by
    rw [UInt32.toNat_sub]
    have hsmall := a.toNat_lt
    rcases ha with hbelow | habove <;> omega
  unfold Mem.put
  rw [List.getElem?_eq_none hoffset]
  rfl

/-- A read gives no more than there is. -/
theorem Console.Step.read_le {c c' : Console} {room : Nat} {bytes : List UInt8}
    (h : Console.Step c (.read room bytes) c') : bytes.length ≤ (c.pipe streamStdin).waiting.length := by
  cases h with
  | read hget =>
      cases hget with
      | get hroom hn =>
          rw [List.length_take]
          exact Nat.min_le_right _ _

/-- **A system call leaves what is out of reach.** -/
theorem Syscall.kept {c : Cpu} {con con' : Console} {m m' : Mem} {eax : UInt32}
    (hroom : (con.pipe streamStdin).waiting.length ≤ streamBufSize) (h : Syscall c con m eax con' m') {a : UInt32}
    (ha : OutOfReach a) : m' a = m a := by
  cases h with
  | read hcall hbuf hread => exact m.put_far ha hbuf (Nat.le_trans hread.read_le hroom)
  | write => rfl
  | getpid => rfl
  | nullBuffer => rfl
  | badString => rfl
  | badBuffer => rfl
  | unknown => rfl

/-! ## The simulation -/

/-- The machine of a system. The registers of the program are those of the processor as long as it runs, and
    interrupts are enabled as long as it did not stop. -/
structure Machine.Realizes (m : Machine) (sc₀ : Screen) (o : Os) : Prop where
  place : m.place = o.place
  mem : m.mem = o.mem
  shell : ∃ sh, m.shell = some sh ∧ sh.Realizes sc₀ o.console
  program : o.place = .program → m.state.cpu = o.cpu ∧ rpl o.cpu.cs = 3
  kernel : o.place = .exiting ∨ o.place = .idle → rpl m.state.cpu.cs = 0
  enabled : interruptsEnabled m.state.cpu.eflags ↔ o.place ≠ .halted

variable {program : UserCode} {m m' : Machine} {sc₀ : Screen} {o : Os}

/-- What the handler is passed for a system call. -/
structure CallFrame (c : Cpu) (f : InterruptFrame) : Prop where
  frame : ∃ esp intNo errCode, f = frameOf c esp intNo errCode
  intNo : f.intNo = 0x80
  user : f.cs &&& 0x3 = 3

theorem Entered.callFrame (h : Entered u s 0x80 code handler before rest) (hring : rpl s.cpu.cs = 3) :
    rpl before.cpu.cs = 0 ∧ before.top = before.cpu.esp + 4 ∧ CallFrame s.cpu (passedFrame before) := by
  obtain ⟨hcs, hptr, esp, hframe⟩ := h.user hring
  refine ⟨hcs, hptr, ⟨_, _, _, hframe⟩, ?_, ?_⟩
  · rw [hframe]
    exact show UInt32.ofNat 0x80 = 0x80 by decide
  · rw [hframe]
    exact (UInt16.toUInt32_and s.cpu.cs 3).symm.trans (congrArg UInt16.toUInt32 hring)

/-- **A system call.** -/
theorem Machine.Realizes.syscall (h : m.Realizes sc₀ o) (hplace : o.place = .program) {scancode : UInt8}
    {ports : List (UInt16 × UInt8)} (hserved : Served u (m.skip 2) 0x80 0 scancode ports m') :
    ∃ o', Os.Step program o (.int 0x80) o' ∧ m'.Realizes sc₀ o' := by
  obtain ⟨hcpu, hring⟩ := h.program hplace
  obtain ⟨sh, hshell, hsh⟩ := h.shell
  have hnext : (m.skip 2).state.cpu = nextInstr o.cpu 2 := congrArg (fun c => nextInstr c 2) hcpu
  have hring' : rpl (m.skip 2).state.cpu.cs = 3 := by
    rw [hnext]
    exact hring
  have henabled : interruptsEnabled o.cpu.eflags := by
    rw [← hcpu, h.enabled, hplace]
    nofun
  cases hserved with
  | halt hentered hsome hhandler hreport =>
      obtain ⟨-, -, hframe⟩ := hentered.callFrame hring'
      rw [show (m.skip 2).shell = some sh from hshell] at hhandler
      obtain ⟨r, hout, -⟩ := interruptHandler_eq_syscall hsh hframe.user hframe.intNo hhandler
      cases hout
  | irq hentered hhandler hreturned hkept hback =>
      obtain ⟨stub, typeAttr, hcall, hhand, -⟩ := hentered.call
      rw [(idtCalls_handler _ hcall).1 (.inl rfl)] at hhand
      cases hhand
  | @exception before after resumed rest r hentered hhandler hreturned hframe' hback =>
      obtain ⟨hcs, hptr, hframe⟩ := hentered.callFrame hring'
      obtain ⟨stub, typeAttr, hcall, -, rfl, -⟩ := hentered.call
      rw [show (m.skip 2).shell = some sh from hshell, show (m.skip 2).mem = o.mem from h.mem] at hhandler
      obtain ⟨r', hout, hsyscall⟩ := interruptHandler_eq_syscall hsh hframe.user hframe.intNo hhandler
      cases hout
      obtain ⟨esp, intNo, errCode, hwords⟩ := hframe.frame
      have heax : (passedFrame before).eax = o.cpu.eax := by
        rw [hwords, hnext]
        rfl
      by_cases hexit : o.cpu.eax = sysExit
      -- the frame names a selector of ring 0
      · obtain ⟨⟨bytes, sh', htext, hshell', hsh'⟩, hmem, hcs', -, hflags, -⟩ :=
          handleSyscall_exit hsh u.addrs hframe.user (heax.trans hexit) hsyscall
        have hebx : (passedFrame before).ebx = o.cpu.ebx := by
          rw [hwords, hnext]
          rfl
        rw [hebx] at htext
        have hselector : rpl r.frame.cs.toUInt16 = 0 := by
          rw [hcs']
          decide
        have hcpu' := returns_kernel hreturned hptr hframe' hselector hback
        have hkernel : rpl resumed.cpu.cs = 0 := by
          rw [hcpu']
          exact hselector
        have henabled' : interruptsEnabled resumed.cpu.eflags := by
          rw [hcpu']
          show interruptsEnabled r.frame.eflags
          rw [hflags, hwords, hnext]
          exact henabled
        have hplace' : (if rpl resumed.cpu.cs = 3 then (m.skip 2).place else .exiting) = Place.exiting := by
          rw [hkernel]
          exact if_neg (by decide)
        rw [hplace', hshell', hmem]
        exact ⟨_, .exit hplace hexit htext, rfl, rfl, ⟨sh', rfl, hsh'⟩, nofun, fun _ => hkernel,
          iff_of_true henabled' nofun⟩
      · obtain ⟨eax, con', sh', hanswer, hrframe, hshell', hsh'⟩ :=
          handleSyscall_answers hsh u.addrs hframe.user (by rw [heax]; exact hexit) hsyscall
        rw [hwords, frameOf_context, hnext] at hanswer
        rw [hwords, frameOf_eax, hnext] at hrframe
        have hcpu' := returns_user hreturned hptr hcs hframe' (by
          rw [hrframe]
          exact (congrArg rpl (selector_back o.cpu.cs)).trans hring) hback
        rw [hrframe, frameOf_context] at hcpu'
        have huser : rpl resumed.cpu.cs = 3 := by
          rw [hcpu']
          exact hring
        rw [if_pos huser, hshell']
        exact ⟨_, .syscall hplace hexit hanswer, h.place.trans hplace, rfl, ⟨sh', rfl, hsh'⟩,
          fun _ => ⟨hcpu', hring⟩, nofun, iff_of_true (by rw [hcpu']; exact henabled) nofun⟩

/-- **An exception** is reported, and the system stops. -/
theorem Machine.Realizes.fault (h : m.Realizes sc₀ o) (hplace : o.place = .program) {scancode : UInt8}
    {ports : List (UInt16 × UInt8)} (hvector : vector < 32) (hnot : vector ≠ 3)
    (hserved : Served u m vector code scancode ports m') :
    ∃ bytes, Reported o.cpu vector code bytes ∧
      m'.Realizes sc₀ { o with console := o.console.print bytes, place := .halted } := by
  obtain ⟨hcpu, hring⟩ := h.program hplace
  obtain ⟨sh, hshell, hsh⟩ := h.shell
  have hring' : rpl m.state.cpu.cs = 3 := by
    rw [hcpu]
    exact hring
  cases hserved with
  | exception hentered hhandler hreturned hframe' hback =>
      obtain ⟨stub, typeAttr, hcall, -⟩ := hentered.call
      have hsmall := ((idtCalls_handler _ hcall).2.2 hvector).1
      obtain ⟨-, -, esp, hframe⟩ := hentered.user hring'
      rw [hframe, hshell] at hhandler
      have hindex : (UInt32.ofNat vector).toNat = vector := by
        rw [UInt32.toNat_ofNat']
        omega
      refine absurd hhandler (interruptHandler_fault ?_ ?_)
      · exact UInt32.lt_iff_toNat_lt.mpr (by
          show (UInt32.ofNat vector).toNat < 17
          omega)
      · intro heq
        apply hnot
        rw [← hindex]
        exact congrArg UInt32.toNat heq
  | irq hentered hhandler hreturned hkept hback =>
      obtain ⟨stub, typeAttr, hcall, hhand, -⟩ := hentered.call
      rw [(idtCalls_handler _ hcall).1 (.inr ((idtCalls_handler _ hcall).2.2 hvector).1)] at hhand
      cases hhand
  | @halt before rest sh₁ sh' hentered hsome hhandler hreport =>
      obtain rfl := Option.some.inj (hshell.symm.trans hsome)
      obtain ⟨stub, typeAttr, hcall, -⟩ := hentered.call
      obtain ⟨-, -, esp, hframe⟩ := hentered.user hring'
      rw [hframe, hcpu] at hreport
      obtain ⟨bytes, hreported, hsh'⟩ := exceptionReport_reported hsh hring
        ((idtCalls_handler _ hcall).2.2 hvector).1 hreport
      refine ⟨bytes, hreported, rfl, h.mem, ⟨sh', rfl, hsh'⟩, nofun, nofun, ?_⟩
      exact iff_of_false (hentered.disabled hvector) fun hnot => hnot rfl

/-- The processor after an interrupt whose handler left the frame. -/
theorem Machine.Realizes.served (h : m.Realizes sc₀ o) (hrunning : o.place ≠ .halted)
    (hentered : Entered u m.state vector code handler before restoreCode) (hreturned : Returned before after)
    (hkept : words after.stack before.top 19 = words before.stack before.top 19)
    (hback : run restoreCode after = .back resumed) :
    (passedFrame before).intNo = UInt32.ofNat vector ∧ resumed.cpu = m.state.cpu := by
  by_cases hplace : o.place = .program
  · obtain ⟨hcpu, hring⟩ := h.program hplace
    rw [← hcpu] at hring
    obtain ⟨hcs, hptr, esp, hframe⟩ := hentered.user hring
    have hcpu' := returns_user hreturned hptr hcs ((passedFrame_kept hkept).trans hframe)
      ((congrArg rpl (selector_back m.state.cpu.cs)).trans hring) hback
    rw [frameOf_context] at hcpu'
    exact ⟨by rw [hframe]; rfl, hcpu'⟩
  · have hkernel : o.place = .exiting ∨ o.place = .idle := by
      cases hp : o.place with
      | program => exact absurd hp hplace
      | exiting => exact .inl rfl
      | idle => exact .inr rfl
      | halted => exact absurd hp hrunning
    obtain ⟨hvector, hresumed⟩ := hentered.kernel (h.kernel hkernel)
    exact ⟨hvector, hresumed hreturned hkept hback⟩

/-- **A hardware interrupt.** -/
theorem Machine.Realizes.irq (h : m.Realizes sc₀ o) {scancode : UInt8}
    {ports : List (UInt16 × UInt8)} (henabled : interruptsEnabled m.state.cpu.eflags) (hlow : 32 ≤ vector)
    (hhigh : vector < 48) (hserved : Served u m vector 0 scancode ports m') :
    ∃ o', Os.Step program o (.irq vector scancode) o' ∧ m'.Realizes sc₀ o' ∧ m'.state.cpu = m.state.cpu := by
  have hrunning : o.place ≠ .halted := h.enabled.mp henabled
  obtain ⟨sh, hshell, hsh⟩ := h.shell
  cases hserved with
  | exception hentered hhandler hreturned hframe' hback =>
      obtain ⟨stub, typeAttr, hcall, hhand, -⟩ := hentered.call
      rw [((idtCalls_handler _ hcall).2.1 hlow hhigh).1] at hhand
      cases hhand
  | halt hentered hsome hhandler hreport =>
      obtain ⟨stub, typeAttr, hcall, hhand, -⟩ := hentered.call
      rw [((idtCalls_handler _ hcall).2.1 hlow hhigh).1] at hhand
      cases hhand
  | @irq before after resumed rest shell ports hentered hhandler hreturned hkept hback =>
      obtain ⟨stub, typeAttr, hcall, -, rfl, -⟩ := hentered.call
      obtain ⟨hvector, hcpu⟩ := h.served hrunning hentered hreturned hkept hback
      rw [hshell] at hhandler
      -- the shell is all that changes
      have hnext : ∀ {sh' con'}, shell = some sh' → sh'.Realizes sc₀ con' →
          Machine.Realizes ⟨resumed, m.mem, shell, m.place⟩ sc₀ { o with console := con' } := by
        intro sh' con' hshell' hsh'
        refine ⟨h.place, h.mem, ⟨_, hshell', hsh'⟩, ?_, ?_, ?_⟩
        · rw [hcpu]
          exact h.program
        · rw [hcpu]
          exact h.kernel
        · rw [hcpu]
          exact h.enabled
      rcases ((idtCalls_handler _ hcall).2.1 hlow hhigh).2 with hv | hv
      · obtain rfl : vector = 32 := hv
        exact ⟨o, .tick scancode hrunning, hnext (irqHandler_timer hvector hhandler) hsh, hcpu⟩
      · obtain rfl : vector = 33 := hv
        rcases irqHandler_letter hsh hvector hhandler with ⟨hnone, hsame⟩ | ⟨hletter, con', ret, sh', hsh', hreal, hwrite⟩
        · exact ⟨o, .noLetter hrunning hnone, hnext hsame hsh, hcpu⟩
        · exact ⟨_, .key hrunning hletter hwrite, hnext hsh' hreal, hcpu⟩

/-- **Step lemma.** -/
theorem Machine.Realizes.step (h : m.Realizes sc₀ o) {e : Event} (hstep : Machine.Step u program m e m') :
    ∃ o', Os.Step program o e o' ∧ m'.Realizes sc₀ o' := by
  cases hstep with
  | @exec cpu mem hplace hexec =>
      have hplace' : o.place = .program := h.place.symm.trans hplace
      obtain ⟨hcpu, hring⟩ := h.program hplace'
      have hexec := hexec.self
      rw [hcpu, h.mem] at hexec
      have henabled := h.enabled
      rw [hcpu, ← program.enabled_iff hexec] at henabled
      refine ⟨_, .exec hplace' hexec, h.place, rfl, h.shell, fun _ => ⟨rfl, ?_⟩, fun hp => ?_, henabled⟩
      · exact (congrArg rpl (program.cs_eq hexec)).trans hring
      · rcases hp with hp | hp <;> cases hplace'.symm.trans hp
  | @int _ n e ports hplace hgate hcallable hserved =>
      have hplace' : o.place = .program := h.place.symm.trans hplace
      obtain ⟨hcpu, hring⟩ := h.program hplace'
      rw [← hcpu] at hring
      obtain rfl := (callable_iff hring hgate).mp hcallable
      exact h.syscall hplace' hserved
  | @intDenied _ n e ports hplace hgate hdenied hserved =>
      have hplace' : o.place = .program := h.place.symm.trans hplace
      obtain ⟨hcpu, hring⟩ := h.program hplace'
      rw [← hcpu] at hring
      obtain ⟨bytes, hreport, hnext⟩ := h.fault hplace' (by decide) (by decide) hserved
      exact ⟨_, .int hplace' (fun hn => hdenied ((callable_iff hring hgate).mpr hn)) hreport, hnext⟩
  | fault hplace hvector hnot hserved =>
      have hplace' : o.place = .program := h.place.symm.trans hplace
      obtain ⟨bytes, hreport, hnext⟩ := h.fault hplace' hvector hnot hserved
      exact ⟨_, .fault hplace' hvector hreport, hnext⟩
  | irq henabled hlow hhigh hserved =>
      obtain ⟨o', hnext, hreal, -⟩ := h.irq henabled hlow hhigh hserved
      exact ⟨o', hnext, hreal⟩
  | @settle s hplace hcs hflags =>
      have hplace' : o.place = .exiting := h.place.symm.trans hplace
      obtain ⟨sh, hshell, hsh⟩ := h.shell
      refine ⟨_, .settle hplace', rfl, h.mem, ⟨_, ?_, hsh.print _⟩, nofun, fun _ => ?_, ?_⟩
      · rw [exitToKernel, hshell]
        rfl
      · rw [hcs]
        exact h.kernel (.inl hplace')
      · rw [hflags, h.enabled, hplace']
        exact iff_of_true nofun nofun

/-- What waits at stdin fits into its stream. -/
theorem Machine.Realizes.stdin (h : m.Realizes sc₀ o) : ∃ sh, m.shell = some sh ∧
    (sh.stream streamStdin).contents = (o.console.pipe streamStdin).waiting ∧
    (o.console.pipe streamStdin).waiting.length ≤ streamBufSize := by
  obtain ⟨sh, hshell, hsh⟩ := h.shell
  have hcarries := hsh.carries streamStdin
  have hlen := hcarries.ok.contents_length
  have hle := hcarries.ok.count_le
  rw [hcarries.contents] at hlen
  exact ⟨sh, hshell, hcarries.contents, by omega⟩

/-- **Nothing is stored to the memory of the kernel**, but what it keeps in the other fields. -/
theorem Machine.Realizes.kept (h : m.Realizes sc₀ o) {e : Event} (hstep : Machine.Step u program m e m') {a : UInt32}
    (ha : u.kernel a = true) : m'.mem a = m.mem a := by
  by_cases he : e = .exec
  · subst he
    cases hstep with
    | exec hplace hexec => exact hexec.kept a ha
  obtain ⟨o', hnext, h'⟩ := h.step hstep
  rw [h'.mem, h.mem]
  cases hnext with
  | exec => exact absurd rfl he
  | syscall hplace hexit hcall =>
      obtain ⟨-, -, -, hroom⟩ := h.stdin
      exact hcall.kept hroom (u.kernel_far ha)
  | exit => rfl
  | int => rfl
  | fault => rfl
  | tick => rfl
  | key => rfl
  | noLetter => rfl
  | settle => rfl

theorem Machine.realizes_start (hplace : m.place = .program) (hring : rpl m.state.cpu.cs = 3)
    (henabled : interruptsEnabled m.state.cpu.eflags) {sh : Shell} (hshell : m.shell = some sh) {con : Console}
    (hsh : sh.Realizes sc₀ con) : m.Realizes sc₀ ⟨m.state.cpu, m.mem, con, .program⟩ :=
  ⟨hplace, rfl, ⟨sh, hshell, hsh⟩, fun _ => ⟨rfl, hring⟩, nofun, iff_of_true henabled nofun⟩

/-- **Run lemma.** -/
theorem Machine.Realizes.run (h : m.Realizes sc₀ o) {vis : List (Machine × Event)}
    (hrun : Run (Machine.Step u program) m vis m') :
    ∃ avis o', Run (Os.Step program) o avis o' ∧ avis.map Prod.snd = vis.map Prod.snd ∧ m'.Realizes sc₀ o' :=
  hrun.simulates (R := fun m o => m.Realizes sc₀ o) (g := id) (fun _ _ _ _ hm hstep => hm.step hstep) h

theorem Machine.Realizes.run_kept (h : m.Realizes sc₀ o) {vis : List (Machine × Event)}
    (hrun : Run (Machine.Step u program) m vis m') {a : UInt32} (ha : u.kernel a = true) : m'.mem a = m.mem a := by
  induction hrun generalizing o with
  | nil => rfl
  | cons hstep _ ih =>
      obtain ⟨o', -, h'⟩ := h.step hstep
      exact (ih h').trans (h.kept hstep ha)

/-- A machine that is reached from a user program realizes a system. -/
theorem Machine.realizes_reached (hplace : m.place = .program) (hring : rpl m.state.cpu.cs = 3)
    (henabled : interruptsEnabled m.state.cpu.eflags) {sh : Shell} (hshell : m.shell = some sh)
    (hreach : sh.Reachable) {vis : List (Machine × Event)} (hrun : Run (Machine.Step u program) m vis m') :
    ∃ sc₀ o, m'.Realizes sc₀ o := by
  obtain ⟨sc₀, con, hsh, -⟩ := hreach.shows
  obtain ⟨-, o, -, -, ho⟩ := (Machine.realizes_start hplace hring henabled hshell hsh).run hrun
  exact ⟨sc₀, o, ho⟩

/-- **The machine refines the system.** From a machine in a user program, with any shell that the kernel gets to:
    every run is, event for event, a run of the system. In the end the machine is where the system is, with the
    memory of the system; a program that still runs finds the registers that the system says; and each stream
    carries its pipe. No instruction and no `SYS_READ` has stored to the memory of the kernel. -/
theorem machine_refines (hplace : m.place = .program) (hring : rpl m.state.cpu.cs = 3)
    (henabled : interruptsEnabled m.state.cpu.eflags) {sh : Shell}
    (hshell : m.shell = some sh) (hreach : sh.Reachable) {vis : List (Machine × Event)}
    (hrun : Run (Machine.Step u program) m vis m') :
    ∃ sc₀ con avis o, sh.Realizes sc₀ con ∧ Run (Os.Step program) ⟨m.state.cpu, m.mem, con, .program⟩ avis o ∧
      avis.map Prod.snd = vis.map Prod.snd ∧ m'.place = o.place ∧ m'.mem = o.mem ∧
      (o.place = .program → m'.state.cpu = o.cpu) ∧ (∀ a, u.kernel a = true → m'.mem a = m.mem a) ∧
      ∃ sh', m'.shell = some sh' ∧ sh'.Realizes sc₀ o.console := by
  obtain ⟨sc₀, con, hsh, -⟩ := hreach.shows
  have hstart := Machine.realizes_start hplace hring henabled hshell hsh
  obtain ⟨avis, o, harun, hlabels, ho⟩ := hstart.run hrun
  exact ⟨sc₀, con, avis, o, hsh, harun, hlabels, ho.place, ho.mem, fun hp => (ho.program hp).1,
    fun a ha => hstart.run_kept hrun ha, ho.shell⟩

/-- A program that does nothing. -/
def nops : UserCode where
  exec c m ports c' m' := c' = nextInstr c 1 ∧ ports = [] ∧ m' = m
  cs_eq := by
    rintro c m ports c' m' ⟨rfl, rfl, rfl⟩
    rfl
  enabled_iff := by
    rintro c m ports c' m' ⟨rfl, rfl, rfl⟩
    exact Iff.rfl

theorem nops_stays (kernel : UInt32 → Bool) (c : Cpu) (m : Mem) : nops.Stays kernel c m (nextInstr c 1) m :=
  ⟨fun _ => ⟨rfl, rfl, rfl⟩, fun _ _ => rfl⟩

/-- The stubs, one after the other. -/
def stubsInOrder : Setup where
  address s := UInt32.ofNat (0x100000 + 16 * s.ctorIdx)
  address_injective := by
    have hback : ∀ s : Stub, (UInt32.ofNat (0x100000 + 16 * s.ctorIdx)).toNat = 0x100000 + 16 * s.ctorIdx := by
      intro s
      cases s <;> rfl
    intro s s' heq
    have hidx : s.ctorIdx = s'.ctorIdx := by
      have hnat : 0x100000 + 16 * s.ctorIdx = 0x100000 + 16 * s'.ctorIdx := by
        rw [← hback s, ← hback s']
        exact congrArg UInt32.toNat heq
      omega
    cases s <;> cases s' <;> first | rfl | cases hidx
  addrs := ⟨0x103000, 0x101000⟩
  esp0 := 0x102000
  kernel a := 0xB8000 ≤ a && a < 0x200000
  kernel_far := by
    intro a ha
    simp only [Bool.and_eq_true, decide_eq_true_eq] at ha
    exact .inl (Nat.lt_trans (UInt32.lt_iff_toNat_lt.mp ha.2) (by decide))

def getpidMachine : Machine := ⟨userState, fun _ => 0, some bootShell, .program⟩

theorem machine_refines_nop : ∃ sc₀ con avis o, bootShell.Realizes sc₀ con ∧
    Run (Os.Step nops) ⟨userState.cpu, fun _ => 0, con, .program⟩ avis o ∧ avis.map Prod.snd = [.exec] := by
  have hrun : Run (Machine.Step stubsInOrder nops) getpidMachine _ _ := .cons (.exec rfl (nops_stays _ _ _)) .nil
  obtain ⟨sc₀, con, avis, o, hsh, harun, hlabels, -⟩ :=
    machine_refines rfl (by decide) (by decide) rfl bootShell_reachable hrun
  exact ⟨sc₀, con, avis, o, hsh, harun, hlabels⟩

end Drupe
