import Drupe.Interrupts.Stubs
import Drupe.Lib.Ring0

/-!
# `System.Machine` — the machine once the user program runs

The processor with the stack of the kernel, the memory of the program, and the shell. It takes one step for an
instruction of the program and one for an interrupt from its gate to its `iret`: the stub that the gate leads
to is followed, and the handler it calls is the one of `Interrupts.Handlers`.

These are runs within limits:
* a system call is one step, and so is what `exit_to_kernel` prints. Interrupts are enabled there, but those by
  hardware come between two steps here. A tick inside is not seen (`interrupt_ring0`); what a key does to a print is
  `Interrupts.Preemption`;
* an instruction of the program uses no port, and finds and leaves nothing in the memory of the kernel
  (`UserCode.Stays`). No hardware sees to that: there is no paging, the segments are flat, and ports are open
  (`umSwitch_ports_iff`). What the kernel has there is in the other fields of the machine;
* so is its stack, which therefore overlaps nothing else of the kernel, though `esp0` is what the allocator gave.
-/

namespace Drupe

open Lib.X86

/-! ## Gates -/

/-- The gate may be used at all. -/
def IdtEntry.Present (e : IdtEntry) : Prop := e.typeAttr &&& 0x80 ≠ 0

instance (e : IdtEntry) : Decidable e.Present := inferInstanceAs (Decidable (¬ _))

/-- The outermost ring that may use the gate by `int`. -/
def IdtEntry.dpl (e : IdtEntry) : UInt16 := ((e.typeAttr >>> 5) &&& 3).toUInt16

/-- `int` through the gate is permitted. -/
def IdtEntry.Callable (e : IdtEntry) (cs : UInt16) : Prop := e.Present ∧ rpl cs ≤ e.dpl

instance (e : IdtEntry) (cs : UInt16) : Decidable (e.Callable cs) := inferInstanceAs (Decidable (_ ∧ _))

/-! ## Functions that do not return -/

/-- The part of `interrupt_handler` for exceptions, before it halts. -/
def exceptionReport (sh : Shell) (f : InterruptFrame) : Except Fault Shell := do
  let sh ← shPrintf sh (literal "EXCEPTION: %s (0x%x)\r\n")
    [.str (exceptionMessages[f.intNo.toNat]?.map text), .word f.intNo]
  let sh ← shPrintf sh (literal "Error Code: 0x%x\r\n") [.word f.errCode]
  let sh ← shPrintf sh (literal "EIP: 0x%x, CS: 0x%x\r\n") [.word f.eip, .word f.cs]
  return if f.cs &&& 0x3 = 3 then shPuts sh (text "Exception occurred in user mode!\r\n") else sh

/-- `exit_to_kernel`, up to its loop. -/
def exitToKernel (shell : Option Shell) : Option Shell := shell.map fun sh => shPuts sh (text "Idling...\r\n")

/-! ## The machine -/

/-- Where the processor is, between two steps. -/
inductive Place
  | program
  /-- At the beginning of `exit_to_kernel`. -/
  | exiting
  /-- In the loop of `exit_to_kernel`. -/
  | idle
  /-- In the loop at the end of `interrupt_handler`. -/
  | halted
deriving DecidableEq

structure Machine where
  state : State
  mem : Mem
  shell : Option Shell
  place : Place

/-- No buffer that the kernel accepts for a read reaches to `a`. -/
def OutOfReach (a : UInt32) : Prop :=
  a.toNat < userWindowStart.toNat ∨ userWindowEnd.toNat + streamBufSize ≤ a.toNat

/-- What was set up when the program was entered. `esp0`: the stack that the task state segment names. -/
structure Setup where
  address : Stub → UInt32
  address_injective : Function.Injective address
  addrs : KernelAddrs
  esp0 : UInt32
  /-- The memory of the kernel: its code, its variables, its stacks and the screen. -/
  kernel : UInt32 → Bool
  kernel_far : ∀ {a}, kernel a = true → OutOfReach a

/-- The instructions of a program, those apart that interrupt, each with the ports that it uses. They leave what
    ring 3 cannot change. -/
structure UserCode where
  exec : Cpu → Mem → List UInt16 → Cpu → Mem → Prop
  cs_eq : ∀ {c m ports c' m'}, exec c m ports c' m' → c'.cs = c.cs
  enabled_iff : ∀ {c m ports c' m'}, exec c m ports c' m' →
    (interruptsEnabled c'.eflags ↔ interruptsEnabled c.eflags)

/-- `m`, with the memory of the kernel as in `k`. -/
def Mem.under (m : Mem) (kernel : UInt32 → Bool) (k : Mem) : Mem := fun a => if kernel a then k a else m a

/-- **An instruction that stays in the program.** It uses no port. Whatever is in the memory of the kernel, it does the
    same, and leaves that. -/
structure UserCode.Stays (code : UserCode) (kernel : UInt32 → Bool) (c : Cpu) (m : Mem) (c' : Cpu) (m' : Mem) :
    Prop where
  exec : ∀ k : Mem, code.exec c (m.under kernel k) [] c' (m'.under kernel k)
  kept : ∀ a, kernel a = true → m' a = m a

theorem Mem.under_eq {m k : Mem} {kernel : UInt32 → Bool} (h : ∀ a, kernel a = true → m a = k a) :
    m.under kernel k = m := by
  funext a
  unfold Mem.under
  split
  · exact (h a ‹_›).symm
  · rfl

/-- What it does to the memory as it is. -/
theorem UserCode.Stays.self {code : UserCode} {kernel : UInt32 → Bool} {c c' : Cpu} {m m' : Mem}
    (h : code.Stays kernel c m c' m') : code.exec c m [] c' m' := by
  have hexec := h.exec m
  rw [Mem.under_eq fun a _ => rfl, Mem.under_eq h.kept] at hexec
  exact hexec

inductive Event
  /-- An instruction of the program. -/
  | exec
  /-- `int n`, by the program. -/
  | int (n : UInt8)
  /-- An exception that the program raised. -/
  | fault (vector : Nat) (code : UInt32)
  /-- A line of the interrupt controller, with what the keyboard has at its port. -/
  | irq (vector : Nat) (scancode : UInt8)
  /-- `exit_to_kernel` gets to its loop. -/
  | settle
deriving DecidableEq

/-- The gate `vector` leads to a stub, which calls its handler in the state `before`. -/
structure Entered (u : Setup) (s : State) (vector : Nat) (code : UInt32) (handler : CHandler) (before : State)
    (rest : List (Instr CHandler)) : Prop where
  entered : ∃ e stub, (idtSetup u.address)[vector]? = some e ∧ e.Present ∧ u.address stub = e.gate.offset ∧
    run stub.code (s.enter e.gate gdtKernelDataSel u.esp0 vector code) = .call handler before rest

/-- A whole interrupt, with what is written to ports. No other one comes before its `iret`. Of the gates only that of
    vector `0x80` would permit one. -/
inductive Served (u : Setup) (m : Machine) (vector : Nat) (code : UInt32) (scancode : UInt8) :
    List (UInt16 × UInt8) → Machine → Prop
  | exception {before after resumed : State} {rest : List (Instr CHandler)} {r : SyscallResult}
      (hentered : Entered u m.state vector code .interruptHandler before rest)
      (hhandler : interruptHandler u.addrs m.shell m.mem (passedFrame before) = .ok (some r))
      (hreturned : Returned before after) (hframe : InterruptFrame.read after.stack before.top = r.frame)
      (hback : run rest after = .back resumed) :
      Served u m vector code scancode []
        ⟨resumed, r.mem, r.shell, if rpl resumed.cpu.cs = 3 then m.place else .exiting⟩
  | halt {before : State} {rest : List (Instr CHandler)} {sh sh' : Shell}
      (hentered : Entered u m.state vector code .interruptHandler before rest) (hshell : m.shell = some sh)
      (hhandler : interruptHandler u.addrs m.shell m.mem (passedFrame before) = .ok none)
      (hreport : exceptionReport sh (passedFrame before) = .ok sh') :
      Served u m vector code scancode [] ⟨before, m.mem, some sh', .halted⟩
  | irq {before after resumed : State} {rest : List (Instr CHandler)} {shell : Option Shell}
      {ports : List (UInt16 × UInt8)} (hentered : Entered u m.state vector code .irqHandler before rest)
      (hhandler : irqHandler m.shell scancode (passedFrame before) = .ok (shell, ports))
      (hreturned : Returned before after)
      (hkept : words after.stack before.top 19 = words before.stack before.top 19)
      (hback : run rest after = .back resumed) :
      Served u m vector code scancode ports ⟨resumed, m.mem, shell, m.place⟩

/-- The machine after an instruction of `n` bytes that interrupts. -/
def Machine.skip (m : Machine) (n : UInt32) : Machine :=
  { m with state := { m.state with cpu := { m.state.cpu with eip := m.state.cpu.eip + n } } }

/-- **A step of the machine**, within the limits above: a program that stays in its memory and leaves the ports alone,
    and interrupts by hardware between an instruction, an interrupt or a print, and the next. -/
inductive Machine.Step (u : Setup) (code : UserCode) : Machine → Event → Machine → Prop
  | exec {m : Machine} {cpu : Cpu} {mem : Mem} (hplace : m.place = .program)
      (hexec : code.Stays u.kernel m.state.cpu m.mem cpu mem) :
      Machine.Step u code m .exec { m with state := { m.state with cpu }, mem }
  | int {m m' : Machine} {n : UInt8} {e : IdtEntry} {ports : List (UInt16 × UInt8)} (hplace : m.place = .program)
      (hgate : (idtSetup u.address)[n.toNat]? = some e) (hcallable : e.Callable m.state.cpu.cs)
      (hserved : Served u (m.skip 2) n.toNat 0 0 ports m') : Machine.Step u code m (.int n) m'
  /-- A gate that the program may not use: `#GP`, with its selector. -/
  | intDenied {m m' : Machine} {n : UInt8} {e : IdtEntry} {ports : List (UInt16 × UInt8)} (hplace : m.place = .program)
      (hgate : (idtSetup u.address)[n.toNat]? = some e) (hdenied : ¬ e.Callable m.state.cpu.cs)
      (hserved : Served u m 13 (n.toUInt32 * 8 + 2) 0 ports m') : Machine.Step u code m (.int n) m'
  /-- Vector 3 is for `int3` only, which is an `int`. -/
  | fault {m m' : Machine} {vector : Nat} {c : UInt32} {ports : List (UInt16 × UInt8)} (hplace : m.place = .program)
      (hvector : vector < 32) (hnot : vector ≠ 3) (hserved : Served u m vector c 0 ports m') :
      Machine.Step u code m (.fault vector c) m'
  | irq {m m' : Machine} {vector : Nat} {scancode : UInt8} {ports : List (UInt16 × UInt8)}
      (henabled : interruptsEnabled m.state.cpu.eflags) (hlow : 32 ≤ vector) (hhigh : vector < 48)
      (hserved : Served u m vector 0 scancode ports m') : Machine.Step u code m (.irq vector scancode) m'
  | settle {m : Machine} {s : State} (hplace : m.place = .exiting) (hcs : s.cpu.cs = m.state.cpu.cs)
      (hflags : s.cpu.eflags = m.state.cpu.eflags) :
      Machine.Step u code m .settle ⟨s, m.mem, exitToKernel m.shell, .idle⟩

end Drupe
