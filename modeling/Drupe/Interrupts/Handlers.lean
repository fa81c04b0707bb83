import Drupe.Interrupts.Syscalls

/-!
# `Interrupts.Handlers` — the C handlers (`interrupts.c`)

The stubs pass the frame of an exception or system call to `interruptHandler`, and that of a hardware
interrupt to `irqHandler`. A handler that halts does not return.
-/

namespace Drupe

def exceptionMessages : List String :=
  ["Division By Zero", "Debug", "Non Maskable Interrupt", "Breakpoint", "Into Detected Overflow", "Out of Bounds",
    "Invalid Opcode", "No Coprocessor", "Double Fault", "Coprocessor Segment Overrun", "Bad TSS",
    "Segment Not Present", "Stack Fault", "General Protection Fault", "Page Fault", "Unknown Interrupt",
    "Coprocessor Fault"]

/-- `keymap`; the entries after the last one here are zero. -/
def keymap : List UInt8 :=
  [0, 27] ++ text "1234567890-=" ++ [8, 9] ++ text "qwertyuiop[]" ++ [10, 0] ++ text "asdfghjkl;'`" ++ [0] ++
    text "\\zxcvbnm,./" ++ [0] ++ text "*" ++ [0] ++ text " " ++ List.replicate 16 0 ++ text "-" ++ [0, 0, 0] ++
    text "+"

def scancodeToAscii (scancode : UInt8) : UInt8 :=
  if scancode ≥ 128 then 0 else keymap[scancode.toNat]?.getD 0

example : scancodeToAscii 30 = 97 ∧ scancodeToAscii 57 = 32 ∧ scancodeToAscii 78 = 43 := by decide +kernel

/-- `none`: it halts. -/
def interruptHandler (addrs : KernelAddrs) (shell : Option Shell) (m : Mem) (f : InterruptFrame) :
    Except Fault (Option SyscallResult) := do
  let r ← match shell with
    | none => pure ⟨f, none, m, []⟩
    | some sh =>
      if f.intNo < 17 then do
        let sh ← shPrintf sh (literal "EXCEPTION: %s (0x%x)\r\n")
          [.str (exceptionMessages[f.intNo.toNat]?.map text), .word f.intNo]
        let sh ← shPrintf sh (literal "Error Code: 0x%x\r\n") [.word f.errCode]
        let sh ← shPrintf sh (literal "EIP: 0x%x, CS: 0x%x\r\n") [.word f.eip, .word f.cs]
        let sh := if f.cs &&& 0x3 = 3 then shPuts sh (text "Exception occurred in user mode!\r\n") else sh
        pure ⟨f, some sh, m, []⟩
      else if f.intNo = 0x80 then handleSyscall addrs (some sh) m f
      else do
        let sh ← shPrintf sh (literal "Unknown interrupt: 0x%x\r\n") [.word f.intNo]
        pure ⟨f, some sh, m, []⟩
  return if r.frame.intNo < 32 ∧ r.frame.intNo ≠ 3 then none else some r

/-- `scancode` is what the keyboard has at its port. The second answer is what is written to ports, in
    order. The frame is left as it is. -/
def irqHandler (shell : Option Shell) (scancode : UInt8) (f : InterruptFrame) :
    Except Fault (Option Shell × List (UInt16 × UInt8)) := do
  let shell ← match shell with
    | none => pure none
    | some sh =>
      if f.intNo = 32 then pure (some sh)
      else if f.intNo = 33 then
        let ascii := scancodeToAscii scancode
        if scancode < 128 ∧ ascii ≠ 0 then pure (some (shWriteStream sh streamStdin.val (fun _ => ascii) 1).1)
        else pure (some sh)
      else do
        let sh ← shPrintf sh (literal "Hardware interrupt: IRQ%d (INT 0x%x)\r\n")
          [.word (f.intNo - 32), .word f.intNo]
        pure (some sh)
  return (shell, (if f.intNo ≥ 40 then [(0xA0, 0x20)] else []) ++ [(0x20, 0x20)])

/-! ## System calls -/

/-- The checks of a buffer and the access leave the frame, `eax` aside. -/
theorem onUserBuffer_frame (shell : Option Shell) (m : Mem) (f : InterruptFrame) (message : String)
    (hmessage : formatFits (literal message) [.word] = true) {access : Shell → SyscallResult}
    (haccess : ∀ sh, ∃ eax, (access sh).frame = { f with eax }) :
    ∃ r eax, onUserBuffer shell m f message access = .ok r ∧ r.frame = { f with eax } := by
  cases shell with
  | none => exact ⟨_, errorResult, rfl, rfl⟩
  | some sh =>
      unfold onUserBuffer
      by_cases hnull : f.ecx = 0
      · simp only [if_pos hnull]
        exact ⟨_, errorResult, rfl, rfl⟩
      by_cases hin : InWindow f.ecx
      · obtain ⟨eax, heax⟩ := haccess sh
        simp only [if_neg hnull, if_pos hin]
        exact ⟨_, eax, rfl, heax⟩
      · obtain ⟨sh', hprint⟩ := shPrintf_total sh hmessage [.word f.ecx] rfl
        simp only [if_neg hnull, if_neg hin, hprint, ok_bind]
        exact ⟨_, errorResult, rfl, rfl⟩

theorem printfIfShell_total (shell : Option Shell) {fmt : List UInt8} {kinds : List VaKind}
    (h : formatFits fmt kinds = true) (args : List VaArg) (hargs : args.map VaArg.kind = kinds) :
    ∃ shell', printfIfShell shell fmt args = .ok shell' := by
  cases shell with
  | none => exact ⟨none, rfl⟩
  | some sh =>
      obtain ⟨sh', hprint⟩ := shPrintf_total sh h args hargs
      exact ⟨some sh', by rw [printfIfShell, hprint]; rfl⟩

/-- **A system call other than `SYS_EXIT`**, from user mode, returns, and leaves the frame but for `eax`. -/
theorem handleSyscall_frame (addrs : KernelAddrs) (shell : Option Shell) (m : Mem) {f : InterruptFrame}
    (huser : f.cs &&& 0x3 = 3) (hcall : f.eax ≠ sysExit) :
    ∃ r eax, handleSyscall addrs shell m f = .ok r ∧ r.frame = { f with eax } := by
  unfold handleSyscall
  rw [if_neg (not_not.mpr huser)]
  by_cases hwrite : f.eax = sysWrite
  · rw [if_pos hwrite]
    exact onUserBuffer_frame shell m f _ (by decide +kernel) fun sh => ⟨f.edx, rfl⟩
  by_cases hpid : f.eax = sysGetpid
  · rw [if_neg hwrite, if_neg hcall, if_pos hpid]
    exact ⟨_, 1, rfl, rfl⟩
  by_cases hread : f.eax = sysRead
  · rw [if_neg hwrite, if_neg hcall, if_neg hpid, if_pos hread]
    exact onUserBuffer_frame shell m f _ (by decide +kernel) fun sh => ⟨_, rfl⟩
  · have hfits : formatFits (literal "Unknown system call: %d\r\n") [.word] = true := by decide +kernel
    obtain ⟨shell', hprint⟩ := printfIfShell_total shell hfits [.word f.eax] rfl
    rw [if_neg hwrite, if_neg hcall, if_neg hpid, if_neg hread, hprint]
    exact ⟨_, errorResult, rfl, rfl⟩

/-- The same through `interruptHandler`. -/
theorem interruptHandler_syscall (addrs : KernelAddrs) (shell : Option Shell) (m : Mem) {f : InterruptFrame}
    (hvector : f.intNo = 0x80) (huser : f.cs &&& 0x3 = 3) (hcall : f.eax ≠ sysExit) :
    ∃ r eax, interruptHandler addrs shell m f = .ok (some r) ∧ r.frame = { f with eax } := by
  have hreturns : ¬ (f.intNo < 32 ∧ f.intNo ≠ 3) := by
    rw [hvector]
    decide
  cases shell with
  | none => exact ⟨_, f.eax, congrArg Except.ok (if_neg hreturns), rfl⟩
  | some sh =>
      obtain ⟨r, eax, hr, hframe⟩ := handleSyscall_frame addrs (some sh) m huser hcall
      have hsmall : ¬ f.intNo < 17 := by
        rw [hvector]
        decide
      have hsame : r.frame.intNo = f.intNo := by rw [hframe]
      refine ⟨r, eax, ?_, hframe⟩
      unfold interruptHandler
      simp only [if_neg hsmall, if_pos hvector, hr, ok_bind, hsame, if_neg hreturns]
      rfl

end Drupe
