import Drupe.Interrupts.Correctness.Context
import Drupe.Shell.Correctness.Console
import Drupe.System.Os

/-!
# `System.Correctness.Calls` — the handlers do what the system says

The three functions that a program gets to see, each on the frame that its registers make: a system call that
`interrupt_handler` serves (`interruptHandler_call`, `interruptHandler_exit`), the report of an exception
(`exceptionReport_report`), and the keyboard (`irqHandler_letter`).
-/

namespace Drupe

open Lib Lib.X86

variable {sh sh' : Shell} {sc₀ : Screen} {con : Console} {m : Mem} {f : InterruptFrame} {r : SyscallResult}

/-! ## Printing -/

theorem Shell.Realizes.putc (h : sh.Realizes sc₀ con) (b : UInt8) :
    (shPutc sh b).Realizes sc₀ (con.write streamStdout [b]) :=
  (h.write streamStdout (fun _ => b) 1).1

theorem Shell.Realizes.print (h : sh.Realizes sc₀ con) (bytes : List UInt8) :
    (bytes.foldl shPutc sh).Realizes sc₀ (con.print bytes) := by
  induction bytes generalizing sh con with
  | nil => exact h
  | cons b bytes ih => exact ih (h.putc b)

theorem Console.print_append (con : Console) (first rest : List UInt8) :
    con.print (first ++ rest) = (con.print first).print rest := List.foldl_append

/-- What `sh_printf` prints is what is said. -/
theorem Shell.Realizes.printf (h : sh.Realizes sc₀ con) {fmt : String} {args : List VaArg}
    (hprint : shPrintf sh (literal fmt) args = .ok sh') :
    ∃ bytes, Says fmt args bytes ∧ sh'.Realizes sc₀ (con.print bytes) := by
  rw [shPrintf_eq] at hprint
  obtain ⟨bytes, hbytes, rfl⟩ := map_eq_ok.mp hprint
  exact ⟨bytes, hbytes, h.print bytes⟩

/-! ## System calls -/

/-- The stores of `SYS_READ`. -/
theorem store_put (m : Mem) (a : UInt32) {bytes : List UInt8} (hsmall : bytes.length ≤ 4294967296) :
    store (fun k => a + UInt32.ofNat k) (fun _ k => bytes[k]?.getD 0) bytes.length 0 m = m.put a bytes := by
  funext x
  have hx := (x - a).toNat_lt
  have hback : a + UInt32.ofNat (x - a).toNat = x := by
    rw [UInt32.ofNat_toNat]
    grind
  unfold Mem.put
  rcases Nat.lt_or_ge (x - a).toNat bytes.length with hin | hout
  · have hwritten := @store_written _ _ _ (fun k => a + UInt32.ofNat k) (fun _ k => bytes[k]?.getD 0) _ _ m
      (fun j k hj hk heq => absurd (add_ofNat_inj (by omega) (by omega) heq) (Nat.ne_of_lt hj)) hin
    simp only [hback] at hwritten
    rw [hwritten, List.getElem?_eq_getElem hin]
    rfl
  · rw [List.getElem?_eq_none hout, store_frame]
    · rfl
    · intro t ht heq
      rw [Nat.zero_add] at heq
      have hoffset : (x - a).toNat = t := by
        rw [heq, UInt32.add_comm, UInt32.add_sub_cancel, UInt32.toNat_ofNat']
        omega
      omega

theorem Shell.Realizes.read_le (h : sh.Realizes sc₀ con) (len : Int) :
    (streamRead (sh.stream streamStdin) len).2.length ≤ streamBufSize := by
  obtain ⟨hok, hsplit, -⟩ := streamRead_spec (h.carries streamStdin).ok len
  have hcount := (h.carries streamStdin).ok.contents_length
  have hle := (h.carries streamStdin).ok.count_le
  have hlen := congrArg List.length hsplit
  rw [List.length_append] at hlen
  omega

/-- What a system call that uses a buffer can do. -/
theorem onUserBuffer_ends {message : String} {access : Shell → SyscallResult}
    (hcall : onUserBuffer (some sh) m f message access = .ok r) :
    (f.ecx = 0 ∧ r = refuse (some sh) m f) ∨ (InWindow f.ecx ∧ r = access sh) ∨
      (f.ecx ≠ 0 ∧ ¬ InWindow f.ecx ∧ ∃ sh', shPrintf sh (literal message) [.word f.ecx] = .ok sh' ∧
        r = refuse (some sh') m f) := by
  unfold onUserBuffer at hcall
  simp only at hcall
  by_cases hnull : f.ecx = 0
  · rw [if_pos hnull] at hcall
    exact .inl ⟨hnull, (Except.ok.inj hcall).symm⟩
  by_cases hin : InWindow f.ecx
  · rw [if_neg hnull, if_pos hin] at hcall
    exact .inr (.inl ⟨hin, (Except.ok.inj hcall).symm⟩)
  · rw [if_neg hnull, if_neg hin] at hcall
    obtain ⟨sh₁, hprint, hrest⟩ := bind_eq_ok.mp hcall
    exact .inr (.inr ⟨hnull, hin, sh₁, hprint, (Except.ok.inj hrest).symm⟩)

theorem printfIfShell_eq_ok {fmt : List UInt8} {args : List VaArg} {shell : Option Shell}
    (hcall : printfIfShell (some sh) fmt args = .ok shell) :
    ∃ sh', shPrintf sh fmt args = .ok sh' ∧ shell = some sh' := by
  obtain ⟨sh', hprint, rfl⟩ := map_eq_ok.mp hcall
  exact ⟨sh', hprint, rfl⟩

/-- What a system call leaves, seen from the program: an answer in `eax`, and the rest of the frame as it was. -/
def Answers (sc₀ : Screen) (con : Console) (m : Mem) (f : InterruptFrame) (r : SyscallResult) : Prop :=
  ∃ eax con' sh', Syscall f.context con m eax con' r.mem ∧ r.frame = { f with eax } ∧ r.shell = some sh' ∧
    sh'.Realizes sc₀ con'

theorem handleWrite_answers (h : sh.Realizes sc₀ con) (heax : f.eax = sysWrite)
    (hcall : handleWrite (some sh) m f = .ok r) : Answers sc₀ con m f r := by
  rcases onUserBuffer_ends hcall with ⟨hnull, rfl⟩ | ⟨hin, rfl⟩ | ⟨hnull, hout, sh', hprint, rfl⟩
  · exact ⟨_, con, sh, .nullBuffer (.inl heax) hnull, rfl, rfl, h⟩
  · obtain ⟨con', hstep, hnext⟩ := h.step (.write sh (signed f.ebx) (userBuf m f.ecx) (signed f.edx))
    exact ⟨_, con', _, .write heax hin hstep, rfl, rfl, hnext⟩
  · obtain ⟨bytes, htext, hnext⟩ := h.printf hprint
    exact ⟨_, _, sh', .badString heax hnull hout htext, rfl, rfl, hnext⟩

theorem handleRead_answers (h : sh.Realizes sc₀ con) (heax : f.eax = sysRead)
    (hcall : handleRead (some sh) m f = .ok r) : Answers sc₀ con m f r := by
  rcases onUserBuffer_ends hcall with ⟨hnull, rfl⟩ | ⟨hin, rfl⟩ | ⟨hnull, hout, sh', hprint, rfl⟩
  · exact ⟨_, con, sh, .nullBuffer (.inr heax) hnull, rfl, rfl, h⟩
  · obtain ⟨con', hstep, hnext⟩ := h.read (signed f.edx)
    have hsmall := h.read_le (signed f.edx)
    have hmem := store_put m f.ecx (Nat.le_trans hsmall (by decide))
    refine ⟨_, con', _, ?_, rfl, rfl, hnext⟩
    simp only [hmem]
    exact .read heax hin hstep
  · obtain ⟨bytes, htext, hnext⟩ := h.printf hprint
    exact ⟨_, _, sh', .badBuffer heax hnull hout htext, rfl, rfl, hnext⟩

/-- **A system call other than `SYS_EXIT`.** -/
theorem handleSyscall_answers (h : sh.Realizes sc₀ con) (addrs : KernelAddrs) (huser : f.cs &&& 0x3 = 3)
    (hexit : f.eax ≠ sysExit) (hcall : handleSyscall addrs (some sh) m f = .ok r) : Answers sc₀ con m f r := by
  unfold handleSyscall at hcall
  rw [if_neg (not_not.mpr huser)] at hcall
  by_cases hwrite : f.eax = sysWrite
  · rw [if_pos hwrite] at hcall
    exact handleWrite_answers h hwrite hcall
  by_cases hpid : f.eax = sysGetpid
  · rw [if_neg hwrite, if_neg hexit, if_pos hpid] at hcall
    obtain rfl := Except.ok.inj hcall
    exact ⟨1, con, sh, .getpid hpid, rfl, rfl, h⟩
  by_cases hread : f.eax = sysRead
  · rw [if_neg hwrite, if_neg hexit, if_neg hpid, if_pos hread] at hcall
    exact handleRead_answers h hread hcall
  · rw [if_neg hwrite, if_neg hexit, if_neg hpid, if_neg hread] at hcall
    obtain ⟨shell, hif, hrest⟩ := bind_eq_ok.mp hcall
    obtain ⟨sh', hprint, rfl⟩ := printfIfShell_eq_ok hif
    cases hrest
    obtain ⟨bytes, htext, hnext⟩ := h.printf hprint
    exact ⟨_, _, sh', .unknown ⟨hwrite, hexit, hpid, hread⟩ htext, rfl, rfl, hnext⟩

/-- **`SYS_EXIT`.** Of the frame that it leaves, only what `iret` takes within ring 0 is used. -/
theorem handleSyscall_exit (h : sh.Realizes sc₀ con) (addrs : KernelAddrs) (huser : f.cs &&& 0x3 = 3)
    (hexit : f.eax = sysExit) (hcall : handleSyscall addrs (some sh) m f = .ok r) :
    (∃ bytes sh', Says "Exited with code %d\r\n" [.word f.ebx] bytes ∧ r.shell = some sh' ∧
      sh'.Realizes sc₀ (con.print bytes)) ∧
    r.mem = m ∧ r.frame.cs = 0x08 ∧ r.frame.eip = addrs.exitToKernel ∧ r.frame.eflags = f.eflags ∧
      r.frame.intNo = f.intNo := by
  have hwrite : f.eax ≠ sysWrite := by
    rw [hexit]
    decide
  unfold handleSyscall at hcall
  rw [if_neg (not_not.mpr huser), if_neg hwrite, if_pos hexit] at hcall
  obtain ⟨shell, hif, hrest⟩ := bind_eq_ok.mp hcall
  obtain ⟨sh', hprint, rfl⟩ := printfIfShell_eq_ok hif
  cases hrest
  obtain ⟨bytes, htext, hnext⟩ := h.printf hprint
  exact ⟨⟨bytes, sh', htext, rfl, hnext⟩, rfl, rfl, rfl, rfl, rfl⟩

/-! ## `interrupt_handler` -/

/-- At vector `0x80`, it is `handle_syscall`, and returns. -/
theorem interruptHandler_eq_syscall (h : sh.Realizes sc₀ con) {addrs : KernelAddrs} {out : Option SyscallResult}
    (huser : f.cs &&& 0x3 = 3) (hvector : f.intNo = 0x80) (hcall : interruptHandler addrs (some sh) m f = .ok out) :
    ∃ r, out = some r ∧ handleSyscall addrs (some sh) m f = .ok r := by
  have hsmall : ¬ f.intNo < 17 := by
    rw [hvector]
    decide
  unfold interruptHandler at hcall
  simp only [if_neg hsmall, if_pos hvector] at hcall
  obtain ⟨r, hr, hrest⟩ := bind_eq_ok.mp hcall
  have hsame : r.frame.intNo = f.intNo := by
    by_cases hexit : f.eax = sysExit
    · exact (handleSyscall_exit h addrs huser hexit hr).2.2.2.2.2
    · obtain ⟨eax, con', sh', -, hframe, -⟩ := handleSyscall_answers h addrs huser hexit hr
      rw [hframe]
  have hreturns : ¬ (r.frame.intNo < 32 ∧ r.frame.intNo ≠ 3) := by
    rw [hsame, hvector]
    decide
  rw [if_neg hreturns] at hrest
  exact ⟨r, (Except.ok.inj hrest).symm, hr⟩

/-- An exception other than a breakpoint does not return. -/
theorem interruptHandler_fault {addrs : KernelAddrs} (hvector : f.intNo < 17) (hnot : f.intNo ≠ 3) :
    interruptHandler addrs (some sh) m f ≠ .ok (some r) := by
  intro hcall
  have hsmall : f.intNo < 32 := UInt32.lt_trans hvector (by decide)
  unfold interruptHandler at hcall
  simp only [if_pos hvector] at hcall
  obtain ⟨sh₁, -, hcall⟩ := bind_eq_ok.mp hcall
  obtain ⟨sh₂, -, hcall⟩ := bind_eq_ok.mp hcall
  obtain ⟨sh₃, -, hcall⟩ := bind_eq_ok.mp hcall
  obtain ⟨r', hr, hrest⟩ := bind_eq_ok.mp hcall
  cases hr
  rw [if_pos ⟨hsmall, hnot⟩] at hrest
  cases hrest

theorem cString_userMode : cString (text "Exception occurred in user mode!\r\n")
    = text "Exception occurred in user mode!\r\n" := by
  rw [text_ofList]
  rfl

/-- **The report of an exception** that a program raised. -/
theorem exceptionReport_reported (h : sh.Realizes sc₀ con) {c : Cpu} {esp : UInt32} {vector : Nat} {code : UInt32}
    (huser : rpl c.cs = 3) (hvector : vector < 17)
    (hcall : exceptionReport sh (frameOf c esp (UInt32.ofNat vector) (if hasErrorCode vector then code else 0))
      = .ok sh') : ∃ bytes, Reported c vector code bytes ∧ sh'.Realizes sc₀ (con.print bytes) := by
  have hring : c.cs.toUInt32 &&& 0x3 = 3 := (UInt16.toUInt32_and c.cs 3).symm.trans (congrArg UInt16.toUInt32 huser)
  have hindex : (UInt32.ofNat vector).toNat = vector := by
    rw [UInt32.toNat_ofNat']
    omega
  have hcount : vector < exceptionMessages.length := by
    rw [show exceptionMessages.length = 17 from rfl]
    exact hvector
  obtain ⟨name, hname⟩ : ∃ name, exceptionMessages[vector]?.map text = some name := by
    rw [List.getElem?_eq_getElem hcount]
    exact ⟨_, rfl⟩
  unfold exceptionReport at hcall
  obtain ⟨sh₁, hprint₁, hcall⟩ := bind_eq_ok.mp hcall
  obtain ⟨sh₂, hprint₂, hcall⟩ := bind_eq_ok.mp hcall
  obtain ⟨sh₃, hprint₃, hcall⟩ := bind_eq_ok.mp hcall
  have hlast : (if c.cs.toUInt32 &&& 0x3 = 3 then shPuts sh₃ (text "Exception occurred in user mode!\r\n") else sh₃)
      = sh' := Except.ok.inj hcall
  rw [if_pos hring] at hlast
  obtain ⟨first, hfirst, h₁⟩ := h.printf hprint₁
  obtain ⟨second, hsecond, h₂⟩ := h₁.printf hprint₂
  obtain ⟨third, hthird, h₃⟩ := h₂.printf hprint₃
  simp only [frameOf, hindex, hname] at hfirst
  refine ⟨_, .user hname hfirst hsecond hthird, ?_⟩
  rw [Console.print_append, Console.print_append, Console.print_append, ← hlast, shPuts, cString_userMode]
  exact h₃.print _

/-! ## `irq_handler` -/

/-- The timer does nothing. -/
theorem irqHandler_timer {scancode : UInt8} {shell : Option Shell} {ports : List (UInt16 × UInt8)}
    (hvector : f.intNo = 32) (hcall : irqHandler (some sh) scancode f = .ok (shell, ports)) : shell = some sh := by
  unfold irqHandler at hcall
  simp only [if_pos hvector] at hcall
  obtain ⟨shell', hshell, hrest⟩ := bind_eq_ok.mp hcall
  cases hshell
  cases hrest
  rfl

/-- The keyboard writes a letter to stdin, if there is one. -/
theorem irqHandler_letter (h : sh.Realizes sc₀ con) {scancode : UInt8} {shell : Option Shell}
    {ports : List (UInt16 × UInt8)} (hvector : f.intNo = 33)
    (hcall : irqHandler (some sh) scancode f = .ok (shell, ports)) :
    (scancodeToAscii scancode = 0 ∧ shell = some sh) ∨
      (scancodeToAscii scancode ≠ 0 ∧ ∃ con' ret sh', shell = some sh' ∧ sh'.Realizes sc₀ con' ∧
        Console.Step con (.write streamStdin.val [scancodeToAscii scancode] ret) con') := by
  have hnot : f.intNo ≠ 32 := by
    rw [hvector]
    decide
  unfold irqHandler at hcall
  simp only [if_neg hnot, if_pos hvector] at hcall
  by_cases hascii : scancodeToAscii scancode = 0
  · rw [if_neg fun hboth => hboth.2 hascii] at hcall
    cases hcall
    exact .inl ⟨hascii, rfl⟩
  · have hpress : scancode < 128 := by
      by_contra hrelease
      exact hascii (if_pos (UInt8.not_lt.mp hrelease))
    rw [if_pos ⟨hpress, hascii⟩] at hcall
    cases hcall
    obtain ⟨con', hstep, hnext⟩ := h.step (.write sh streamStdin.val (fun _ => scancodeToAscii scancode) 1)
    exact .inr ⟨hascii, con', _, _, rfl, hnext, hstep⟩

end Drupe
