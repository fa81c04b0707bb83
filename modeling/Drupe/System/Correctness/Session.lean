import Drupe.Shell.Display
import Drupe.System.Correctness.Boot

/-!
# `System.Correctness.Session` — what is on the screen

What a program and the kernel say is told by the registers and the memory of the program alone (`saidBy`), and the
screen shows what was said, from the first line of the boot on (`session_shown`). The keyboard and the timer say
nothing, as long as no key comes in the middle of a print.
-/

namespace Drupe

open Lib Lib.X86

/-! ## What is said -/

/-- What the kernel prints is said byte by byte. -/
def printed (bytes : List UInt8) : List Said := bytes.map fun b => ⟨.stdout, [b]⟩

def saidLine (fmt : String) (args : List VaArg) : List Said :=
  printed ((printfBytes (literal fmt) args).toOption.getD [])

/-- The report of an exception. -/
def reportLines (c : Cpu) (vector : Nat) (code : UInt32) : List Said :=
  saidLine "EXCEPTION: %s (0x%x)\r\n" [.str (exceptionMessages[vector]?.map text), .word (UInt32.ofNat vector)] ++
    saidLine "Error Code: 0x%x\r\n" [.word (if hasErrorCode vector then code else 0)] ++
    saidLine "EIP: 0x%x, CS: 0x%x\r\n" [.word c.eip, .word c.cs.toUInt32] ++
    printed (text "Exception occurred in user mode!\r\n")

/-- What a system call says, and for it the kernel. -/
def saidByCall (c : Cpu) (m : Mem) : List Said :=
  if c.eax = sysWrite then
    if InWindow c.ecx then Console.saidTo (signed c.ebx) ((List.range (signed c.edx).toNat).map (userBuf m c.ecx))
    else if c.ecx = 0 then [] else saidLine "Invalid string pointer: 0x%x\r\n" [.word c.ecx]
  else if c.eax = sysExit then saidLine "Exited with code %d\r\n" [.word c.ebx]
  else if c.eax = sysGetpid then []
  else if c.eax = sysRead then
    if InWindow c.ecx ∨ c.ecx = 0 then [] else saidLine "Invalid buffer pointer: 0x%x\r\n" [.word c.ecx]
  else saidLine "Unknown system call: %d\r\n" [.word c.eax]

/-- What is said at an event, with these registers and this memory. -/
def saidBy (c : Cpu) (m : Mem) : Event → List Said
  | .int n => if n = 0x80 then saidByCall c m else reportLines c 13 (n.toUInt32 * 8 + 2)
  | .fault vector code => reportLines c vector code
  | .settle => printed (cString (text "Idling...\r\n"))
  | .exec | .irq _ _ => []

theorem Says.line {fmt : String} {args : List VaArg} {bytes : List UInt8} (h : Says fmt args bytes) :
    saidLine fmt args = printed bytes := by
  unfold saidLine
  rw [h]
  rfl

theorem printed_append (first rest : List UInt8) : printed (first ++ rest) = printed first ++ printed rest :=
  List.map_append

theorem Reported.lines {c : Cpu} {vector : Nat} {code : UInt32} {bytes : List UInt8}
    (h : Reported c vector code bytes) : reportLines c vector code = printed bytes := by
  cases h with
  | user hname hfirst hsecond hthird =>
      unfold reportLines
      rw [hname, hfirst.line, hsecond.line, hthird.line, printed_append, printed_append, printed_append]

/-! ## One step -/

variable {program : UserCode} {o o' : Os} {e : Event} {lines : List Said}

theorem Console.Displays.print {c : Console} (h : c.Displays lines) (bytes : List UInt8) :
    (c.print bytes).Displays (lines ++ printed bytes) := by
  induction bytes generalizing c lines with
  | nil =>
      rw [printed, List.map_nil, List.append_nil]
      exact h
  | cons b bytes ih =>
      rw [printed, List.map_cons, List.append_cons]
      exact ih (h.write .stdout [b])

/-- **A system call.** -/
theorem Syscall.displays {c : Cpu} {con con' : Console} {m m' : Mem} {eax : UInt32} (hexit : c.eax ≠ sysExit)
    (hcall : Syscall c con m eax con' m') (h : con.Displays lines) : con'.Displays (lines ++ saidByCall c m) := by
  have hzero : ¬ InWindow 0 := by decide
  cases hcall with
  | write hnr hbuf hwrite =>
      rw [saidByCall, if_pos hnr, if_pos hbuf]
      exact h.step_write hwrite
  | read hnr hbuf hread =>
      have hnone : saidByCall c m = [] := by
        rw [saidByCall, hnr, if_neg (by decide), if_neg (by decide), if_neg (by decide), if_pos rfl, if_pos (.inl hbuf)]
      rw [hnone, List.append_nil]
      exact h.step_read hread
  | getpid hnr =>
      have hnone : saidByCall c m = [] := by
        rw [saidByCall, hnr, if_neg (by decide), if_neg (by decide), if_pos rfl]
      rw [hnone, List.append_nil]
      exact h
  | nullBuffer hnr hnull =>
      have hnone : saidByCall c m = [] := by
        rcases hnr with hnr | hnr
        · rw [saidByCall, if_pos hnr, hnull, if_neg hzero, if_pos rfl]
        · rw [saidByCall, hnr, if_neg (by decide), if_neg (by decide), if_neg (by decide), if_pos rfl,
            if_pos (.inr hnull)]
      rw [hnone, List.append_nil]
      exact h
  | badString hnr hnull hout htext =>
      rw [saidByCall, if_pos hnr, if_neg hout, if_neg hnull, htext.line]
      exact h.print _
  | badBuffer hnr hnull hout htext =>
      rw [saidByCall, hnr, if_neg (by decide), if_neg (by decide), if_neg (by decide), if_pos rfl,
        if_neg (not_or.mpr ⟨hout, hnull⟩), htext.line]
      exact h.print _
  | unknown hnr htext =>
      rw [saidByCall, if_neg hnr.1, if_neg hexit, if_neg hnr.2.2.1, if_neg hnr.2.2.2, htext.line]
      exact h.print _

/-- **Step lemma.** -/
theorem Os.Step.displays (hstep : Os.Step program o e o') (h : o.console.Displays lines) :
    o'.console.Displays (lines ++ saidBy o.cpu o.mem e) := by
  cases hstep with
  | exec =>
      rw [saidBy, List.append_nil]
      exact h
  | syscall hplace hexit hcall =>
      have hother : (nextInstr o.cpu 2).eax ≠ sysExit := hexit
      have hnext := hcall.displays hother h
      exact hnext
  | exit hplace hexit htext =>
      rw [saidBy, if_pos rfl, saidByCall, hexit, if_neg (by decide), if_pos rfl, htext.line]
      exact h.print _
  | int hplace hn hreport =>
      rw [saidBy, if_neg hn, hreport.lines]
      exact h.print _
  | fault hplace hvector hreport =>
      rw [saidBy, hreport.lines]
      exact h.print _
  | tick =>
      rw [saidBy, List.append_nil]
      exact h
  | @key scancode console ret hrunning hletter hwrite =>
      have hnone : Console.saidTo streamStdin.val [scancodeToAscii scancode] = [] := rfl
      have hnext := h.step_write hwrite
      rw [hnone] at hnext
      exact hnext
  | noLetter =>
      rw [saidBy, List.append_nil]
      exact h
  | settle => exact h.print _

/-! ## Whole runs -/

variable {u : Setup} {m m' : Machine} {sc₀ : Screen}

/-- What is said at an event of the machine. -/
def Machine.said (m : Machine) (e : Event) : List Said := saidBy m.state.cpu m.mem e

/-- The machine and the system agree on what is said. -/
theorem Machine.Realizes.utters (h : m.Realizes sc₀ o) (hos : Os.Step program o e o') :
    m.said e = saidBy o.cpu o.mem e := by
  have hprogram : o.place = .program → m.said e = saidBy o.cpu o.mem e := by
    intro hplace
    rw [Machine.said, (h.program hplace).1, h.mem]
  cases hos with
  | exec hplace => exact hprogram hplace
  | syscall hplace => exact hprogram hplace
  | exit hplace => exact hprogram hplace
  | int hplace => exact hprogram hplace
  | fault hplace => exact hprogram hplace
  | tick => rfl
  | key => rfl
  | noLetter => rfl
  | settle => rfl

/-- **Run lemma.** -/
theorem Machine.Realizes.displays (h : m.Realizes sc₀ o) (hcon : o.console.Displays lines)
    {vis : List (Machine × Event)} (hrun : Run (Machine.Step u program) m vis m') :
    ∃ o', m'.Realizes sc₀ o' ∧ o'.console.Displays (lines ++ putIn Machine.said vis) := by
  induction hrun generalizing o lines with
  | nil =>
      refine ⟨o, h, ?_⟩
      show o.console.Displays (lines ++ [])
      rw [List.append_nil]
      exact hcon
  | @cons m e m₁ vis m' hstep _ ih =>
      obtain ⟨o₁, hos, h₁⟩ := h.step hstep
      have hcon₁ := hos.displays hcon
      rw [← h.utters hos] at hcon₁
      obtain ⟨o', h', hcon'⟩ := ih h₁ hcon₁
      rw [List.append_assoc] at hcon'
      exact ⟨o', h', hcon'⟩

/-- **What is on the screen.** After a boot that entered user mode, and any run from there: the screen shows what was
    said, from the first byte of the log on, in order and each output in its colour, and no other byte. An output that
    something is queued for is jammed: what was said at it has a newline at a multiple of `streamBufSize`. -/
theorem session_shown {l : Loaded} (h0 : l.address .isr0 ≠ 0) (h13 : l.address .isr13 ≠ 0) {k : KernelState}
    {setup : SetupReturn} (hboot : boot l = .ok (k, .userMode setup)) {s : State} (hring : rpl s.cpu.cs = 0)
    {vis : List (Machine × Event)} (hrun : Run (Machine.Step (l.setup k) program) (k.userMachine s) vis m) :
    ∃ total ksh log said sh, mb2GetMemory l.mem l.mb2Magic l.mb2Address = .ok total ∧
      shInit l.streamData l.videoMemory vgaWidth (vgaWidth * vgaHeight) = .ok ksh ∧
      BootLog (l.input total) (.userMode setup) log ∧ said = printed log ++ putIn Machine.said vis ∧
      m.shell = some sh ∧
      sh.screen = { renderEvents ksh.screen (display [] said) with color := sh.screen.color } ∧
      ((∀ o, ¬ NewlineAtBase (saidAt o said)) →
        display [] said = said.flatMap fun s => s.fitting.map fun b => (b, s.output.color)) ∧
      ∀ o : Output, (sh.stream o.index).contents ≠ [] → NewlineAtBase (saidAt o said) := by
  obtain ⟨total, ksh, log, hmemory, hinit, hlog, -, hsh⟩ := boot_realizes h0 h13 hboot
  have hstart := boot_starts hring hsh
  obtain ⟨o', ho', hcon⟩ := hstart.displays (Console.displays_empty.print log) hrun
  obtain ⟨sh, hshell, hsh'⟩ := ho'.shell
  rw [List.nil_append] at hcon
  refine ⟨total, ksh, log, _, sh, hmemory, hinit, hlog, rfl, hshell, ?_, @display_clear _ [], fun o hqueued => ?_⟩
  · rw [← hcon.shown]
    exact hsh'.screen
  · by_contra hclear
    rw [(hsh'.carries o.index).contents] at hqueued
    exact hqueued (hcon.clear o fun hjam => hclear (hcon.jammed o hjam)).1

/-- The program starts with the selector of `um_switch` still in `eax`, and makes a system call at once. -/
def selectorState : State := { switchState with cpu := { switchState.cpu with eax := userDataSel.toUInt32 } }

theorem session_shown_unknown : ∃ k setup log said m sh, boot bootable = .ok (k, .userMode setup) ∧
    Machine.Step (bootable.setup k) nops (k.userMachine selectorState) (.int 0x80) m ∧
    said = printed log ++ saidLine "Unknown system call: %d\r\n" [.word 35] ∧ m.shell = some sh ∧
    ∀ o : Output, (sh.stream o.index).contents ≠ [] → NewlineAtBase (saidAt o said) := by
  obtain ⟨k, setup, hboot⟩ := bootable_enters
  obtain ⟨total, ksh, log, -, -, -, -, hsh⟩ := boot_realizes (by decide) (by decide) hboot
  have hstart := boot_starts (show rpl selectorState.cpu.cs = 0 by decide) hsh
  obtain ⟨m, hstep⟩ : ∃ m, Machine.Step (bootable.setup k) nops (k.userMachine selectorState) (.int 0x80) m :=
    (hstart.goes_on nofun).2.2.1 rfl 0x80
  obtain ⟨total, ksh, log, said, sh, -, -, -, hsaid, hshell, -, -, hqueued⟩ :=
    session_shown (by decide) (by decide) hboot (show rpl selectorState.cpu.cs = 0 by decide) (.cons hstep .nil)
  have hcpu : (k.userMachine selectorState).state.cpu = userCpu selectorState.cpu := umSwitch_user (by decide)
  have heax : (k.userMachine selectorState).state.cpu.eax = 35 := by
    rw [hcpu]
    decide
  have hline : putIn Machine.said [(k.userMachine selectorState, .int 0x80)]
      = saidLine "Unknown system call: %d\r\n" [.word 35] := by
    rw [putIn, List.flatMap_singleton, Machine.said, saidBy, if_pos rfl, saidByCall, heax, if_neg (by decide),
      if_neg (by decide), if_neg (by decide), if_neg (by decide)]
  rw [hline] at hsaid
  exact ⟨k, setup, log, said, m, sh, hboot, hstep, hsaid, hshell, hqueued⟩

end Drupe
