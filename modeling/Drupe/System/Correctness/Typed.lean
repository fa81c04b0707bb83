import Drupe.System.Correctness.Progress

/-!
# `System.Correctness.Typed` — what is typed is what is read

The letters of the keyboard, and what a program itself writes to stdin, go through one stream; system calls take them
out. Over a whole run, what a program finds in its buffers is what came in, in order, each byte once
(`typed_read`). Bytes are lost only at the near end, where the stream is full. Keys come between two steps
here; one in the middle of a write to the same stream may overwrite a byte of it.
-/

namespace Drupe

open Lib Lib.X86

/-! ## What a program gets to see -/

/-- What comes in with an event, for a program with these registers and this memory: the letter of a key, and the bytes
    of a write to stdin. -/
def offeredBy (c : Cpu) (m : Mem) : Event → List UInt8
  | .irq vector scancode =>
    if vector = 33 ∧ scancodeToAscii scancode ≠ 0 then [scancodeToAscii scancode] else []
  | .int n =>
    if n = 0x80 ∧ c.eax = sysWrite ∧ InWindow c.ecx ∧ signed c.ebx = streamStdin.val then
      (List.range (signed c.edx).toNat).map (userBuf m c.ecx)
    else []
  | _ => []

/-- What a program with the registers `c` gets from an event: after a read, as many bytes of its buffer as `eax` says. -/
def gotBy (c : Cpu) (e : Event) (c' : Cpu) (m' : Mem) : List UInt8 :=
  if e = .int 0x80 ∧ c.eax = sysRead ∧ InWindow c.ecx then
    (List.range c'.eax.toNat).map fun i => m' (c.ecx + UInt32.ofNat i)
  else []

/-! ## The stream of stdin -/

namespace Console

variable (c : Console)

theorem write_stdin (bytes : List UInt8) :
    (c.write streamStdin bytes).pipe streamStdin = (c.pipe streamStdin).put (c.accepted streamStdin bytes) := by
  unfold write
  rw [pipe_render_stdin, pipe_setPipe]

theorem write_stdin_ne {i : Fin streamCount} (hne : i ≠ streamStdin) (bytes : List UInt8) :
    (c.write i bytes).pipe streamStdin = c.pipe streamStdin := by
  unfold write
  rw [pipe_render_stdin, pipe_setPipe_ne _ hne.symm]

theorem print_stdin (bytes : List UInt8) : (c.print bytes).pipe streamStdin = c.pipe streamStdin := by
  induction bytes generalizing c with
  | nil => rfl
  | cons b bytes ih =>
      exact (ih (c.write streamStdout [b])).trans (c.write_stdin_ne (show streamStdout ≠ streamStdin by decide) [b])

/-- What the kernel prints does not come into stdin. -/
theorem passes_print (bytes : List UInt8) :
    Pipe.Passes (c.pipe streamStdin) ((c.pipe streamStdin).accepts streamBufSize []) []
      ((c.print bytes).pipe streamStdin) := by
  rw [print_stdin]
  exact Pipe.passes_nil _ _

variable {c} {c' : Console}

/-- A write, seen from stdin. -/
theorem Step.passes_write {idx : Int} {bytes : List UInt8} {ret : Int} (h : Step c (.write idx bytes ret) c') :
    Pipe.Passes (c.pipe streamStdin)
      ((c.pipe streamStdin).accepts streamBufSize (if idx = streamStdin.val then bytes else [])) []
      (c'.pipe streamStdin) := by
  cases h with
  | write i =>
      by_cases hi : i = streamStdin
      · rw [hi, if_pos rfl, write_stdin]
        exact Pipe.passes_put _ _
      · rw [if_neg (by omega), write_stdin_ne c hi]
        exact Pipe.passes_nil _ _
  | noStream hidx =>
      have hzero : (streamStdin.val : Int) = 0 := rfl
      rw [if_neg (by omega)]
      exact Pipe.passes_nil _ _

/-- A read. -/
theorem Step.passes_read {room : Nat} {bytes : List UInt8} (h : Step c (.read room bytes) c') :
    Pipe.Passes (c.pipe streamStdin) ((c.pipe streamStdin).accepts streamBufSize []) bytes
      (c'.pipe streamStdin) := by
  cases h with
  | read hget =>
      rw [pipe_setPipe, Pipe.accepts, List.take_nil]
      cases hget with
      | get hroom hn => exact Pipe.passes_get _ hn

end Console

/-- The bytes that were put at `a`. -/
theorem Mem.put_read (m : Mem) (a : UInt32) {bytes : List UInt8} (hsmall : bytes.length < 4294967296) :
    (List.range bytes.length).map (fun i => m.put a bytes (a + UInt32.ofNat i)) = bytes := by
  apply List.ext_getElem
  · rw [List.length_map, List.length_range]
  · intro i hi hi'
    have hback : (a + UInt32.ofNat i - a).toNat = i := by
      rw [UInt32.add_comm, UInt32.add_sub_cancel, UInt32.toNat_ofNat']
      omega
    rw [List.getElem_map, List.getElem_range, Mem.put, hback, List.getElem?_eq_getElem hi', Option.getD_some]

/-! ## One step -/

variable {program : UserCode} {o o' : Os} {e : Event}

theorem offeredBy_int (c : Cpu) (m : Mem) {n : UInt8} (h : n = 0x80 → c.eax ≠ sysWrite) : offeredBy c m (.int n) = [] :=
  if_neg fun hw => h hw.1 hw.2.1

theorem gotBy_other (c c' : Cpu) (m' : Mem) (h : ∀ n, e ≠ .int n) : gotBy c e c' m' = [] :=
  if_neg fun hr => h 0x80 hr.1

theorem gotBy_nil (c c' : Cpu) (m' : Mem) (h : e = .int 0x80 → c.eax ≠ sysRead) : gotBy c e c' m' = [] :=
  if_neg fun hr => h hr.1 hr.2.1

/-- **A system call**, seen from stdin. -/
theorem Syscall.passes {c : Cpu} {con con' : Console} {m m' : Mem} {eax : UInt32}
    (hroom : (con.pipe streamStdin).waiting.length ≤ streamBufSize) (h : Syscall c con m eax con' m') :
    Pipe.Passes (con.pipe streamStdin) ((con.pipe streamStdin).accepts streamBufSize (offeredBy c m (.int 0x80)))
      (gotBy c (.int 0x80) { c with eax } m') (con'.pipe streamStdin) := by
  cases h with
  | @write con' ret hcall hbuf hwrite =>
      have hoffered : offeredBy c m (.int 0x80) = if signed c.ebx = streamStdin.val then
          (List.range (signed c.edx).toNat).map (userBuf m c.ecx) else [] := by
        simp only [offeredBy, hcall, hbuf, true_and]
      rw [hoffered, gotBy_nil _ _ _ fun _ => by rw [hcall]; decide]
      exact hwrite.passes_write
  | @read con' bytes hcall hbuf hread =>
      have hlen := hread.read_le
      have hfull : (4294967296 : Nat) > streamBufSize := by decide
      have hgot : gotBy c (.int 0x80) { c with eax := UInt32.ofNat bytes.length } (m.put c.ecx bytes) = bytes := by
        have hcount : (UInt32.ofNat bytes.length).toNat = bytes.length := by
          rw [UInt32.toNat_ofNat']
          omega
        unfold gotBy
        rw [if_pos ⟨rfl, hcall, hbuf⟩]
        show (List.range (UInt32.ofNat bytes.length).toNat).map _ = bytes
        rw [hcount]
        exact m.put_read c.ecx (by omega)
      rw [offeredBy_int c m fun _ => by rw [hcall]; decide, hgot]
      exact hread.passes_read
  | getpid hcall =>
      rw [offeredBy_int c m fun _ => by rw [hcall]; decide, gotBy_nil _ _ _ fun _ => by rw [hcall]; decide]
      exact Pipe.passes_nil _ _
  | nullBuffer hcall hnull =>
      have hout : ¬ InWindow c.ecx := by
        rw [hnull]
        decide
      have hoffered : offeredBy c m (.int 0x80) = [] := if_neg fun hw => hout hw.2.2.1
      have hgot : gotBy c (.int 0x80) { c with eax := errorResult } m = [] := if_neg fun hr => hout hr.2.2
      rw [hoffered, hgot]
      exact Pipe.passes_nil _ _
  | @badString bytes hcall hnull hbuf htext =>
      have hoffered : offeredBy c m (.int 0x80) = [] := if_neg fun hw => hbuf hw.2.2.1
      rw [hoffered, gotBy_nil _ _ _ fun _ => by rw [hcall]; decide]
      exact con.passes_print bytes
  | @badBuffer bytes hcall hnull hbuf htext =>
      have hgot : gotBy c (.int 0x80) { c with eax := errorResult } m = [] := if_neg fun hr => hbuf hr.2.2
      rw [hgot, offeredBy_int c m fun _ => by rw [hcall]; decide]
      exact con.passes_print bytes
  | @unknown bytes hcall htext =>
      rw [offeredBy_int c m fun _ => hcall.1, gotBy_nil _ _ _ fun _ => hcall.2.2.2]
      exact con.passes_print bytes

/-- From `o` to `o'`, this came into stdin and went out of it. -/
def StdinPasses (o : Os) (accepted got : List UInt8) (o' : Os) : Prop :=
  Pipe.Passes (o.console.pipe streamStdin) accepted got (o'.console.pipe streamStdin)

/-- **Step lemma.** -/
theorem Os.Step.passes (hroom : (o.console.pipe streamStdin).waiting.length ≤ streamBufSize)
    (h : Os.Step program o e o') :
    StdinPasses o ((o.console.pipe streamStdin).accepts streamBufSize (offeredBy o.cpu o.mem e))
      (gotBy o.cpu e o'.cpu o'.mem) o' := by
  unfold StdinPasses
  cases h with
  | exec => exact Pipe.passes_nil _ _
  | syscall hplace hexit hcall =>
      have hpass := hcall.passes hroom
      exact hpass
  | @exit bytes hplace hexit htext =>
      rw [offeredBy_int _ _ fun _ => by rw [hexit]; decide, gotBy_nil _ _ _ fun _ => by rw [hexit]; decide]
      exact o.console.passes_print bytes
  | @int n bytes hplace hn hreport =>
      have hevent : Event.int n = .int 0x80 → o.cpu.eax ≠ sysRead := fun heq => absurd (Event.int.inj heq) hn
      rw [offeredBy_int _ _ fun heq => absurd heq hn, gotBy_nil _ _ _ hevent]
      exact o.console.passes_print bytes
  | @fault vector code bytes hplace hvector hreport => exact o.console.passes_print bytes
  | tick scancode hrunning => exact Pipe.passes_nil _ _
  | @key scancode console ret hrunning hletter hwrite =>
      have hpass := hwrite.passes_write
      have hoffered : offeredBy o.cpu o.mem (.irq 33 scancode) = [scancodeToAscii scancode] := if_pos ⟨rfl, hletter⟩
      rw [if_pos rfl] at hpass
      rw [hoffered]
      exact hpass
  | @noLetter scancode hrunning hnone =>
      have hoffered : offeredBy o.cpu o.mem (.irq 33 scancode) = [] := if_neg fun h => h.2 hnone
      rw [hoffered]
      exact Pipe.passes_nil _ _
  | settle hplace => exact o.console.passes_print _

/-! ## Whole runs -/

variable {u : Setup} {m m' : Machine} {sc₀ : Screen}

/-- The machine and the system agree on what comes in and goes out. -/
theorem Machine.Realizes.sees (h : m.Realizes sc₀ o) (h' : m'.Realizes sc₀ o') (hos : Os.Step program o e o') :
    offeredBy m.state.cpu m.mem e = offeredBy o.cpu o.mem e ∧
      gotBy m.state.cpu e m'.state.cpu m'.mem = gotBy o.cpu e o'.cpu o'.mem := by
  cases e with
  | int n =>
      have hplace : o.place = .program := by
        cases hos with
        | syscall hplace => exact hplace
        | exit hplace => exact hplace
        | int hplace => exact hplace
      rw [(h.program hplace).1, h.mem]
      refine ⟨rfl, ?_⟩
      by_cases hread : Event.int n = .int 0x80 ∧ o.cpu.eax = sysRead
      · have hplace' : o'.place = .program := by
          cases hos with
          | syscall => rfl
          | exit _ hexit =>
              rw [hread.2] at hexit
              exact absurd hexit (by decide)
          | int _ hn => exact absurd (Event.int.inj hread.1) hn
        rw [(h'.program hplace').1, h'.mem]
      · rw [gotBy_nil _ _ _ fun he heax => hread ⟨he, heax⟩, gotBy_nil _ _ _ fun he heax => hread ⟨he, heax⟩]
  | exec => exact ⟨rfl, (gotBy_other _ _ _ (by simp)).trans (gotBy_other _ _ _ (by simp)).symm⟩
  | fault vector code => exact ⟨rfl, (gotBy_other _ _ _ (by simp)).trans (gotBy_other _ _ _ (by simp)).symm⟩
  | irq vector scancode => exact ⟨rfl, (gotBy_other _ _ _ (by simp)).trans (gotBy_other _ _ _ (by simp)).symm⟩
  | settle => exact ⟨rfl, (gotBy_other _ _ _ (by simp)).trans (gotBy_other _ _ _ (by simp)).symm⟩

/-- What comes in with an event of the machine. -/
def Machine.offered (m : Machine) (e : Event) : List UInt8 := offeredBy m.state.cpu m.mem e

/-- What waits at stdin. -/
def Machine.stdin (m : Machine) : List UInt8 := (m.shell.map fun sh => (sh.stream streamStdin).contents).getD []

/-- What the stream of stdin takes of it: the first bytes, as many as there is room for. -/
def Machine.accepted (m : Machine) (e : Event) : List UInt8 := (m.offered e).take (streamBufSize - m.stdin.length)

/-- What the program gets from it. -/
def Machine.got (m : Machine) (e : Event) (m' : Machine) : List UInt8 := gotBy m.state.cpu e m'.state.cpu m'.mem

theorem Machine.Realizes.stdin_eq (h : m.Realizes sc₀ o) :
    m.stdin = (o.console.pipe streamStdin).waiting := by
  obtain ⟨sh, hshell, hcontents, -⟩ := h.stdin
  unfold Machine.stdin
  rw [hshell]
  exact hcontents

/-- **A step**, seen from stdin. -/
theorem Machine.Realizes.passes (h : m.Realizes sc₀ o) (hstep : Machine.Step u program m e m') :
    ∃ o', m'.Realizes sc₀ o' ∧ StdinPasses o (m.accepted e) (m.got e m') o' := by
  obtain ⟨o', hos, h'⟩ := h.step hstep
  obtain ⟨hoffered, hgot⟩ := h.sees h' hos
  obtain ⟨-, -, -, hroom⟩ := h.stdin
  refine ⟨o', h', ?_⟩
  rw [Machine.accepted, Machine.offered, Machine.got, h.stdin_eq, hoffered, hgot]
  exact hos.passes hroom

/-- Nothing is refused that there was room for at the beginning. -/
theorem Machine.Realizes.accepts_all (h : m.Realizes sc₀ o) {vis : List (Machine × Event)}
    (hrun : Run (Machine.Step u program) m vis m')
    (hroom : m.stdin.length + (putIn Machine.offered vis).length ≤ streamBufSize) :
    putIn Machine.accepted vis = putIn Machine.offered vis := by
  induction hrun generalizing o with
  | nil => rfl
  | @cons m e m₁ vis m' hstep _ ih =>
      obtain ⟨o₁, h₁, hpass⟩ := h.passes hstep
      have hlen := congrArg List.length hpass
      have hoffered : putIn Machine.offered ((m, e) :: vis) = m.offered e ++ putIn Machine.offered vis := rfl
      rw [hoffered, List.length_append] at hroom
      have hall : m.accepted e = m.offered e := List.take_of_length_le (by omega)
      rw [List.length_append, List.length_append, ← h.stdin_eq, ← h₁.stdin_eq, hall] at hlen
      have hrest := ih h₁ (by omega)
      show m.accepted e ++ putIn Machine.accepted vis = m.offered e ++ putIn Machine.offered vis
      rw [hall, hrest]

/-- **What is typed is what is read.** In every run from a user program: what was waiting at stdin, followed by what the
    stream took of what came in, from the keyboard and from the program's own writes there, is what the program found
    in its buffers and what is waiting in the end, in order and each byte once. The stream refuses only what there is
    no room for, so nothing if there was room for all of it at the beginning. -/
theorem typed_read (hplace : m.place = .program) (hring : rpl m.state.cpu.cs = 3)
    (henabled : interruptsEnabled m.state.cpu.eflags) {sh : Shell} (hshell : m.shell = some sh)
    (hreach : sh.Reachable) {vis : List (Machine × Event)} (hrun : Run (Machine.Step u program) m vis m') :
    m.stdin ++ putIn Machine.accepted vis = takenOut Machine.got vis m' ++ m'.stdin ∧
      (m.stdin.length + (putIn Machine.offered vis).length ≤ streamBufSize →
        putIn Machine.accepted vis = putIn Machine.offered vis) := by
  obtain ⟨sc₀, con, hsh, -⟩ := hreach.shows
  have hstart := Machine.realizes_start hplace hring henabled hshell hsh
  obtain ⟨o', ho', hpass⟩ := hrun.accounts (P := StdinPasses) Machine.accepted Machine.got
    (fun o => Pipe.passes_refl _) (fun _ _ _ _ _ _ _ h h' => Pipe.Passes.trans h h')
    (fun _ _ _ _ ho hstep => Machine.Realizes.passes ho hstep) hstart
  refine ⟨?_, hstart.accepts_all hrun⟩
  rw [hstart.stdin_eq, ho'.stdin_eq]
  exact hpass

/-- The key `a` is pressed. -/
theorem typed_read_letter : ∃ m', Machine.Step stubsInOrder nops getpidMachine (.irq 33 0x1E) m' ∧
    m'.stdin = [97] := by
  obtain ⟨ports, m', hserved⟩ := @serves_irq getpidMachine stubsInOrder bootShell rfl 33 (.inr rfl) 0 0x1E
  have hstep : Machine.Step stubsInOrder nops getpidMachine (.irq 33 0x1E) m' :=
    .irq (by decide) (by decide) (by decide) hserved
  obtain ⟨hsplit, hall⟩ := typed_read rfl (by decide) (by decide) rfl bootShell_reachable (.cons hstep .nil)
  have hnone : takenOut Machine.got [(getpidMachine, .irq 33 0x1E)] m' = [] :=
    (List.append_nil _).trans (gotBy_other _ _ _ (by simp))
  have hempty : getpidMachine.stdin = [] := by decide +kernel
  rw [hnone, hempty, hall (by rw [hempty]; decide)] at hsplit
  exact ⟨m', hstep, hsplit.symm.trans (by decide)⟩

end Drupe
