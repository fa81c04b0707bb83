import Drupe.Interrupts.Handlers
import Drupe.Shell.Correctness.Drained

/-!
# `Interrupts.Correctness.ReachableShell` — the shells that the kernel gets to

A shell is set up by `sh_init`; after that the kernel prints, and system calls, exceptions and hardware
interrupts use it. All of them get to the streams through `sh_write_stream`, and `SYS_READ` through
`stream_read`: what these two keep, they all keep (`Shell.Step.invariant`). So the pointers of the streams
are in order in every shell that is reached (`Shell.Reachable.streamsOk`).
-/

namespace Drupe

section Console

variable {P : Shell → Prop} (hwrite : ∀ sh i buf len, P sh → P (shWriteStream sh i buf len).1)

include hwrite

theorem shPutc_invariant {sh : Shell} (h : P sh) (c : UInt8) : P (shPutc sh c) := hwrite sh _ _ 1 h

theorem foldl_shPutc_invariant {sh : Shell} (h : P sh) (bytes : List UInt8) : P (bytes.foldl shPutc sh) := by
  induction bytes generalizing sh with
  | nil => exact h
  | cons c bytes ih => exact ih (shPutc_invariant hwrite h c)

theorem shPuts_invariant {sh : Shell} (h : P sh) (str : List UInt8) : P (shPuts sh str) :=
  foldl_shPutc_invariant hwrite h _

theorem shPutint_invariant {sh : Shell} (h : P sh) (value base : UInt32) : P (shPutint sh value base) := by
  unfold shPutint
  simp only
  -- the sign, then the digits
  split
  · have hsign := shPutc_invariant hwrite h 45
    split
    · exact shPutc_invariant hwrite hsign 48
    · exact foldl_shPutc_invariant hwrite hsign _
  · split
    · exact shPutc_invariant hwrite h 48
    · exact foldl_shPutc_invariant hwrite h _

theorem printfDirective_invariant {sh sh' : Shell} {d : UInt8} {args args' : List VaArg} (h : P sh)
    (hprint : printfDirective sh d args = some (sh', args')) : P sh' := by
  unfold printfDirective at hprint
  split at hprint
  -- what is left are the directives whose argument is there
  all_goals simp only [Option.some.injEq, Prod.mk.injEq, reduceCtorEq] at hprint
  all_goals obtain ⟨rfl, -⟩ := hprint
  · exact shPuts_invariant hwrite h _
  · exact shPutint_invariant hwrite h _ _
  · exact shPutint_invariant hwrite h _ _
  · exact shPutint_invariant hwrite h _ _
  · exact shPutint_invariant hwrite (shPuts_invariant hwrite h _) _ _
  · exact shPutc_invariant hwrite h _
  · exact shPutc_invariant hwrite h _
  · exact shPutc_invariant hwrite (shPutc_invariant hwrite h _) _

/-- **Printing** keeps what writes to the streams keep. -/
theorem shPrintf_invariant {sh sh' : Shell} {fmt : List UInt8} {args : List VaArg} (h : P sh)
    (hprint : shPrintf sh fmt args = .ok sh') : P sh' := by
  fun_induction shPrintf sh fmt args with
  | case1 => cases hprint
  | case2 =>
      cases hprint
      exact h
  | case3 => cases hprint
  | case4 => cases hprint
  | case5 sh args d fmt sh₁ args₁ hdirective _ ih =>
      exact ih (printfDirective_invariant hwrite h hdirective) hprint
  | case6 sh c fmt args _ _ ih => exact ih (shPutc_invariant hwrite h c) hprint

end Console

/-! ## Handlers -/

section Handlers

variable {P : Shell → Prop} (hwrite : ∀ sh i buf len, P sh → P (shWriteStream sh i buf len).1)
  (hread : ∀ sh len, P sh → P (sh.setStream streamStdin (streamRead (sh.stream streamStdin) len).1))
  {sh : Shell} {m : Mem} {f : InterruptFrame} {r : SyscallResult}

theorem mem_shell (h : P sh) : ∀ sh' ∈ some sh, P sh' := by
  intro sh' hsh
  cases hsh
  exact h

include hwrite

theorem onUserBuffer_invariant {message : String} {access : Shell → SyscallResult} (h : P sh)
    (haccess : ∀ sh' ∈ (access sh).shell, P sh') (hcall : onUserBuffer (some sh) m f message access = .ok r) :
    ∀ sh' ∈ r.shell, P sh' := by
  unfold onUserBuffer at hcall
  simp only at hcall
  by_cases hnull : f.ecx = 0
  · rw [if_pos hnull] at hcall
    cases hcall
    exact mem_shell h
  by_cases hin : InWindow f.ecx
  · rw [if_neg hnull, if_pos hin] at hcall
    cases hcall
    exact haccess
  · rw [if_neg hnull, if_neg hin] at hcall
    obtain ⟨sh₁, hprint, hrest⟩ := bind_eq_ok.mp hcall
    cases hrest
    exact mem_shell (shPrintf_invariant hwrite h hprint)

theorem printfIfShell_invariant {fmt : List UInt8} {args : List VaArg} {shell : Option Shell} (h : P sh)
    (hcall : printfIfShell (some sh) fmt args = .ok shell) : ∀ sh' ∈ shell, P sh' := by
  obtain ⟨sh₁, hprint, rfl⟩ := map_eq_ok.mp hcall
  exact mem_shell (shPrintf_invariant hwrite h hprint)

include hread

theorem handleSyscall_invariant {addrs : KernelAddrs} (h : P sh)
    (hcall : handleSyscall addrs (some sh) m f = .ok r) : ∀ sh' ∈ r.shell, P sh' := by
  unfold handleSyscall at hcall
  split at hcall
  -- a call from kernel mode
  · cases hcall
    exact mem_shell (shPuts_invariant hwrite h _)
  split at hcall
  · exact onUserBuffer_invariant hwrite h (mem_shell (hwrite sh _ _ _ h)) hcall
  split at hcall
  · obtain ⟨shell, hprint, hrest⟩ := bind_eq_ok.mp hcall
    cases hrest
    exact printfIfShell_invariant hwrite h hprint
  split at hcall
  · cases hcall
    exact mem_shell h
  split at hcall
  · exact onUserBuffer_invariant hwrite h (mem_shell (hread sh _ h)) hcall
  · obtain ⟨shell, hprint, hrest⟩ := bind_eq_ok.mp hcall
    cases hrest
    exact printfIfShell_invariant hwrite h hprint

theorem interruptHandler_invariant {addrs : KernelAddrs} (h : P sh)
    (hcall : interruptHandler addrs (some sh) m f = .ok (some r)) : ∀ sh' ∈ r.shell, P sh' := by
  unfold interruptHandler at hcall
  simp only at hcall
  -- an exception that does not halt leaves the result of the body
  have hreturned : ∀ r₁ : SyscallResult, (if r₁.frame.intNo < 32 ∧ r₁.frame.intNo ≠ 3 then none else some r₁)
      = some r → r₁ = r := by
    intro r₁ hsome
    split at hsome <;> cases hsome
    rfl
  split at hcall
  · obtain ⟨sh₁, h₁, hcall⟩ := bind_eq_ok.mp hcall
    obtain ⟨sh₂, h₂, hcall⟩ := bind_eq_ok.mp hcall
    obtain ⟨sh₃, h₃, hcall⟩ := bind_eq_ok.mp hcall
    have hprinted := shPrintf_invariant hwrite (shPrintf_invariant hwrite (shPrintf_invariant hwrite h h₁) h₂) h₃
    obtain ⟨r₁, hbody, hdone⟩ := bind_eq_ok.mp hcall
    obtain rfl := hreturned r₁ (Except.ok.inj hdone)
    cases hbody
    split
    · exact mem_shell (shPuts_invariant hwrite hprinted _)
    · exact mem_shell hprinted
  split at hcall
  · obtain ⟨r₁, hbody, hdone⟩ := bind_eq_ok.mp hcall
    obtain rfl := hreturned r₁ (Except.ok.inj hdone)
    exact handleSyscall_invariant hwrite hread h hbody
  · obtain ⟨sh₁, h₁, hcall⟩ := bind_eq_ok.mp hcall
    obtain ⟨r₁, hbody, hdone⟩ := bind_eq_ok.mp hcall
    obtain rfl := hreturned r₁ (Except.ok.inj hdone)
    cases hbody
    exact mem_shell (shPrintf_invariant hwrite h h₁)

omit hread

theorem irqHandler_invariant {scancode : UInt8} {shell : Option Shell} {ports : List (UInt16 × UInt8)} (h : P sh)
    (hcall : irqHandler (some sh) scancode f = .ok (shell, ports)) : ∀ sh' ∈ shell, P sh' := by
  unfold irqHandler at hcall
  simp only at hcall
  split at hcall
  · cases hcall
    exact mem_shell h
  split at hcall
  · split at hcall
    · cases hcall
      exact mem_shell (hwrite sh _ _ _ h)
    · cases hcall
      exact mem_shell h
  · obtain ⟨sh₁, h₁, hcall⟩ := bind_eq_ok.mp hcall
    cases hcall
    exact mem_shell (shPrintf_invariant hwrite h h₁)

end Handlers

/-! ## Reachable shells -/

/-- What becomes of the shell: the kernel prints, or an interrupt is handled that does not halt. -/
inductive Shell.Step (sh sh' : Shell) : Prop
  | puts (str : List UInt8) : sh' = shPuts sh str → Shell.Step sh sh'
  | printf (fmt : List UInt8) (args : List VaArg) : shPrintf sh fmt args = .ok sh' → Shell.Step sh sh'
  | interrupt (addrs : KernelAddrs) (m : Mem) (f : InterruptFrame) (r : SyscallResult) :
      interruptHandler addrs (some sh) m f = .ok (some r) → r.shell = some sh' → Shell.Step sh sh'
  | irq (scancode : UInt8) (f : InterruptFrame) (ports : List (UInt16 × UInt8)) :
      irqHandler (some sh) scancode f = .ok (some sh', ports) → Shell.Step sh sh'

/-- **Step lemma.** -/
theorem Shell.Step.invariant {P : Shell → Prop}
    (hwrite : ∀ sh i buf len, P sh → P (shWriteStream sh i buf len).1)
    (hread : ∀ sh len, P sh → P (sh.setStream streamStdin (streamRead (sh.stream streamStdin) len).1))
    {sh sh' : Shell} (hstep : sh.Step sh') (h : P sh) : P sh' := by
  cases hstep with
  | puts str heq =>
      rw [heq]
      exact shPuts_invariant hwrite h str
  | printf fmt args hprint => exact shPrintf_invariant hwrite h hprint
  | interrupt addrs m f r hcall hshell => exact interruptHandler_invariant hwrite hread h hcall sh' hshell
  | irq scancode f ports hcall => exact irqHandler_invariant hwrite h hcall sh' rfl

/-- A shell that some steps lead to from one that was just set up. -/
def Shell.Reachable (sh : Shell) : Prop :=
  ∃ data memory width size sh₀, shInit data memory width size = .ok sh₀ ∧ Relation.ReflTransGen Shell.Step sh₀ sh

/-- The pointers of all streams are in order. -/
def Shell.StreamsOk (sh : Shell) : Prop := ∀ i, (sh.stream i).Ok

/-- A stream that is replaced by one in order. -/
theorem Shell.StreamsOk.setStream {sh : Shell} (h : sh.StreamsOk) {i : Fin streamCount} {s : Stream} (hs : s.Ok) :
    (sh.setStream i s).StreamsOk := by
  intro j
  by_cases heq : i = j
  · rw [← heq, Shell.stream_setStream]
    exact hs
  · rw [Shell.stream_setStream_ne sh heq]
    exact h j

theorem Shell.StreamsOk.shRender {sh : Shell} (h : sh.StreamsOk) : (shRender sh).StreamsOk := by
  intro i
  by_cases hout : ∃ o : Output, o.index = i
  · obtain ⟨o, rfl⟩ := hout
    rw [shRender_stream_drain]
    exact (h o.index).drain.1
  · obtain rfl : i = streamStdin := stdin_of_not_output fun o heq => hout ⟨o, heq⟩
    rw [shRender_stdin]
    exact h streamStdin

theorem Shell.StreamsOk.shWriteStream {sh : Shell} (h : sh.StreamsOk) (i : Int) (buf : Nat → UInt8) (len : Int) :
    (shWriteStream sh i buf len).1.StreamsOk := by
  unfold Drupe.shWriteStream
  split
  · exact h
  · refine Shell.StreamsOk.shRender (Shell.StreamsOk.setStream (fun j => h j) ?_)
    exact (streamWrite_spec (h _) buf len).1

/-- **The streams of a reachable shell are in order.** -/
theorem Shell.Reachable.streamsOk {sh : Shell} (h : sh.Reachable) : sh.StreamsOk := by
  obtain ⟨data, memory, width, size, sh₀, hinit, hsteps⟩ := h
  induction hsteps with
  | refl =>
      intro i
      rw [shInit_stream hinit]
      exact Stream.ok_of_reset rfl rfl rfl
  | tail _ hstep ih =>
      refine hstep.invariant (fun sh i buf len h => h.shWriteStream i buf len) (fun sh len h => ?_) ih
      exact h.setStream (streamRead_spec (h streamStdin) len).1

end Drupe
