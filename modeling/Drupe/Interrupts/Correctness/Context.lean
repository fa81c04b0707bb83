import Drupe.Interrupts.Stubs

/-!
# `Interrupts.Correctness.Context` — what an interrupt does to the interrupted code

The words that the processor and a stub push are a frame of the interrupted registers (`run_save`), and
what the stub does after the call makes a frame into registers (`run_restore`). So a handler that leaves
the frame as it is brings back the interrupted registers, and a system call other than `SYS_EXIT` all of
them but `eax` (`interrupt_context`).
-/

namespace Drupe

open Lib.X86

/-- The code of a stub after its call, up to the `iret`. -/
def restoreLine : List (Instr CHandler) :=
  [.addEsp 4, .popSreg .gs, .popSreg .fs, .popSreg .es, .popSreg .ds, .popad, .addEsp 8]

/-- The code of a stub after its call. -/
def restoreCode : List (Instr CHandler) :=
  [.addEsp 4, .popSreg .gs, .popSreg .fs, .popSreg .es, .popSreg .ds, .popad, .addEsp 8, .iret]

/-- The frame of the registers `c`, with `esp` as `pushad` found it. -/
def frameOf (c : Cpu) (esp intNo errCode : UInt32) : InterruptFrame where
  gs := c.gs.toUInt32
  fs := c.fs.toUInt32
  es := c.es.toUInt32
  ds := c.ds.toUInt32
  edi := c.edi
  esi := c.esi
  ebp := c.ebp
  esp := esp
  ebx := c.ebx
  edx := c.edx
  ecx := c.ecx
  eax := c.eax
  intNo := intNo
  errCode := errCode
  eip := c.eip
  cs := c.cs.toUInt32
  eflags := c.eflags
  useresp := c.esp
  ss := c.ss.toUInt32

/-- The registers that a frame stands for. -/
def InterruptFrame.context (f : InterruptFrame) : Cpu where
  eax := f.eax
  ecx := f.ecx
  edx := f.edx
  ebx := f.ebx
  esp := f.useresp
  ebp := f.ebp
  esi := f.esi
  edi := f.edi
  eip := f.eip
  eflags := f.eflags
  cs := f.cs.toUInt16
  ss := f.ss.toUInt16
  ds := f.ds.toUInt16
  es := f.es.toUInt16
  fs := f.fs.toUInt16
  gs := f.gs.toUInt16

/-- A selector survives the stack. -/
theorem selector_back (sel : UInt16) : sel.toUInt32.toUInt16 = sel := UInt16.toUInt16_toUInt32 sel

@[simp] theorem frameOf_context (c : Cpu) (esp intNo errCode : UInt32) :
    (frameOf c esp intNo errCode).context = c := by
  unfold frameOf InterruptFrame.context
  simp only [selector_back]

/-- `eax` of the frame stands for `eax`. -/
theorem frameOf_eax (c : Cpu) (esp intNo errCode eax : UInt32) :
    { frameOf c esp intNo errCode with eax } = frameOf { c with eax } esp intNo errCode := rfl

/-- A frame in memory, as its words. -/
theorem InterruptFrame.read_holds (stack : UInt32 → UInt32) (a : UInt32) :
    Holds stack a (InterruptFrame.read stack a).words := by
  unfold InterruptFrame.read InterruptFrame.words
  simp [Holds, UInt32.add_assoc]

theorem InterruptFrame.read_eq {stack : UInt32 → UInt32} {a : UInt32} {f : InterruptFrame}
    (h : Holds stack a f.words) : InterruptFrame.read stack a = f := by
  obtain ⟨gs, fs, es, ds, edi, esi, ebp, esp, ebx, edx, ecx, eax, intNo, errCode, eip, cs, eflags, useresp, ss⟩ := f
  unfold InterruptFrame.read
  rw [InterruptFrame.mk.injEq]
  exact ⟨h.1, h.get (i := 1) rfl, h.get (i := 2) rfl, h.get (i := 3) rfl, h.get (i := 4) rfl, h.get (i := 5) rfl,
    h.get (i := 6) rfl, h.get (i := 7) rfl, h.get (i := 8) rfl, h.get (i := 9) rfl, h.get (i := 10) rfl,
    h.get (i := 11) rfl, h.get (i := 12) rfl, h.get (i := 13) rfl, h.get (i := 14) rfl, h.get (i := 15) rfl,
    h.get (i := 16) rfl, h.get (i := 17) rfl, h.get (i := 18) rfl⟩

/-! ## The two halves of a stub -/

/-- **Up to the call**: the registers go on the stack, and their address on top of them. -/
theorem run_save {s : State} {ws : List UInt32} (h : s.Top ws) (hsmall : ws.length ≤ 1048592) (handler : CHandler) :
    ∃ before, run (commonCode handler) s = .call handler before restoreCode ∧ before.cpu.cs = s.cpu.cs ∧
      before.Top ((before.cpu.esp + 4) :: s.cpu.gs.toUInt32 :: s.cpu.fs.toUInt32 :: s.cpu.es.toUInt32 ::
        s.cpu.ds.toUInt32 :: s.cpu.edi :: s.cpu.esi :: s.cpu.ebp :: s.cpu.esp :: s.cpu.ebx :: s.cpu.edx ::
        s.cpu.ecx :: s.cpu.eax :: ws) := by
  unfold commonCode
  obtain ⟨s₁, hrun₁, htop₁, hsaved₁, hcs₁⟩ := run_pushad h (by omega) _
  obtain ⟨s₂, hrun₂, htop₂, hsaved₂, hcs₂⟩ := run_pushSreg htop₁ (by simp only [List.length_cons]; omega) .ds _
  obtain ⟨s₃, hrun₃, htop₃, hsaved₃, hcs₃⟩ := run_pushSreg htop₂ (by simp only [List.length_cons]; omega) .es _
  obtain ⟨s₄, hrun₄, htop₄, hsaved₄, hcs₄⟩ := run_pushSreg htop₃ (by simp only [List.length_cons]; omega) .fs _
  obtain ⟨s₅, hrun₅, htop₅, -, hcs₅⟩ := run_pushSreg htop₄ (by simp only [List.length_cons]; omega) .gs _
  obtain ⟨s₆, hrun₆, htop₆, hcs₆⟩ := run_load htop₅ 0x10 [.ds, .es, .fs, .gs] _
  obtain ⟨s₇, hrun₇, htop₇, hcs₇⟩ := run_pushEsp htop₆ (by simp only [List.length_cons]; omega) _
  refine ⟨s₇, ?_, ?_, ?_⟩
  · exact hrun₁.trans (hrun₂.trans (hrun₃.trans (hrun₄.trans (hrun₅.trans (hrun₆.trans hrun₇)))))
  · rw [hcs₇, hcs₆, hcs₅, hcs₄, hcs₃, hcs₂, hcs₁]
  · have hds := hsaved₁.sreg .ds
    have hes := (hsaved₂.trans hsaved₁).sreg .es
    have hfs := (hsaved₃.trans (hsaved₂.trans hsaved₁)).sreg .fs
    have hgs := (hsaved₄.trans (hsaved₃.trans (hsaved₂.trans hsaved₁))).sreg .gs
    rw [hds, hes, hfs, hgs] at htop₇
    exact htop₇

/-- **After the call**, up to the `iret`: the registers come from the frame. -/
theorem run_registers {after : State} {f : InterruptFrame} {ws : List UInt32}
    (h : Holds after.stack (after.cpu.esp + 4) (f.words.take 17 ++ ws)) (rest : List (Instr CHandler)) :
    ∃ s, run (restoreLine ++ rest) after = run rest s ∧ s.Top (f.eip :: f.cs :: f.eflags :: ws) ∧
      s.cpu.cs = after.cpu.cs ∧ { s.cpu with
        eip := f.eip, cs := f.cs.toUInt16, eflags := f.eflags, esp := f.useresp, ss := f.ss.toUInt16 }
          = f.context := by
  have htop : after.Top ([after.top] ++ (f.words.take 17 ++ ws)) := ⟨rfl, h⟩
  unfold restoreLine
  obtain ⟨s₁, hrun₁, htop₁, -, hcs₁⟩ := run_addEsp htop _
  obtain ⟨s₂, hrun₂, htop₂, hgs₂, -, hcs₂⟩ := run_popSreg htop₁ .gs _
  obtain ⟨s₃, hrun₃, htop₃, hfs₃, hrest₃, hcs₃⟩ := run_popSreg htop₂ .fs _
  obtain ⟨s₄, hrun₄, htop₄, hes₄, hrest₄, hcs₄⟩ := run_popSreg htop₃ .es _
  obtain ⟨s₅, hrun₅, htop₅, hds₅, hrest₅, hcs₅⟩ := run_popSreg htop₄ .ds _
  obtain ⟨s₆, hrun₆, htop₆, esp, hcpu₆⟩ := run_popad htop₅ _
  obtain ⟨s₇, hrun₇, htop₇, hsaved₇, hcs₇⟩ := @run_addEsp _ s₆ _ [f.intNo, f.errCode] htop₆ _
  refine ⟨s₇, ?_, htop₇, ?_, ?_⟩
  · exact hrun₁.trans (hrun₂.trans (hrun₃.trans (hrun₄.trans (hrun₅.trans (hrun₆.trans hrun₇)))))
  · rw [hcs₇, hcpu₆]
    show s₅.cpu.cs = _
    rw [hcs₅, hcs₄, hcs₃, hcs₂, hcs₁]
  · have hsreg : ∀ r, s₇.cpu.sreg r = s₅.cpu.sreg r := by
      intro r
      rw [hsaved₇.sreg, hcpu₆]
      cases r <;> rfl
    have hds : s₇.cpu.sreg .ds = f.ds.toUInt16 := by rw [hsreg, hds₅]
    have hes : s₇.cpu.sreg .es = f.es.toUInt16 := by rw [hsreg, hrest₅ .es (by decide), hes₄]
    have hfs : s₇.cpu.sreg .fs = f.fs.toUInt16 := by
      rw [hsreg, hrest₅ .fs (by decide), hrest₄ .fs (by decide), hfs₃]
    have hgs : s₇.cpu.sreg .gs = f.gs.toUInt16 := by
      rw [hsreg, hrest₅ .gs (by decide), hrest₄ .gs (by decide), hrest₃ .gs (by decide), hgs₂]
    obtain ⟨hax, hcx, hdx, hbx, hbp, hsi, hdi, -⟩ := hsaved₇
    rw [hcpu₆] at hax hcx hdx hbx hbp hsi hdi
    rw [InterruptFrame.context, Cpu.mk.injEq]
    exact ⟨hax, hcx, hdx, hbx, rfl, hbp, hsi, hdi, rfl, rfl, rfl, rfl, hds, hes, hfs, hgs⟩

/-- **After the call**, and back in an outer ring. -/
theorem run_restore {after : State} {f : InterruptFrame} (h : Holds after.stack (after.cpu.esp + 4) f.words)
    (hring : rpl after.cpu.cs < rpl f.cs.toUInt16) :
    ∃ resumed, run restoreCode after = .back resumed ∧ resumed.cpu = f.context := by
  obtain ⟨s, hrun, htop, hcs, hcpu⟩ := @run_registers after f [f.useresp, f.ss] h [.iret]
  obtain ⟨resumed, hback, hresumed⟩ := run_iret htop (by rw [hcs]; exact hring) []
  exact ⟨resumed, hrun.trans hback, hresumed.trans hcpu⟩

/-! ## The gates -/

theorem low_half (a : UInt32) : (a &&& 0xFFFF).toUInt16.toUInt32.toNat = a.toNat % 65536 := by
  have hmask : (a &&& 0xFFFF).toNat = a.toNat % 65536 := by
    rw [UInt32.toNat_and]
    exact Nat.and_two_pow_sub_one_eq_mod a.toNat 16
  rw [UInt16.toNat_toUInt32, UInt32.toNat_toUInt16, hmask]
  omega

/-- The two halves of an address make the address. -/
theorem halves_join (a : UInt32) :
    ((a >>> 16) &&& 0xFFFF).toUInt16.toUInt32 <<< 16 ||| (a &&& 0xFFFF).toUInt16.toUInt32 = a := by
  have hshift : (a >>> 16).toNat = a.toNat / 65536 := by
    rw [UInt32.toNat_shiftRight]
    exact Nat.shiftRight_eq_div_pow a.toNat 16
  have ha := a.toNat_lt
  have hfit : (a.toNat / 65536 % 65536) <<< ((16 : UInt32).toNat % 32) % 2 ^ 32 = (a.toNat / 65536) <<< 16 := by
    rw [Nat.mod_eq_of_lt (show a.toNat / 65536 < 65536 by omega)]
    show (a.toNat / 65536) <<< 16 % 2 ^ 32 = _
    rw [Nat.shiftLeft_eq]
    omega
  rw [← UInt32.toNat_inj, UInt32.toNat_or, UInt32.toNat_shiftLeft, low_half, low_half, hshift, hfit,
    ← Nat.shiftLeft_add_eq_or_of_lt (by omega), Nat.shiftLeft_eq]
  omega

/-- The entry of a call of `idt_set_entry`. -/
def entryOf (handler : UInt32) (selector : UInt16) (typeAttr : UInt8) : IdtEntry :=
  ⟨(handler &&& 0xFFFF).toUInt16, selector, 0, typeAttr, ((handler >>> 16) &&& 0xFFFF).toUInt16⟩

theorem entryOf_offset (handler : UInt32) (selector : UInt16) (typeAttr : UInt8) :
    (entryOf handler selector typeAttr).gate.offset = handler :=
  halves_join handler

theorem idtSetEntry_get (idt : Vector IdtEntry idtEntriesCount) {i : Nat} (hi : i < idtEntriesCount) (j : Nat)
    (handler : UInt32) (selector : UInt16) (typeAttr : UInt8) :
    (idtSetEntry idt i handler selector typeAttr)[j]? =
      if i = j then some (entryOf handler selector typeAttr) else idt[j]? := by
  have hin : ¬ ((i : Int) < 0 ∨ (i : Int) ≥ idtEntriesCount) := by omega
  unfold idtSetEntry
  rw [if_neg hin, Int.toNat_natCast, Vector.getElem?_setIfInBounds, if_pos hi]
  rfl

/-- Calls for distinct vectors leave each its entry. -/
theorem foldl_setEntry (address : Stub → UInt32) {calls : List (Nat × Stub × UInt8)}
    (hin : ∀ c ∈ calls, c.1 < idtEntriesCount) (hdistinct : (calls.map Prod.fst).Nodup)
    (idt : Vector IdtEntry idtEntriesCount) (j : Nat) :
    (calls.foldl (fun idt call => idtSetEntry idt call.1 (address call.2.1) gdtKernelCodeSel call.2.2) idt)[j]? =
      match calls.find? (·.1 = j) with
      | some call => some (entryOf (address call.2.1) gdtKernelCodeSel call.2.2)
      | none => idt[j]? := by
  induction calls generalizing idt with
  | nil => rfl
  | cons c calls ih =>
      rw [List.map_cons, List.nodup_cons] at hdistinct
      rw [List.foldl_cons, ih (fun d hd => hin d (List.mem_cons_of_mem _ hd)) hdistinct.2, List.find?_cons]
      by_cases hc : c.1 = j
      · have hnone : calls.find? (·.1 = j) = none := by
          rw [List.find?_eq_none]
          intro d hd hdj
          apply hdistinct.1
          rw [hc, ← of_decide_eq_true hdj]
          exact List.mem_map_of_mem hd
        simp only [hnone, hc, decide_true]
        rw [idtSetEntry_get _ (hc ▸ hin c List.mem_cons_self), if_pos rfl]
      · simp only [hc, decide_false]
        cases hfind : calls.find? (·.1 = j) with
        | some d => rfl
        | none =>
            simp only
            rw [idtSetEntry_get _ (hin c List.mem_cons_self), if_neg hc]

/-- **The table**: the stubs that were installed, and nothing else. -/
theorem idtSetup_get (address : Stub → UInt32) {j : Nat} (hj : j < idtEntriesCount) :
    (idtSetup address)[j]? = some (match idtCalls.find? (·.1 = j) with
      | some call => entryOf (address call.2.1) gdtKernelCodeSel call.2.2
      | none => ⟨0, 0, 0, 0, 0⟩) := by
  unfold idtSetup
  rw [foldl_setEntry address (by decide) (by decide)]
  cases idtCalls.find? (·.1 = j) with
  | some call => rfl
  | none => simp only [Vector.getElem?_replicate, if_pos hj]

/-! ## A whole interrupt -/

/-- The function that a stub calls. -/
def Stub.handler : Stub → CHandler
  | irq0 => .irqHandler
  | irq1 => .irqHandler
  | _ => .interruptHandler

/-- **The two conventions**: each stub that is installed pushes the vector it is installed for, after a zero
    exactly when the processor pushes no error code. -/
theorem stub_code : ∀ call ∈ idtCalls, call.2.1.code =
    (if hasErrorCode call.1 then [] else [.push 0]) ++ .push (UInt32.ofNat call.1) ::
      commonCode call.2.1.handler := by
  decide

/-- The pushes of a stub, after those of the processor. -/
theorem run_stub {s : State} {vector : Nat} {code : UInt32} {ws : List UInt32}
    (h : s.Top ((if hasErrorCode vector then [code] else []) ++ ws)) (hsmall : ws.length ≤ 1048584)
    (rest : List (Instr CHandler)) :
    ∃ s', run ((if hasErrorCode vector then [] else [.push 0]) ++ .push (UInt32.ofNat vector) :: rest) s
        = run rest s' ∧
      s'.Top (UInt32.ofNat vector :: (if hasErrorCode vector then code else 0) :: ws) ∧
      s'.cpu.SavedAlike s.cpu ∧ s'.cpu.cs = s.cpu.cs := by
  by_cases hcode : hasErrorCode vector
  · simp only [if_pos hcode] at h ⊢
    exact run_push h (by simp only [List.cons_append, List.nil_append, List.length_cons]; omega) _ rest
  · simp only [if_neg hcode] at h ⊢
    obtain ⟨s₁, hrun₁, htop₁, hsaved₁, hcs₁⟩ := run_push h (by rw [List.nil_append]; omega) 0
      (.push (UInt32.ofNat vector) :: rest)
    obtain ⟨s₂, hrun₂, htop₂, hsaved₂, hcs₂⟩ := run_push htop₁ (by
      simp only [List.nil_append, List.length_cons]
      omega) (UInt32.ofNat vector) rest
    exact ⟨s₂, hrun₁.trans hrun₂, htop₂, hsaved₂.trans hsaved₁, hcs₂.trans hcs₁⟩

theorem find_call : ∀ call ∈ idtCalls, idtCalls.find? (·.1 = call.1) = some call ∧ call.1 < idtEntriesCount := by
  decide

/-- The frame that a stub passes, and what is left to run. -/
theorem run_interrupt {call : Nat × Stub × UInt8} (hcall : call ∈ idtCalls) (s : State) (g : Gate)
    (esp0 code : UInt32) :
    ∃ before esp, run call.2.1.code (s.interrupt g gdtKernelDataSel esp0 call.1 code)
        = .call call.2.1.handler before restoreCode ∧
      before.cpu.cs = g.selector ∧ before.top = before.cpu.esp + 4 ∧
      passedFrame before
        = frameOf s.cpu esp (UInt32.ofNat call.1) (if hasErrorCode call.1 then code else 0) := by
  have hentry := s.interrupt_top g gdtKernelDataSel esp0 call.1 code
  obtain ⟨hentered, hcs₀⟩ := s.interrupt_saved g gdtKernelDataSel esp0 call.1 code
  rw [stub_code call hcall]
  obtain ⟨s₁, hrun₁, htop₁, hsaved₁, hcs₁⟩ :=
    run_stub hentry (by simp only [List.length_cons, List.length_nil]; omega)
    (commonCode call.2.1.handler)
  obtain ⟨before, hrun, hcs, htop⟩ := run_save htop₁ (by simp only [List.length_cons, List.length_nil]; omega)
    call.2.1.handler
  have hsaved := hsaved₁.trans hentered
  have hds : s₁.cpu.ds = s.cpu.ds := hsaved.sreg .ds
  have hes : s₁.cpu.es = s.cpu.es := hsaved.sreg .es
  have hfs : s₁.cpu.fs = s.cpu.fs := hsaved.sreg .fs
  have hgs : s₁.cpu.gs = s.cpu.gs := hsaved.sreg .gs
  rw [hds, hes, hfs, hgs, hsaved.eax, hsaved.ecx, hsaved.edx, hsaved.ebx, hsaved.ebp, hsaved.esi, hsaved.edi]
    at htop
  refine ⟨before, s₁.cpu.esp, hrun₁.trans hrun, hcs.trans (hcs₁.trans hcs₀), htop.1, ?_⟩
  have haddr : before.top = before.cpu.esp + 4 := htop.1
  rw [passedFrame, haddr]
  exact InterruptFrame.read_eq htop.2

/-- **An interrupt of user code**, by any gate that `idt_setup` installs. The frame that the handler is
    passed holds the interrupted registers, the vector and the error code. A handler that leaves it as it
    is brings the interrupted registers back; a system call other than `SYS_EXIT` brings back all of them
    but `eax`. -/
theorem interrupt_context (address : Stub → UInt32) (esp0 : UInt32) (s : State) (hring : rpl s.cpu.cs = 3)
    {vector : Nat} {stub : Stub} {typeAttr : UInt8} (hcall : (vector, stub, typeAttr) ∈ idtCalls) (code : UInt32) :
    ∃ e, (idtSetup address)[vector]? = some e ∧ e.gate.offset = address stub ∧
      ∃ before esp, run stub.code (s.interrupt e.gate gdtKernelDataSel esp0 vector code)
          = .call stub.handler before restoreCode ∧
        passedFrame before
          = frameOf s.cpu esp (UInt32.ofNat vector) (if hasErrorCode vector then code else 0) ∧
        ∀ after, Returned before after →
          (InterruptFrame.read after.stack before.top = passedFrame before →
            ∃ resumed, run restoreCode after = .back resumed ∧ resumed.cpu = s.cpu) ∧
          (vector = 0x80 → s.cpu.eax ≠ sysExit → ∀ addrs shell m, ∃ r,
            interruptHandler addrs shell m (passedFrame before) = .ok (some r) ∧
            (InterruptFrame.read after.stack before.top = r.frame →
              ∃ resumed eax, run restoreCode after = .back resumed ∧ resumed.cpu = { s.cpu with eax })) := by
  obtain ⟨hfind, hlt⟩ := find_call _ hcall
  have hget := idtSetup_get address hlt
  rw [hfind] at hget
  refine ⟨_, hget, entryOf_offset _ _ _, ?_⟩
  obtain ⟨before, esp, hrun, hcs, hptr, hframe⟩ := run_interrupt hcall s
    (entryOf (address stub) gdtKernelCodeSel typeAttr).gate esp0 code
  refine ⟨before, esp, hrun, hframe, fun after hreturned => ?_⟩
  -- what the stub makes of a frame with the selectors of the interrupted code
  have hback : ∀ f : InterruptFrame, f.cs = s.cpu.cs.toUInt32 →
      InterruptFrame.read after.stack before.top = f →
      ∃ resumed, run restoreCode after = .back resumed ∧ resumed.cpu = f.context := by
    intro f hfcs hread
    apply run_restore
    · rw [hreturned.esp, ← hptr, ← hread]
      exact InterruptFrame.read_holds _ _
    · rw [hreturned.cs, hcs, hfcs, selector_back, hring]
      exact show rpl gdtKernelCodeSel < 3 by decide
  rw [hframe]
  constructor
  · intro hsame
    obtain ⟨resumed, hresumed, hcpu⟩ := hback _ rfl hsame
    exact ⟨resumed, hresumed, hcpu.trans (frameOf_context _ _ _ _)⟩
  · rintro rfl hexit addrs shell m
    have huser : s.cpu.cs.toUInt32 &&& 0x3 = 3 :=
      (UInt16.toUInt32_and s.cpu.cs 3).symm.trans (congrArg UInt16.toUInt32 hring)
    obtain ⟨r, eax, hr, hrframe⟩ := interruptHandler_syscall addrs shell m (f := frameOf s.cpu esp (UInt32.ofNat 0x80)
      (if hasErrorCode 0x80 then code else 0)) rfl huser hexit
    refine ⟨r, hr, fun hread => ?_⟩
    obtain ⟨resumed, hresumed, hcpu⟩ := hback r.frame (by rw [hrframe]; rfl) hread
    refine ⟨resumed, eax, hresumed, ?_⟩
    rw [hcpu, hrframe, frameOf_eax, frameOf_context]

/-- A user program that asks for its process number. -/
def userState : State where
  cpu :=
    { eax := sysGetpid, ecx := 1, edx := 2, ebx := 3, esp := 0x900000, ebp := 4, esi := 5, edi := 6
      eip := 0x400002, eflags := 0x202, cs := 0x1B, ss := 0x23, ds := 0x23, es := 0x23, fs := 0x23, gs := 0x23 }
  stack := fun _ => 0

theorem interrupt_context_getpid : ∃ before esp,
    passedFrame before = frameOf userState.cpu esp 0x80 0 ∧
    ∀ after, Returned before after → InterruptFrame.read after.stack before.top = passedFrame before →
      ∃ resumed, run restoreCode after = .back resumed ∧ resumed.cpu = userState.cpu := by
  have hring : rpl userState.cpu.cs = 3 := by decide
  have hcall : (0x80, Stub.isr128, idtTypeTrapGate ||| idtFlagRing3) ∈ idtCalls := by decide
  obtain ⟨e, -, -, before, esp, -, hframe, hafter⟩ :=
    interrupt_context (fun _ => 0x100000) 0x102000 userState hring hcall 0
  exact ⟨before, esp, hframe, fun after hreturned => (hafter after hreturned).1⟩

end Drupe
