import Drupe.Lib.X86

/-!
# `Lib.Ring0` — interrupts of ring 0, and the stack of straight-line code

An interrupt of code that runs in ring 0 already stays on the stack it finds: three words are pushed instead
of five, and `iret` takes three. Where the stack pointer gets is a fact about the code alone
(`line_esp`): an instruction other than a call or a return moves it by a constant.

## Contents
- `State.interruptInner`, and `State.enter` for an interrupt of whichever ring.
- Straight lines of instructions: `State.line`, `run_line`, `line_esp`.
- What was on the stack beforehand (`words`).
-/

namespace Lib.X86

/-- An interrupt of code of ring 0. The stack stays. -/
def State.interruptInner (s : State) (g : Gate) (vector : Nat) (code : UInt32) : State :=
  let c := s.cpu
  let saved := s.pushAll [c.eflags, c.cs.toUInt32, c.eip]
  let saved := if hasErrorCode vector then saved.push code else saved
  saved.through g c.eflags

/-- Where an interrupt of an outer ring leaves the stack pointer. -/
theorem State.interrupt_esp (s : State) (g : Gate) (ss0 : UInt16) (esp0 : UInt32) (vector : Nat) (code : UInt32) :
    (s.interrupt g ss0 esp0 vector code).cpu.esp = (if hasErrorCode vector then esp0 - 24 else esp0 - 20) ∧
      (s.interrupt g ss0 esp0 vector code).cpu.ss = ss0 := by
  unfold State.interrupt
  by_cases hcode : hasErrorCode vector
  · simp only [if_pos hcode]
    refine ⟨?_, rfl⟩
    show esp0 - 4 - 4 - 4 - 4 - 4 - 4 = esp0 - 24
    grind
  · simp only [if_neg hcode]
    refine ⟨?_, rfl⟩
    show esp0 - 4 - 4 - 4 - 4 - 4 = esp0 - 20
    grind

theorem State.interruptInner_esp (s : State) (g : Gate) (vector : Nat) (code : UInt32) :
    (s.interruptInner g vector code).cpu.esp = (if hasErrorCode vector then s.cpu.esp - 16 else s.cpu.esp - 12) ∧
      (s.interruptInner g vector code).cpu.ss = s.cpu.ss := by
  unfold State.interruptInner
  by_cases hcode : hasErrorCode vector
  · simp only [if_pos hcode]
    refine ⟨?_, rfl⟩
    show s.cpu.esp - 4 - 4 - 4 - 4 = s.cpu.esp - 16
    grind
  · simp only [if_neg hcode]
    refine ⟨?_, rfl⟩
    show s.cpu.esp - 4 - 4 - 4 = s.cpu.esp - 12
    grind

/-- An interrupt, by the ring that it comes from. -/
def State.enter (s : State) (g : Gate) (ss0 : UInt16) (esp0 : UInt32) (vector : Nat) (code : UInt32) : State :=
  if rpl g.selector < rpl s.cpu.cs then s.interrupt g ss0 esp0 vector code else s.interruptInner g vector code

/-- The interrupt flag. -/
def interruptsEnabled (eflags : UInt32) : Prop := eflags &&& 0x200 ≠ 0

instance (eflags : UInt32) : Decidable (interruptsEnabled eflags) := inferInstanceAs (Decidable (¬ _))

theorem State.interruptInner_top (s : State) (g : Gate) (vector : Nat) (code : UInt32) {ws : List UInt32}
    (h : s.Top ws) (hsmall : ws.length ≤ 1048576) : (s.interruptInner g vector code).Top
      ((if hasErrorCode vector then [code] else []) ++ [s.cpu.eip, s.cpu.cs.toUInt32, s.cpu.eflags] ++ ws) := by
  have hsaved := h.pushAll [s.cpu.eflags, s.cpu.cs.toUInt32, s.cpu.eip] (by
    simp only [List.length_cons, List.length_nil]
    omega)
  unfold State.interruptInner
  by_cases hcode : hasErrorCode vector
  · simp only [if_pos hcode]
    refine hsaved.push ?_ code
    simp only [List.length_append, List.length_reverse, List.length_cons, List.length_nil]
    omega
  · simp only [if_neg hcode]
    exact hsaved

/-- It leaves the registers that a stub saves, and goes on in the code segment of the gate. -/
theorem State.interruptInner_saved (s : State) (g : Gate) (vector : Nat) (code : UInt32) :
    (s.interruptInner g vector code).cpu.SavedAlike s.cpu ∧ (s.interruptInner g vector code).cpu.cs = g.selector := by
  have hsaved := (s.pushAll_saved [s.cpu.eflags, s.cpu.cs.toUInt32, s.cpu.eip]).1
  refine ⟨(State.through_saved _ _ _).trans ?_, rfl⟩
  by_cases hcode : hasErrorCode vector
  · rw [if_pos hcode]
    exact (State.push_saved _ _).trans hsaved
  · rw [if_neg hcode]
    exact hsaved

/-- Through an interrupt gate, interrupts are disabled. -/
theorem Gate.clears_disables {g : Gate} (hgate : g.interruptGate = true) (eflags : UInt32) :
    ¬ interruptsEnabled (eflags &&& ~~~ g.clears) := by
  have hmask : ~~~ g.clears &&& 0x200 = 0 := by
    unfold Gate.clears
    rw [if_pos hgate]
    decide
  rw [interruptsEnabled, not_not, UInt32.and_assoc, hmask, UInt32.and_zero]

/-! ## Straight lines -/

section Line

variable {φ : Type}

/-- An instruction after which the next one is executed. -/
def Instr.plain : Instr φ → Bool
  | .call _ => false
  | .iret => false
  | _ => true

/-- How an instruction moves the stack pointer. -/
def Instr.moveEsp (esp : UInt32) : Instr φ → UInt32
  | .push _ => esp - 4
  | .pushEsp => esp - 4
  | .pushad => esp - 32
  | .popad => esp + 32
  | .pushSreg _ => esp - 4
  | .popSreg _ => esp + 4
  | .movAx _ => esp
  | .movSreg _ => esp
  | .addEsp imm => esp + imm
  | .call _ => esp
  | .iret => esp

/-- The registers that only interrupts and returns change. -/
structure Cpu.SameFlow (c c' : Cpu) : Prop where
  cs : c.cs = c'.cs
  ss : c.ss = c'.ss
  eip : c.eip = c'.eip
  eflags : c.eflags = c'.eflags

theorem Cpu.SameFlow.trans {c c' c'' : Cpu} (h : c.SameFlow c') (h' : c'.SameFlow c'') : c.SameFlow c'' :=
  ⟨h.cs.trans h'.cs, h.ss.trans h'.ss, h.eip.trans h'.eip, h.eflags.trans h'.eflags⟩

theorem Cpu.setSreg_sameFlow (c : Cpu) (r : Sreg) (sel : UInt16) :
    (c.setSreg r sel).SameFlow c ∧ (c.setSreg r sel).esp = c.esp := by
  cases r <;> exact ⟨⟨rfl, rfl, rfl, rfl⟩, rfl⟩

theorem State.pushAll_esp (s : State) (ws : List UInt32) :
    (s.pushAll ws).cpu.SameFlow s.cpu ∧ (s.pushAll ws).cpu.esp = ws.foldl (fun esp _ => esp - 4) s.cpu.esp := by
  induction ws generalizing s with
  | nil => exact ⟨⟨rfl, rfl, rfl, rfl⟩, rfl⟩
  | cons w ws ih =>
      obtain ⟨hflow, hesp⟩ := ih (s.push w)
      exact ⟨hflow.trans ⟨rfl, rfl, rfl, rfl⟩, hesp⟩

theorem Instr.exec_esp (s : State) (i : Instr φ) :
    (i.exec s).cpu.SameFlow s.cpu ∧ (i.exec s).cpu.esp = i.moveEsp s.cpu.esp := by
  have hsame : s.cpu.SameFlow s.cpu := ⟨rfl, rfl, rfl, rfl⟩
  cases i with
  | pushad =>
      obtain ⟨hflow, hesp⟩ := s.pushAll_esp
        [s.cpu.eax, s.cpu.ecx, s.cpu.edx, s.cpu.ebx, s.cpu.esp, s.cpu.ebp, s.cpu.esi, s.cpu.edi]
      refine ⟨hflow, hesp.trans ?_⟩
      show s.cpu.esp - 4 - 4 - 4 - 4 - 4 - 4 - 4 - 4 = s.cpu.esp - 32
      grind
  | popSreg r =>
      obtain ⟨⟨hcs, hss, hip, hflags⟩, hesp⟩ := (s.drop 4).cpu.setSreg_sameFlow r s.top.toUInt16
      exact ⟨⟨hcs, hss, hip, hflags⟩, hesp⟩
  | movSreg r => exact s.cpu.setSreg_sameFlow r _
  | push _ | pushEsp | popad | pushSreg _ | movAx _ | addEsp _ | call _ | iret => exact ⟨⟨rfl, rfl, rfl, rfl⟩, rfl⟩

/-- What a straight line does. -/
def State.line (s : State) (line : List (Instr φ)) : State := line.foldl (fun s i => i.exec s) s

theorem run_line {line : List (Instr φ)} (hplain : ∀ i ∈ line, i.plain = true) (s : State)
    (rest : List (Instr φ)) : run (line ++ rest) s = run rest (s.line line) := by
  induction line generalizing s with
  | nil => rfl
  | cons i line ih =>
      have hstep : run (i :: (line ++ rest)) s = run (line ++ rest) (i.exec s) := by
        have hi := hplain i List.mem_cons_self
        cases i <;> first | rfl | exact absurd hi Bool.false_ne_true
      exact hstep.trans (ih (fun j hj => hplain j (List.mem_cons_of_mem _ hj)) (i.exec s))

/-- A line after which a call is made ends where the call is made. -/
theorem line_of_call {line : List (Instr φ)} (hplain : ∀ i ∈ line, i.plain = true) {s s' : State} {f : φ}
    {rest rest' : List (Instr φ)} (h : run (line ++ .call f :: rest) s = .call f s' rest') : s' = s.line line := by
  rw [run_line hplain] at h
  cases h
  rfl

/-- **A straight line**: the registers of the flow stay, and the stack pointer moves as the code says. -/
theorem line_esp (line : List (Instr φ)) (s : State) :
    (s.line line).cpu.SameFlow s.cpu ∧ (s.line line).cpu.esp = line.foldl Instr.moveEsp s.cpu.esp := by
  induction line generalizing s with
  | nil => exact ⟨⟨rfl, rfl, rfl, rfl⟩, rfl⟩
  | cons i line ih =>
      obtain ⟨hflow, hesp⟩ := i.exec_esp s
      obtain ⟨hflow', hesp'⟩ := ih (i.exec s)
      refine ⟨hflow'.trans hflow, hesp'.trans ?_⟩
      rw [hesp]
      rfl

end Line

/-! ## The stack beforehand -/

/-- The first `n` words from `a` on. -/
def words (stack : UInt32 → UInt32) (a : UInt32) (n : Nat) : List UInt32 :=
  (List.range n).map fun i => stack (a + UInt32.ofNat (4 * i))

@[simp] theorem length_words (stack : UInt32 → UInt32) (a : UInt32) (n : Nat) : (words stack a n).length = n := by
  rw [words, List.length_map, List.length_range]

theorem words_succ (stack : UInt32 → UInt32) (a : UInt32) (n : Nat) :
    words stack a (n + 1) = stack a :: words stack (a + 4) n := by
  have hnext : ∀ i, a + UInt32.ofNat (4 * (i + 1)) = a + 4 + UInt32.ofNat (4 * i) := by
    intro i
    rw [UInt32.add_assoc, Nat.mul_succ, Nat.add_comm, UInt32.ofNat_add]
    rfl
  unfold words
  rw [List.range_succ_eq_map, List.map_cons, List.map_map]
  simp only [Function.comp_def, hnext]
  exact congrArg (· :: _) (congrArg stack (UInt32.add_zero a))

/-- Words are there exactly when they are those that are read there. -/
theorem holds_iff {stack : UInt32 → UInt32} {a : UInt32} {ws : List UInt32} :
    Holds stack a ws ↔ words stack a ws.length = ws := by
  induction ws generalizing a with
  | nil => exact ⟨fun _ => rfl, fun _ => True.intro⟩
  | cons w ws ih =>
      rw [List.length_cons, words_succ, List.cons.injEq]
      exact and_congr_right fun _ => ih

theorem words_holds (stack : UInt32 → UInt32) (a : UInt32) (n : Nat) : Holds stack a (words stack a n) := by
  rw [holds_iff, length_words]

/-- The words at `a` replaced. -/
def putWords (stack : UInt32 → UInt32) (a : UInt32) : List UInt32 → UInt32 → UInt32
  | [] => stack
  | w :: ws => Function.update (putWords stack (a + 4) ws) a w

theorem holds_putWords (stack : UInt32 → UInt32) (a : UInt32) (ws : List UInt32) (hsmall : ws.length ≤ 1073741824) :
    Holds (putWords stack a ws) a ws := by
  induction ws generalizing a with
  | nil => exact True.intro
  | cons w ws ih =>
      rw [List.length_cons] at hsmall
      refine ⟨Function.update_self _ _ _, (ih (a + 4) (by omega)).update fun i hi heq => ?_⟩
      have hzero : UInt32.ofNat (4 * i) + 4 = 0 := by grind
      have hnat := congrArg UInt32.toNat hzero
      rw [UInt32.toNat_add, UInt32.toNat_ofNat'] at hnat
      have h4 : (4 : UInt32).toNat = 4 := rfl
      have h0 : (0 : UInt32).toNat = 0 := rfl
      omega

/-! ## The way back -/

/-- A return within ring 0. -/
theorem run_iretInner {φ : Type} {s : State} {eip cs eflags : UInt32} {ws : List UInt32}
    (h : s.Top (eip :: cs :: eflags :: ws)) (hring : ¬ rpl s.cpu.cs < rpl cs.toUInt16) (rest : List (Instr φ)) :
    ∃ s', run (.iret :: rest) s = .back s' ∧ s'.Top ws ∧
      s'.cpu = { s.cpu with eip, cs := cs.toUInt16, eflags, esp := s.cpu.esp + 12 } := by
  have hip : s.stack (s.cpu.esp + 0) = eip := h.get (i := 0) rfl
  have hcs : s.stack (s.cpu.esp + 4) = cs := h.get (i := 1) rfl
  have hfl : s.stack (s.cpu.esp + 8) = eflags := h.get (i := 2) rfl
  have hcpu : s.iret.cpu = { s.cpu with eip, cs := cs.toUInt16, eflags, esp := s.cpu.esp + 12 } := by
    unfold State.iret
    simp only [hip, hcs, hfl, if_neg hring]
  have hstack : s.iret.stack = s.stack := by
    unfold State.iret
    simp only
    split <;> rfl
  refine ⟨s.iret, rfl, ?_, hcpu⟩
  rw [State.Top, hcpu, hstack]
  exact @Holds.append _ _ [eip, cs, eflags] ws h

end Lib.X86
