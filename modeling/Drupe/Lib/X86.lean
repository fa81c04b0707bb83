import Mathlib.Logic.Function.Basic

/-!
# `Lib.X86` — interrupts of an IA-32 processor, and the stubs that serve them

The registers of the processor and its stack, a word for each address. `State.interrupt` is what the
processor does when an interrupt of an outer ring enters ring 0, and `State.iret` how it goes back. A stub
is straight-line code: `run` follows it up to a call, and from there to its `iret`. Its own `eip` is not
tracked.

All of it is stack discipline, so there is one predicate for it: `State.Top s ws` says that the words `ws`
are on top of the stack. Each instruction has one lemma on it.

## Contents
- Registers, stack, instructions, `State.interrupt`, `State.iret`, `run`.
- `Holds` and `State.Top`: what pushes and pops do.
-/

namespace Lib.X86

/-- A selector register that a stub may push and pop. -/
inductive Sreg
  | ds
  | es
  | fs
  | gs
deriving DecidableEq

structure Cpu where
  eax : UInt32
  ecx : UInt32
  edx : UInt32
  ebx : UInt32
  esp : UInt32
  ebp : UInt32
  esi : UInt32
  edi : UInt32
  eip : UInt32
  eflags : UInt32
  cs : UInt16
  ss : UInt16
  ds : UInt16
  es : UInt16
  fs : UInt16
  gs : UInt16
deriving DecidableEq

def Cpu.sreg (c : Cpu) : Sreg → UInt16
  | .ds => c.ds
  | .es => c.es
  | .fs => c.fs
  | .gs => c.gs

def Cpu.setSreg (c : Cpu) (r : Sreg) (sel : UInt16) : Cpu :=
  match r with
  | .ds => { c with ds := sel }
  | .es => { c with es := sel }
  | .fs => { c with fs := sel }
  | .gs => { c with gs := sel }

/-- The privilege level that a code selector asks for. -/
def rpl (sel : UInt16) : UInt16 := sel &&& 3

structure State where
  cpu : Cpu
  stack : UInt32 → UInt32

def State.push (s : State) (v : UInt32) : State where
  cpu := { s.cpu with esp := s.cpu.esp - 4 }
  stack := Function.update s.stack (s.cpu.esp - 4) v

/-- The word on top of the stack. -/
def State.top (s : State) : UInt32 := s.stack s.cpu.esp

/-- `n` bytes fewer on the stack. -/
def State.drop (s : State) (n : UInt32) : State := { s with cpu := { s.cpu with esp := s.cpu.esp + n } }

def State.pushAll (s : State) : List UInt32 → State
  | [] => s
  | w :: ws => (s.push w).pushAll ws

/-- Straight-line instructions. `φ` are the functions that can be called. -/
inductive Instr (φ : Type)
  /-- `push dword imm` -/
  | push (imm : UInt32)
  | pushEsp
  | pushad
  | popad
  | pushSreg (r : Sreg)
  | popSreg (r : Sreg)
  /-- `mov ax, imm` -/
  | movAx (imm : UInt16)
  /-- `mov r, ax` -/
  | movSreg (r : Sreg)
  /-- `add esp, imm` -/
  | addEsp (imm : UInt32)
  | call (f : φ)
  | iret
deriving DecidableEq

/-- `pushad`: `esp` is pushed as it was before. -/
def State.pushad (s : State) : State :=
  s.pushAll [s.cpu.eax, s.cpu.ecx, s.cpu.edx, s.cpu.ebx, s.cpu.esp, s.cpu.ebp, s.cpu.esi, s.cpu.edi]

/-- `popad`: the word that stands for `esp` is skipped. -/
def State.popad (s : State) : State :=
  let word (k : UInt32) := s.stack (s.cpu.esp + k)
  { s with
    cpu := { s.cpu with
      edi := word 0
      esi := word 4
      ebp := word 8
      ebx := word 16
      edx := word 20
      ecx := word 24
      eax := word 28
      esp := s.cpu.esp + 32 } }

/-- `iret`. A return to an outer ring takes the stack of that ring from the stack, too. -/
def State.iret (s : State) : State :=
  let word (k : UInt32) := s.stack (s.cpu.esp + k)
  let cs := (word 4).toUInt16
  let cpu := { s.cpu with eip := word 0, cs, eflags := word 8 }
  if rpl s.cpu.cs < rpl cs then
    { s with cpu := { cpu with esp := word 12, ss := (word 16).toUInt16 } }
  else { s with cpu := { cpu with esp := s.cpu.esp + 12 } }

/-- What an instruction does, calls and `iret` apart. A selector is pushed with zeros above it. -/
def Instr.exec {φ : Type} (s : State) : Instr φ → State
  | .push imm => s.push imm
  | .pushEsp => s.push s.cpu.esp
  | .pushad => s.pushad
  | .popad => s.popad
  | .pushSreg r => s.push (s.cpu.sreg r).toUInt32
  | .popSreg r => { (s.drop 4) with cpu := (s.drop 4).cpu.setSreg r s.top.toUInt16 }
  | .movAx imm => { s with cpu := { s.cpu with eax := s.cpu.eax &&& 0xFFFF0000 ||| imm.toUInt32 } }
  | .movSreg r => { s with cpu := s.cpu.setSreg r s.cpu.eax.toUInt16 }
  | .addEsp imm => s.drop imm
  | .call _ => s
  | .iret => s

/-- Where straight-line code gets. -/
inductive Stop (φ : Type)
  /-- At a call, with the code after it. -/
  | call (f : φ) (s : State) (rest : List (Instr φ))
  /-- Back in the interrupted code. -/
  | back (s : State)
  /-- Past the end of the code. -/
  | past (s : State)

def run {φ : Type} : List (Instr φ) → State → Stop φ
  | [], s => .past s
  | .call f :: rest, s => .call f s rest
  | .iret :: _, s => .back s.iret
  | i :: rest, s => run rest (i.exec s)

/-- A call has returned, by the calling convention: `esp`, the registers that the callee saves and the
    selectors are as they were. -/
structure Returned (before after : State) : Prop where
  esp : after.cpu.esp = before.cpu.esp
  ebx : after.cpu.ebx = before.cpu.ebx
  ebp : after.cpu.ebp = before.cpu.ebp
  esi : after.cpu.esi = before.cpu.esi
  edi : after.cpu.edi = before.cpu.edi
  cs : after.cpu.cs = before.cpu.cs
  ss : after.cpu.ss = before.cpu.ss
  sreg : ∀ r, after.cpu.sreg r = before.cpu.sreg r

/-- A gate of the interrupt descriptor table. -/
structure Gate where
  selector : UInt16
  offset : UInt32
  /-- An interrupt gate, not a trap gate. -/
  interruptGate : Bool

/-- The flags that are cleared on the way through a gate: `TF`, `NT`, `RF` and `VM`, and `IF` in an interrupt
    gate. -/
def Gate.clears (g : Gate) : UInt32 := 0x34100 ||| if g.interruptGate then 0x200 else 0

/-- The vectors for which the processor pushes an error code. -/
def hasErrorCode (vector : Nat) : Bool := vector = 8 ∨ 10 ≤ vector ∧ vector ≤ 14

/-- The stack is switched. -/
def State.onStack (s : State) (ss : UInt16) (esp : UInt32) : State := { s with cpu := { s.cpu with ss, esp } }

/-- The way through a gate, with the flags `eflags`. -/
def State.through (s : State) (g : Gate) (eflags : UInt32) : State :=
  { s with cpu := { s.cpu with cs := g.selector, eip := g.offset, eflags := eflags &&& ~~~ g.clears } }

/-- An interrupt of an outer ring, with the stack of ring 0 that the task state segment names. -/
def State.interrupt (s : State) (g : Gate) (ss0 : UInt16) (esp0 : UInt32) (vector : Nat) (code : UInt32) : State :=
  let c := s.cpu
  let saved := (s.onStack ss0 esp0).pushAll [c.ss.toUInt32, c.esp, c.eflags, c.cs.toUInt32, c.eip]
  let saved := if hasErrorCode vector then saved.push code else saved
  saved.through g c.eflags

/-- The registers of `pushad` and the selectors of a stub hold the same, `esp` aside. -/
structure Cpu.SavedAlike (c c' : Cpu) : Prop where
  eax : c.eax = c'.eax
  ecx : c.ecx = c'.ecx
  edx : c.edx = c'.edx
  ebx : c.ebx = c'.ebx
  ebp : c.ebp = c'.ebp
  esi : c.esi = c'.esi
  edi : c.edi = c'.edi
  sreg : ∀ r, c.sreg r = c'.sreg r

theorem State.push_saved (s : State) (v : UInt32) : (s.push v).cpu.SavedAlike s.cpu :=
  ⟨rfl, rfl, rfl, rfl, rfl, rfl, rfl, fun r => by cases r <;> rfl⟩

theorem Cpu.SavedAlike.trans {c c' c'' : Cpu} (h : c.SavedAlike c') (h' : c'.SavedAlike c'') : c.SavedAlike c'' :=
  ⟨h.eax.trans h'.eax, h.ecx.trans h'.ecx, h.edx.trans h'.edx, h.ebx.trans h'.ebx, h.ebp.trans h'.ebp,
    h.esi.trans h'.esi, h.edi.trans h'.edi, fun r => (h.sreg r).trans (h'.sreg r)⟩

theorem State.pushAll_saved (s : State) (new : List UInt32) :
    (s.pushAll new).cpu.SavedAlike s.cpu ∧ (s.pushAll new).cpu.cs = s.cpu.cs := by
  induction new generalizing s with
  | nil => exact ⟨⟨rfl, rfl, rfl, rfl, rfl, rfl, rfl, fun _ => rfl⟩, rfl⟩
  | cons w new ih =>
      obtain ⟨hsaved, hcs⟩ := ih (s.push w)
      exact ⟨hsaved.trans (s.push_saved w), hcs⟩

/-! ## The top of the stack -/

/-- The words from `a` on. -/
def Holds (stack : UInt32 → UInt32) (a : UInt32) : List UInt32 → Prop
  | [] => True
  | w :: ws => stack a = w ∧ Holds stack (a + 4) ws

def State.Top (s : State) (ws : List UInt32) : Prop := Holds s.stack s.cpu.esp ws

/-- A store outside the words leaves them. -/
theorem Holds.update {stack : UInt32 → UInt32} {a x v : UInt32} {ws : List UInt32} (h : Holds stack a ws)
    (hx : ∀ i < ws.length, x ≠ a + UInt32.ofNat (4 * i)) : Holds (Function.update stack x v) a ws := by
  induction ws generalizing a with
  | nil => exact True.intro
  | cons w ws ih =>
      have hfirst : a ≠ x := by
        have h0 := hx 0 (Nat.succ_pos _)
        intro heq
        apply h0
        rw [← heq]
        exact (UInt32.add_zero a).symm
      refine ⟨?_, ih h.2 fun i hi heq => ?_⟩
      · rw [Function.update_of_ne hfirst]
        exact h.1
      · apply hx (i + 1) (Nat.succ_lt_succ hi)
        rw [heq, UInt32.add_assoc]
        congr 1
        rw [Nat.mul_succ, Nat.add_comm, UInt32.ofNat_add]
        rfl

theorem State.Top.push {s : State} {ws : List UInt32} (h : s.Top ws) (hsmall : ws.length < 1073741824) (v : UInt32) :
    (s.push v).Top (v :: ws) := by
  have hback : s.cpu.esp - 4 + 4 = s.cpu.esp := UInt32.sub_add_cancel _ _
  refine ⟨Function.update_self _ _ _, ?_⟩
  show Holds _ (s.cpu.esp - 4 + 4) ws
  rw [hback]
  apply Holds.update h
  intro i hi heq
  have hzero : UInt32.ofNat (4 * i) + 4 = 0 := by grind
  have hnat := congrArg UInt32.toNat hzero
  rw [UInt32.toNat_add, UInt32.toNat_ofNat'] at hnat
  have h4 : (4 : UInt32).toNat = 4 := rfl
  have h0 : (0 : UInt32).toNat = 0 := rfl
  omega

theorem State.Top.pushAll {s : State} {ws : List UInt32} (h : s.Top ws) (new : List UInt32)
    (hsmall : new.length + ws.length ≤ 1073741824) : (s.pushAll new).Top (new.reverse ++ ws) := by
  induction new generalizing s ws with
  | nil => exact h
  | cons w new ih =>
      rw [List.length_cons] at hsmall
      rw [List.reverse_cons, List.append_assoc]
      apply ih (h.push (by omega) w)
      show new.length + (ws.length + 1) ≤ 1073741824
      omega

theorem Holds.append {stack : UInt32 → UInt32} {a : UInt32} {new ws : List UInt32}
    (h : Holds stack a (new ++ ws)) : Holds stack (a + UInt32.ofNat (4 * new.length)) ws := by
  induction new generalizing a with
  | nil =>
      have hzero : a + UInt32.ofNat (4 * 0) = a := UInt32.add_zero a
      rw [List.length_nil, hzero]
      exact h
  | cons w new ih =>
      have hnext : a + UInt32.ofNat (4 * (new.length + 1)) = a + 4 + UInt32.ofNat (4 * new.length) := by
        rw [UInt32.add_assoc, Nat.mul_succ, Nat.add_comm, UInt32.ofNat_add]
        rfl
      rw [List.length_cons, hnext]
      exact ih h.2

/-- The word `i` of them. -/
theorem Holds.get {stack : UInt32 → UInt32} {a w : UInt32} {ws : List UInt32} (h : Holds stack a ws) {i : Nat}
    (hi : ws[i]? = some w) : stack (a + UInt32.ofNat (4 * i)) = w := by
  induction ws generalizing a i with
  | nil => cases hi
  | cons v ws ih =>
      cases i with
      | zero =>
          rw [← Option.some.inj hi]
          exact (congrArg stack (UInt32.add_zero a)).trans h.1
      | succ i =>
          have hnext : a + UInt32.ofNat (4 * (i + 1)) = a + 4 + UInt32.ofNat (4 * i) := by
            rw [UInt32.add_assoc, Nat.mul_succ, Nat.add_comm, UInt32.ofNat_add]
            rfl
          rw [hnext]
          exact ih h.2 hi

/-! ## Running a stub -/

section Run

variable {φ : Type} {s : State} {w : UInt32} {ws : List UInt32}

theorem run_push (h : s.Top ws) (hsmall : ws.length < 1073741824) (imm : UInt32) (rest : List (Instr φ)) :
    ∃ s', run (.push imm :: rest) s = run rest s' ∧ s'.Top (imm :: ws) ∧ s'.cpu.SavedAlike s.cpu ∧
      s'.cpu.cs = s.cpu.cs :=
  ⟨_, rfl, h.push hsmall imm, s.push_saved imm, rfl⟩

theorem run_pushSreg (h : s.Top ws) (hsmall : ws.length < 1073741824) (r : Sreg) (rest : List (Instr φ)) :
    ∃ s', run (.pushSreg r :: rest) s = run rest s' ∧ s'.Top ((s.cpu.sreg r).toUInt32 :: ws) ∧
      s'.cpu.SavedAlike s.cpu ∧ s'.cpu.cs = s.cpu.cs :=
  ⟨_, rfl, h.push hsmall _, s.push_saved _, rfl⟩

/-- The address of what is on the stack, on top of it. -/
theorem run_pushEsp (h : s.Top ws) (hsmall : ws.length < 1073741824) (rest : List (Instr φ)) :
    ∃ s', run (.pushEsp :: rest) s = run rest s' ∧ s'.Top ((s'.cpu.esp + 4) :: ws) ∧ s'.cpu.cs = s.cpu.cs := by
  have haddr : (s.push s.cpu.esp).cpu.esp + 4 = s.cpu.esp := UInt32.sub_add_cancel _ _
  refine ⟨s.push s.cpu.esp, rfl, ?_, rfl⟩
  rw [haddr]
  exact h.push hsmall _

theorem run_pushad (h : s.Top ws) (hsmall : ws.length + 8 ≤ 1073741824) (rest : List (Instr φ)) :
    ∃ s', run (.pushad :: rest) s = run rest s' ∧
      s'.Top (s.cpu.edi :: s.cpu.esi :: s.cpu.ebp :: s.cpu.esp :: s.cpu.ebx :: s.cpu.edx :: s.cpu.ecx ::
        s.cpu.eax :: ws) ∧ s'.cpu.SavedAlike s.cpu ∧ s'.cpu.cs = s.cpu.cs :=
  ⟨_, rfl, h.pushAll _ (by rw [Nat.add_comm]; exact hsmall), s.pushAll_saved _⟩

/-- Loads of a constant to selectors. -/
theorem run_load (h : s.Top ws) (imm : UInt16) (rs : List Sreg) (rest : List (Instr φ)) :
    ∃ s', run (.movAx imm :: (rs.map .movSreg ++ rest)) s = run rest s' ∧ s'.Top ws ∧ s'.cpu.cs = s.cpu.cs := by
  have hloads : ∀ s : State, s.Top ws → ∃ s', run (rs.map .movSreg ++ rest) s = run rest s' ∧ s'.Top ws ∧
      s'.cpu.cs = s.cpu.cs := by
    induction rs with
    | nil => exact fun s h => ⟨s, rfl, h, rfl⟩
    | cons r rs ih =>
        intro s h
        have hload : ((Instr.movSreg r : Instr φ).exec s).Top ws ∧ ((Instr.movSreg r : Instr φ).exec s).cpu.cs
            = s.cpu.cs := by
          cases r <;> exact ⟨h, rfl⟩
        obtain ⟨s', hrun, htop, hcs⟩ := ih _ hload.1
        exact ⟨s', hrun, htop, hcs.trans hload.2⟩
  exact hloads ((Instr.movAx imm : Instr φ).exec s) h

theorem run_addEsp {new : List UInt32} (h : s.Top (new ++ ws)) (rest : List (Instr φ)) :
    ∃ s', run (.addEsp (UInt32.ofNat (4 * new.length)) :: rest) s = run rest s' ∧ s'.Top ws ∧
      s'.cpu.SavedAlike s.cpu ∧ s'.cpu.cs = s.cpu.cs :=
  ⟨_, rfl, h.append, ⟨rfl, rfl, rfl, rfl, rfl, rfl, rfl, fun r => by cases r <;> rfl⟩, rfl⟩

theorem run_popSreg (h : s.Top (w :: ws)) (r : Sreg) (rest : List (Instr φ)) :
    ∃ s', run (.popSreg r :: rest) s = run rest s' ∧ s'.Top ws ∧ s'.cpu.sreg r = w.toUInt16 ∧
      (∀ r' ≠ r, s'.cpu.sreg r' = s.cpu.sreg r') ∧ s'.cpu.cs = s.cpu.cs := by
  refine ⟨_, rfl, ?_, ?_, ?_, ?_⟩
  · cases r <;> exact h.2
  · rw [← h.1]
    cases r <;> rfl
  · intro r' hne
    cases r <;> cases r' <;> first | exact absurd rfl hne | rfl
  · cases r <;> rfl

variable {edi esi ebp x ebx edx ecx eax : UInt32}

theorem run_popad (h : s.Top (edi :: esi :: ebp :: x :: ebx :: edx :: ecx :: eax :: ws)) (rest : List (Instr φ)) :
    ∃ s', run (.popad :: rest) s = run rest s' ∧ s'.Top ws ∧
      (∃ esp, s'.cpu = { s.cpu with edi, esi, ebp, ebx, edx, ecx, eax, esp }) := by
  have hdi : s.stack (s.cpu.esp + 0) = edi := h.get (i := 0) rfl
  have hsi : s.stack (s.cpu.esp + 4) = esi := h.get (i := 1) rfl
  have hbp : s.stack (s.cpu.esp + 8) = ebp := h.get (i := 2) rfl
  have hbx : s.stack (s.cpu.esp + 16) = ebx := h.get (i := 4) rfl
  have hdx : s.stack (s.cpu.esp + 20) = edx := h.get (i := 5) rfl
  have hcx : s.stack (s.cpu.esp + 24) = ecx := h.get (i := 6) rfl
  have hax : s.stack (s.cpu.esp + 28) = eax := h.get (i := 7) rfl
  refine ⟨_, rfl, @Holds.append _ _ [edi, esi, ebp, x, ebx, edx, ecx, eax] ws h, s.cpu.esp + 32, ?_⟩
  show s.popad.cpu = _
  unfold State.popad
  simp only [hdi, hsi, hbp, hbx, hdx, hcx, hax]

variable {eip cs eflags esp ss : UInt32}

/-- A return to an outer ring. -/
theorem run_iret (h : s.Top (eip :: cs :: eflags :: esp :: ss :: ws)) (hring : rpl s.cpu.cs < rpl cs.toUInt16)
    (rest : List (Instr φ)) :
    ∃ s', run (.iret :: rest) s = .back s' ∧
      s'.cpu = { s.cpu with eip, cs := cs.toUInt16, eflags, esp, ss := ss.toUInt16 } := by
  have hip : s.stack (s.cpu.esp + 0) = eip := h.get (i := 0) rfl
  have hcs : s.stack (s.cpu.esp + 4) = cs := h.get (i := 1) rfl
  have hfl : s.stack (s.cpu.esp + 8) = eflags := h.get (i := 2) rfl
  have hsp : s.stack (s.cpu.esp + 12) = esp := h.get (i := 3) rfl
  have hss : s.stack (s.cpu.esp + 16) = ss := h.get (i := 4) rfl
  refine ⟨_, rfl, ?_⟩
  unfold State.iret
  simp only [hip, hcs, hfl, hsp, hss, if_pos hring]

end Run

/-! ## Interrupts -/

/-- **An interrupt** leaves the words of the interrupted code on the stack, and the processor's error code. -/
theorem State.interrupt_top (s : State) (g : Gate) (ss0 : UInt16) (esp0 : UInt32) (vector : Nat)
    (code : UInt32) : (s.interrupt g ss0 esp0 vector code).Top
      ((if hasErrorCode vector then [code] else []) ++
        [s.cpu.eip, s.cpu.cs.toUInt32, s.cpu.eflags, s.cpu.esp, s.cpu.ss.toUInt32]) := by
  have hempty : (s.onStack ss0 esp0).Top [] := True.intro
  have hsaved := hempty.pushAll [s.cpu.ss.toUInt32, s.cpu.esp, s.cpu.eflags, s.cpu.cs.toUInt32, s.cpu.eip]
    (Nat.le_of_ble_eq_true rfl)
  unfold State.interrupt
  by_cases hcode : hasErrorCode vector
  · simp only [if_pos hcode]
    exact hsaved.push (Nat.le_of_ble_eq_true rfl) code
  · simp only [if_neg hcode]
    exact hsaved

theorem State.onStack_saved (s : State) (ss : UInt16) (esp : UInt32) :
    (s.onStack ss esp).cpu.SavedAlike s.cpu :=
  ⟨rfl, rfl, rfl, rfl, rfl, rfl, rfl, fun r => by cases r <;> rfl⟩

theorem State.through_saved (s : State) (g : Gate) (eflags : UInt32) :
    (s.through g eflags).cpu.SavedAlike s.cpu :=
  ⟨rfl, rfl, rfl, rfl, rfl, rfl, rfl, fun r => by cases r <;> rfl⟩

/-- It leaves the registers that a stub saves, and goes on in the code segment of the gate. -/
theorem State.interrupt_saved (s : State) (g : Gate) (ss0 : UInt16) (esp0 : UInt32) (vector : Nat)
    (code : UInt32) : (s.interrupt g ss0 esp0 vector code).cpu.SavedAlike s.cpu ∧
      (s.interrupt g ss0 esp0 vector code).cpu.cs = g.selector := by
  have hsaved := ((s.onStack ss0 esp0).pushAll_saved
    [s.cpu.ss.toUInt32, s.cpu.esp, s.cpu.eflags, s.cpu.cs.toUInt32, s.cpu.eip]).1.trans (s.onStack_saved ss0 esp0)
  refine ⟨(State.through_saved _ _ _).trans ?_, rfl⟩
  by_cases hcode : hasErrorCode vector
  · rw [if_pos hcode]
    exact (State.push_saved _ _).trans hsaved
  · rw [if_neg hcode]
    exact hsaved

end Lib.X86
