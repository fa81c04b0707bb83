import Drupe.Memory.Clients
import Drupe.Usermode.Processes

/-!
# `Usermode.Correctness.KernelStack` — whose memory a kernel stack is

An x86 stack grows downward, so the memory of a process's kernel stack is the sector *below*
`kernelStackTop`. `procCreate` stores the base of the sector it allocates there, not its end (and 0 when
there is no sector), so the stack is never the sector that was allocated for it.
-/

namespace Drupe

open Lib

/-- The allocator with what is outstanding, and the process table. -/
structure ProcConfig where
  mem : PhysConfig
  procs : ProcTable

/-- A freshly initialised allocator and the zeroed process table. -/
def ProcConfig.init (start totalSize : UInt32) : ProcConfig :=
  ⟨PhysConfig.init start totalSize, ProcTable.zeroed⟩

/-- The answer of `procCreate`. -/
def ProcConfig.answer (c : ProcConfig) : Option (Fin procMaxCount) :=
  (procCreate c.mem.phys c.procs).2.2

/-- A call of `procCreate`. The sector it gets for a new process is outstanding from then on. -/
def ProcConfig.create (c : ProcConfig) : ProcConfig where
  mem :=
    { phys := (procCreate c.mem.phys c.procs).1
      outstanding :=
        match c.answer with
        | some _ => handedOut (memPhysAlloc c.mem.phys).2 1 ++ c.mem.outstanding
        | none => c.mem.outstanding }
  procs := (procCreate c.mem.phys c.procs).2.1

inductive ProcCall
  | create
  | phys (call : PhysCall)
deriving DecidableEq

inductive ProcStep : ProcConfig → ProcCall → ProcConfig → Prop
  | create {c} : ProcStep c .create c.create
  | phys {c call p m} (h : PhysStep c.mem (call, p) m) : ProcStep c (.phys call) ⟨m, c.procs⟩

/-- The lowest address of the kernel stack of a process: `pmmSectorSize` bytes below its top. -/
def Process.kernelStackBase (p : Process) : UInt32 := p.kernelStackTop - UInt32.ofNat pmmSectorSize

/-- **What `procCreate` owes.** It answers null and leaves the table as it was; or it answers a slot that was
    unused, with a kernel stack that is a sector handed out by this very call, disjoint from all that was
    outstanding before. -/
def OwnsStack (c : ProcConfig) : Prop :=
  (c.answer = none ∧ c.create.procs = c.procs) ∨
  ∃ pid, c.answer = some pid ∧ c.procs.Unused pid ∧
    c.create.mem.outstanding = (c.create.procs.proc pid).kernelStackBase :: c.mem.outstanding ∧
    ∀ a ∈ c.mem.outstanding, SectorDisjoint (c.create.procs.proc pid).kernelStackBase a

/-- The stack of a new process is the sector below the one it got. -/
theorem create_stackBase {c : ProcConfig} {pid : Fin procMaxCount} (h : c.answer = some pid) :
    c.procs.Unused pid ∧
    (c.create.procs.proc pid).kernelStackTop = (memPhysAlloc c.mem.phys).2 ∧
    c.create.mem.outstanding = handedOut (memPhysAlloc c.mem.phys).2 1 ++ c.mem.outstanding := by
  rcases procCreate_cases c.mem.phys c.procs with ⟨-, heq⟩ | ⟨q, t', hunused, -, heq, hproc, -, -⟩
  · unfold ProcConfig.answer at h
    rw [heq] at h
    exact absurd h (by simp)
  · have hq : q = pid := by
      unfold ProcConfig.answer at h
      rw [heq] at h
      exact Option.some.inj h
    subst hq
    refine ⟨hunused, ?_, ?_⟩
    · show (ProcTable.proc (procCreate c.mem.phys c.procs).2.1 q).kernelStackTop = _
      rw [heq]
      exact congrArg Process.kernelStackTop hproc
    · unfold ProcConfig.create
      rw [h]

/-- A range of one sector is its first address, or nothing when that is null. -/
theorem handedOut_one (p : UInt32) : handedOut p 1 = if p = 0 then [] else [p] := by
  unfold handedOut
  split
  · rfl
  · simp

/-- **One call**: it gives the process its stack exactly when it creates no process. -/
theorem ownsStack_iff (c : ProcConfig) : OwnsStack c ↔ ∀ pid, ¬ c.procs.Unused pid := by
  constructor
  · rintro (⟨hnone, -⟩ | ⟨pid, hsome, -, hout, -⟩)
    · rcases procCreate_cases c.mem.phys c.procs with ⟨hno, -⟩ | ⟨q, t', -, -, heq, -, -, -⟩
      · exact hno
      · unfold ProcConfig.answer at hnone
        rw [heq] at hnone
        exact absurd hnone (by simp)
    · obtain ⟨-, htop, houts⟩ := create_stackBase hsome
      rw [houts, handedOut_one] at hout
      split at hout
      -- no sector: nothing became outstanding
      · exact absurd hout (by simp)
      -- a sector: its base is the top of the stack, not its bottom
      · have hbase : (memPhysAlloc c.mem.phys).2 = (c.create.procs.proc pid).kernelStackBase := by
          simpa using hout
        rw [Process.kernelStackBase, htop] at hbase
        have hzero : UInt32.ofNat pmmSectorSize = 0 := by grind
        exact absurd hzero (by decide)
  · intro hno
    rcases procCreate_cases c.mem.phys c.procs with ⟨-, heq⟩ | ⟨pid, -, hunused, -⟩
    · refine .inl ⟨?_, ?_⟩
      · unfold ProcConfig.answer
        rw [heq]
      · unfold ProcConfig.create
        simp only [heq]
    · exact absurd hunused (hno pid)

/-- From the zeroed table, a history in which every `procCreate` gives its process a stack has none: the
    first one would find an unused slot. -/
theorem no_create_of_ownsStack {c c' : ProcConfig} {vis : List (ProcConfig × ProcCall)}
    (h : Run ProcStep c vis c') (hzero : c.procs = ProcTable.zeroed)
    (howns : ∀ x ∈ vis, x.2 = .create → OwnsStack x.1) : ∀ x ∈ vis, x.2 ≠ .create := by
  induction h with
  | nil => intro x hx; exact absurd hx (by simp)
  | cons hstep _ ih =>
      cases hstep with
      | create =>
          have hno := (ownsStack_iff _).mp (howns _ List.mem_cons_self rfl)
          rw [hzero] at hno
          exact absurd (zeroed_unused ⟨0, by decide⟩) (hno _)
      | phys _ =>
          intro x hx
          rcases List.mem_cons.mp hx with rfl | hx
          · simp
          · exact ih hzero (fun y hy => howns y (List.mem_cons_of_mem _ hy)) x hx

/-- **When kernel stacks are the processes' own.** In a history of the allocator and the process table from
    their initial states, every `procCreate` gives its process its own stack exactly when each of them finds
    no unused slot, which is when there is no `procCreate` in it at all. -/
theorem run_ownsStack_iff (start total : UInt32) {vis : List (ProcConfig × ProcCall)} {c : ProcConfig}
    (hrun : Run ProcStep (ProcConfig.init start total) vis c) :
    ((∀ x ∈ vis, x.2 = .create → OwnsStack x.1) ↔
      ∀ x ∈ vis, x.2 = .create → ∀ pid, ¬ x.1.procs.Unused pid) ∧
    ((∀ x ∈ vis, x.2 = .create → OwnsStack x.1) ↔ ∀ x ∈ vis, x.2 ≠ .create) := by
  constructor
  · exact forall₃_congr fun x _ _ => ownsStack_iff x.1
  · constructor
    · exact no_create_of_ownsStack hrun rfl
    · intro hno x hx hcreate
      exact absurd hcreate (hno x hx)

theorem run_ownsStack_iff_first : ¬ OwnsStack (ProcConfig.init 0x100000 0x200000) := by
  have hrun : Run ProcStep (ProcConfig.init 0x100000 0x200000) _ _ := .cons .create .nil
  intro howns
  have hno := (run_ownsStack_iff 0x100000 0x200000 hrun).2.mp
    (fun x hx _ => by obtain rfl := List.mem_singleton.mp hx; exact howns)
  exact hno _ List.mem_cons_self rfl

/-- The first process of a machine gets the sector at `0x100000` and, as its stack, the sector below it. -/
theorem first_stack_below :
    ∃ pid, (ProcConfig.init 0x100000 0x200000).answer = some pid ∧
      (ProcConfig.init 0x100000 0x200000).create.mem.outstanding = [0x100000] ∧
      ((ProcConfig.init 0x100000 0x200000).create.procs.proc pid).kernelStackTop = 0x100000 ∧
      ((ProcConfig.init 0x100000 0x200000).create.procs.proc pid).kernelStackBase = 0xFE000 ∧
      ¬ OwnsStack (ProcConfig.init 0x100000 0x200000) := by
  have halloc : (memPhysAlloc (memPhysInit 0x100000 0x200000)).2 = 0x100000 := by
    rw [memPhysAlloc_first (k := 0) (memPhysInit_isFree (by decide)) (fun j hj => absurd hj (by omega))]
    decide
  have hunused : ¬ ∀ pid, ¬ (ProcConfig.init 0x100000 0x200000).procs.Unused pid :=
    fun hno => hno _ (zeroed_unused ⟨0, by decide⟩)
  rcases procCreate_cases (memPhysInit 0x100000 0x200000) ProcTable.zeroed with
    ⟨hno, -⟩ | ⟨pid, t', -, -, heq, -⟩
  · exact absurd hno hunused
  · have hanswer : (ProcConfig.init 0x100000 0x200000).answer = some pid :=
      congrArg (fun r => r.2.2) heq
    obtain ⟨-, htop, hout⟩ := create_stackBase hanswer
    have htop' := htop.trans halloc
    refine ⟨pid, hanswer, ?_, htop', ?_, fun h => hunused ((ownsStack_iff _).mp h)⟩
    · rw [hout]
      show handedOut (memPhysAlloc (memPhysInit 0x100000 0x200000)).2 1 ++ [] = _
      rw [halloc]
      decide
    · rw [Process.kernelStackBase, htop']
      decide

end Drupe
