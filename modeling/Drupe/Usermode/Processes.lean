import Drupe.Memory.Physical

/-!
# `Usermode.Processes` — the process table (`processes.c`)

`procCreate` takes the first unused slot of the table and a sector from `memPhysAlloc` for its kernel stack.
`procCreate_cases` is all it can do.
-/

namespace Drupe

open Lib

/-- `PROC_MAX_COUNT` -/
abbrev procMaxCount : Nat := 64

def procUnused : UInt8 := 0
def procRunning : UInt8 := 1

/-- `USER_STACK_TOP` -/
def userStackTop : UInt32 := 0x800000

/-- `process_t`, the fields that are read or written. -/
structure Process where
  state : UInt8
  kernelStackTop : UInt32
  userStackTop : UInt32
deriving DecidableEq

/-- The static variables of `processes.c`. -/
structure ProcTable where
  processTable : Vector Process procMaxCount
  currentProcess : Option (Fin procMaxCount)
deriving DecidableEq

/-- The table as the kernel starts with it: all zero. -/
def ProcTable.zeroed : ProcTable := ⟨Vector.replicate procMaxCount ⟨0, 0, 0⟩, none⟩

def ProcTable.proc (t : ProcTable) (pid : Fin procMaxCount) : Process := t.processTable.get pid

/-- `process_table[pid].state == PROC_UNUSED` -/
def ProcTable.Unused (t : ProcTable) (pid : Fin procMaxCount) : Prop := (t.proc pid).state = procUnused

instance (t : ProcTable) (pid : Fin procMaxCount) : Decidable (t.Unused pid) :=
  inferInstanceAs (Decidable (_ = _))

/-- The loop over the slots. -/
def findUnused (t : ProcTable) : Option (Fin procMaxCount) :=
  search (fun pid => if h : pid < procMaxCount then if t.Unused ⟨pid, h⟩ then some ⟨pid, h⟩ else none
    else none) procMaxCount 0

/-- The slot of the new process, or `none` for the null pointer. -/
def procCreate (s : PhysMem) (t : ProcTable) : PhysMem × ProcTable × Option (Fin procMaxCount) :=
  match findUnused t with
  | some pid =>
    -- a null answer is stored like any other
    let r := memPhysAlloc s
    (r.1,
      { processTable := t.processTable.set pid ⟨procRunning, r.2, userStackTop⟩
        currentProcess := some pid },
      some pid)
  | none => (s, t, none)

theorem findUnused_eq_none {t : ProcTable} (h : findUnused t = none) : ∀ pid, ¬ t.Unused pid := by
  intro pid hpid
  have hnone := search_eq_none_iff.mp h pid.val (Nat.zero_le _) (by omega)
  rw [dif_pos pid.isLt, if_pos hpid] at hnone
  exact absurd hnone (by simp)

theorem findUnused_eq_some {t : ProcTable} {pid : Fin procMaxCount} (h : findUnused t = some pid) :
    t.Unused pid ∧ ∀ q < pid, ¬ t.Unused q := by
  obtain ⟨k, -, hk, hfound, hbefore⟩ := search_eq_some_iff.mp h
  have hlt : k < procMaxCount := by omega
  rw [dif_pos hlt] at hfound
  split at hfound
  · rename_i hunused
    obtain rfl := Option.some.inj hfound
    refine ⟨hunused, ?_⟩
    intro q hq hqunused
    have hnone := hbefore q.val (Nat.zero_le _) hq
    rw [dif_pos q.isLt, if_pos hqunused] at hnone
    exact absurd hnone (by simp)
  · exact absurd hfound (by simp)

/-- **All `procCreate` can do**: fail and leave everything as it was when no slot is unused; otherwise take
    the first unused slot, with the answer of `memPhysAlloc`, null or not, as its kernel stack top. -/
theorem procCreate_cases (s : PhysMem) (t : ProcTable) :
    ((∀ pid, ¬ t.Unused pid) ∧ procCreate s t = (s, t, none)) ∨
    (∃ pid t', t.Unused pid ∧ (∀ q < pid, ¬ t.Unused q) ∧
      procCreate s t = ((memPhysAlloc s).1, t', some pid) ∧
      t'.proc pid = ⟨procRunning, (memPhysAlloc s).2, userStackTop⟩ ∧
      (∀ q ≠ pid, t'.proc q = t.proc q) ∧ t'.currentProcess = some pid) := by
  cases h : findUnused t with
  | none => exact .inl ⟨findUnused_eq_none h, by rw [procCreate, h]⟩
  | some pid =>
      obtain ⟨hunused, hfirst⟩ := findUnused_eq_some h
      refine .inr ⟨pid, _, hunused, hfirst, by rw [procCreate, h], ?_, ?_, rfl⟩
      · exact Vector.getElem_set_self pid.isLt
      · intro q hq
        exact Vector.getElem_set_ne pid.isLt q.isLt (fun hc => hq (Fin.ext hc.symm))

theorem zeroed_unused (pid : Fin procMaxCount) : ProcTable.zeroed.Unused pid := by
  show (Vector.replicate procMaxCount (⟨0, 0, 0⟩ : Process))[pid].state = procUnused
  rw [Fin.getElem_fin, Vector.getElem_replicate]
  rfl

end Drupe
