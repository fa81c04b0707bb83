import Drupe.Lib.Run
import Mathlib.Data.BitVec
import Mathlib.Data.Fin.Basic
import Mathlib.Logic.Function.Basic

/-!
# `Lib.Pic` — interrupt controllers

An 8259A remembers the requests on its eight lines until the processor takes them, line 0 first. A line that was
taken is in service until the controller is told the end of the interrupt, and meanwhile it holds back its own
requests and those of the lines after it. A PC has two of them; the second one hangs at line 2 of the first.

There are edge-triggered requests, the initialization, the mask, and the end of interrupt that does not name its
line. Rotation of priorities, polling and the special modes are not here.

To whoever ends each interrupt at the controllers that it came through, the pair is a set of requests, of which
the most urgent one that is enabled is served next (`Pic.acknowledge_spec`).
-/

namespace Lib

/-- A controller has lines. -/
theorem neZero_eight : NeZero 8 := ⟨by decide⟩

/-- What the data port of a controller waits for. -/
inductive Expects
  | offset (cascade mode : Bool)
  | wiring (mode : Bool)
  | mode
  | mask
deriving DecidableEq

structure Chip where
  requested : Fin 8 → Bool
  inService : Fin 8 → Bool
  mask : UInt8
  /-- The vector of line 0. -/
  offset : UInt8
  autoEnd : Bool
  expects : Expects

namespace Chip

def masked (c : Chip) (i : Fin 8) : Bool := c.mask.toBitVec.getLsbD i

/-- Line `i` would interrupt: it is requested, it is not masked, and no line up to it is in service. -/
def Wants (c : Chip) (i : Fin 8) : Prop := c.requested i = true ∧ c.masked i = false ∧ ∀ j ≤ i, c.inService j = false

instance (c : Chip) (i : Fin 8) : Decidable (c.Wants i) := inferInstanceAs (Decidable (_ ∧ _ ∧ _))

/-- The line that interrupts. -/
def pending (c : Chip) : Option (Fin 8) := Fin.find? fun i => c.Wants i

def raise (c : Chip) (i : Fin 8) : Chip := { c with requested := Function.update c.requested i true }

/-- The processor takes a line. -/
def take (c : Chip) (i : Fin 8) : Chip where
  requested := Function.update c.requested i false
  inService := if c.autoEnd then c.inService else Function.update c.inService i true
  mask := c.mask
  offset := c.offset
  autoEnd := c.autoEnd
  expects := c.expects

/-- The first line in service is so no longer. -/
def endOfInterrupt (c : Chip) : Chip :=
  match Fin.find? c.inService with
  | none => c
  | some i => { c with inService := Function.update c.inService i false }

/-- A byte for the command port: the beginning of an initialization, or the end of an interrupt. -/
def command (c : Chip) (v : UInt8) : Chip :=
  if v &&& 0x10 ≠ 0 then
    { requested := fun _ => false, inService := fun _ => false, mask := 0, offset := c.offset, autoEnd := false
      expects := .offset (v &&& 2 = 0) (v &&& 1 ≠ 0) }
  else if v &&& 0xF8 = 0x20 then c.endOfInterrupt
  else c

def expectsMode (mode : Bool) : Expects := if mode then .mode else .mask

/-- A byte for the data port. -/
def data (c : Chip) (v : UInt8) : Chip :=
  match c.expects with
  | .offset cascade mode =>
      { c with offset := v &&& 0xF8, expects := if cascade then .wiring mode else expectsMode mode }
  | .wiring mode => { c with expects := expectsMode mode }
  | .mode => { c with autoEnd := v &&& 2 ≠ 0, expects := .mask }
  | .mask => { c with mask := v }

/-- Nothing is in service, and there was an initialization. -/
structure Idle (c : Chip) : Prop where
  inService : c.inService = fun _ => false
  autoEnd : c.autoEnd = false
  expects : c.expects = .mask

/-- The request of a line is taken back. -/
def drop (c : Chip) (i : Fin 8) : Chip := { c with requested := Function.update c.requested i false }

variable {c : Chip} {i j : Fin 8}

theorem wants_idle (h : c.Idle) : c.Wants i ↔ c.requested i = true ∧ c.masked i = false := by
  unfold Wants
  rw [h.inService]
  exact and_congr_right fun _ => and_iff_left fun _ _ => rfl

theorem wants_of_pending (h : c.pending = some i) : c.Wants i ∧ ∀ j < i, ¬ c.Wants j := by
  obtain ⟨hwants, hfirst⟩ := Fin.find?_eq_some_iff.mp h
  exact ⟨of_decide_eq_true hwants, fun j hj => of_decide_eq_false (hfirst j hj)⟩

theorem pending_isSome : c.pending.isSome ↔ ∃ i, c.Wants i := by
  unfold pending
  rw [Fin.isSome_find?_iff]
  simp only [decide_eq_true_eq]

theorem Idle.raise (h : c.Idle) (i : Fin 8) : (c.raise i).Idle := ⟨h.inService, h.autoEnd, h.expects⟩

theorem Idle.drop (h : c.Idle) (i : Fin 8) : (c.drop i).Idle := ⟨h.inService, h.autoEnd, h.expects⟩

theorem data_mask (h : c.Idle) (v : UInt8) : c.data v = { c with mask := v } := by
  unfold data
  rw [h.expects]

/-- A line is taken, and it is told that this is over. -/
theorem command_take (h : c.Idle) (i : Fin 8) : (c.take i).command 0x20 = c.drop i := by
  have hone : (c.take i).inService = Function.update (fun _ => false) i true := by
    unfold take
    rw [h.autoEnd, h.inService]
    rfl
  have hfirst : Fin.find? (c.take i).inService = some i := by
    rw [Fin.find?_eq_some_iff, hone]
    refine ⟨Function.update_self _ _ _, fun j hj => ?_⟩
    rw [Function.update_of_ne (Fin.ne_of_lt hj)]
  show (c.take i).endOfInterrupt = c.drop i
  unfold endOfInterrupt
  rw [hfirst]
  simp only [hone, Function.update_idem, Function.update_eq_self]
  unfold take drop
  rw [h.inService]

end Chip

/-! ## Two of them -/

structure Pic where
  master : Chip
  slave : Chip

/-- A line of one of the two. -/
inductive Line
  | master (i : Fin 8)
  | slave (j : Fin 8)
deriving DecidableEq

namespace Pic

/-- The master, with what the slave asks of it. -/
def wired (p : Pic) : Chip :=
  { p.master with requested := Function.update p.master.requested 2 p.slave.pending.isSome }

/-- The processor takes an interrupt, and its vector. -/
def acknowledge (p : Pic) : Option (UInt8 × Pic) :=
  match p.wired.pending with
  | none => none
  | some i =>
    if i = 2 then p.slave.pending.map fun j => (p.slave.offset ||| UInt8.ofNat j.val, ⟨p.master.take 2, p.slave.take j⟩)
    else some (p.master.offset ||| UInt8.ofNat i.val, ⟨p.master.take i, p.slave⟩)

/-- `out` -/
def out (p : Pic) (port : UInt16) (v : UInt8) : Pic :=
  if port = 0x20 then { p with master := p.master.command v }
  else if port = 0x21 then { p with master := p.master.data v }
  else if port = 0xA0 then { p with slave := p.slave.command v }
  else if port = 0xA1 then { p with slave := p.slave.data v }
  else p

/-- `in` from a data port. -/
def mask (p : Pic) (port : UInt16) : UInt8 := if port = 0x21 then p.master.mask else p.slave.mask

/-- The writes to ports, in order. -/
def outs (p : Pic) (writes : List (UInt16 × UInt8)) : Pic := writes.foldl (fun p w => p.out w.1 w.2) p

/-- A device asks for an interrupt. -/
def raise (p : Pic) : Line → Pic
  | .master i => { p with master := p.master.raise i }
  | .slave j => { p with slave := p.slave.raise j }

def drop (p : Pic) : Line → Pic
  | .master i => { p with master := p.master.drop i }
  | .slave j => { p with slave := p.slave.drop j }

def vector (p : Pic) : Line → UInt8
  | .master i => p.master.offset ||| UInt8.ofNat i.val
  | .slave j => p.slave.offset ||| UInt8.ofNat j.val

/-- How a line is ended: at the controllers that it came through. -/
def ends : Line → List (UInt16 × UInt8)
  | .master _ => [(0x20, 0x20)]
  | .slave _ => [(0xA0, 0x20), (0x20, 0x20)]

/-- No device hangs where the slave does. -/
structure Idle (p : Pic) : Prop where
  master : p.master.Idle
  slave : p.slave.Idle
  cascade : p.master.requested 2 = false

end Pic

/-! ## What they are for -/

/-- The requests there are, and the lines that are enabled. -/
structure Lines where
  requested : Line → Bool
  enabled : Line → Bool

/-- The order in which lines are served. -/
def Line.rank : Line → Nat
  | .master i => if i < 2 then i else i + 8
  | .slave j => j + 2

/-- A line may be served. The slave has to be enabled as well. -/
def Lines.Ready (l : Lines) : Line → Prop
  | .master i => i ≠ 2 ∧ l.requested (.master i) = true ∧ l.enabled (.master i) = true
  | .slave j => l.enabled (.master 2) = true ∧ l.requested (.slave j) = true ∧ l.enabled (.slave j) = true

/-- The line is served next. -/
def Lines.Next (l : Lines) (n : Line) : Prop := l.Ready n ∧ ∀ m, l.Ready m → n.rank ≤ m.rank

def Pic.lines (p : Pic) : Lines where
  requested
    | .master i => p.master.requested i
    | .slave j => p.slave.requested j
  enabled
    | .master i => !p.master.masked i
    | .slave j => !p.slave.masked j

namespace Pic

variable {p q : Pic}

theorem wants_wired (h : p.Idle) {i : Fin 8} (hi : i ≠ 2) : p.wired.Wants i ↔ p.lines.Ready (.master i) := by
  have hwired : p.wired.Idle := ⟨h.master.inService, h.master.autoEnd, h.master.expects⟩
  rw [Chip.wants_idle hwired]
  unfold wired
  simp only [Function.update_of_ne hi]
  show _ ↔ i ≠ 2 ∧ p.master.requested i = true ∧ (!p.master.masked i) = true
  rw [Bool.not_eq_true']
  exact (and_iff_right hi).symm

theorem wants_slave (h : p.Idle) (hcascade : p.master.masked 2 = false) {j : Fin 8} :
    p.slave.Wants j ↔ p.lines.Ready (.slave j) := by
  rw [Chip.wants_idle h.slave]
  show _ ↔ (!p.master.masked 2) = true ∧ p.slave.requested j = true ∧ (!p.slave.masked j) = true
  rw [hcascade, and_iff_right (show (!false) = true from rfl), Bool.not_eq_true']

theorem wants_cascade (h : p.Idle) : p.wired.Wants 2 ↔ p.master.masked 2 = false ∧ ∃ j, p.lines.Ready (.slave j) := by
  have hwired : p.wired.Idle := ⟨h.master.inService, h.master.autoEnd, h.master.expects⟩
  rw [Chip.wants_idle hwired]
  unfold wired
  simp only [Function.update_self]
  rw [Chip.pending_isSome]
  constructor
  · rintro ⟨⟨j, hj⟩, hclear⟩
    exact ⟨hclear, j, (wants_slave h hclear).mp hj⟩
  · rintro ⟨hclear, j, hj⟩
    exact ⟨⟨j, (wants_slave h hclear).mpr hj⟩, hclear⟩

/-- **Taking an interrupt**, between interrupts, takes the line that is next, and when it has ended, its request is
    all that is gone. -/
theorem acknowledge_spec (h : p.Idle) {v : UInt8} (hack : p.acknowledge = some (v, q)) :
    ∃ n, p.lines.Next n ∧ v = p.vector n ∧ q.outs (ends n) = p.drop n := by
  unfold acknowledge at hack
  cases hpending : p.wired.pending with
  | none =>
      rw [hpending] at hack
      cases hack
  | some i =>
      obtain ⟨hwants, hfirst⟩ := Chip.wants_of_pending hpending
      simp only [hpending] at hack
      by_cases hi : i = 2
      · subst hi
        rw [if_pos rfl, Option.map_eq_some_iff] at hack
        obtain ⟨j, hslave, heq⟩ := hack
        obtain ⟨rfl, rfl⟩ := Prod.mk.inj heq
        obtain ⟨hclear, -⟩ := (wants_cascade h).mp hwants
        obtain ⟨hj, hfirst'⟩ := Chip.wants_of_pending hslave
        refine ⟨.slave j, ⟨(wants_slave h hclear).mp hj, ?_⟩, rfl, ?_⟩
        · rintro (i | j') hready
          · have hafter : ¬ i < 2 := fun hlt =>
              hfirst i hlt ((wants_wired h hready.1).mpr hready)
            show j.val + 2 ≤ if i < 2 then i.val else i.val + 8
            rw [if_neg hafter]
            have := j.isLt
            have : 2 ≤ i.val := Nat.le_of_not_lt hafter
            omega
          · have hle : j ≤ j' := by
              by_contra hlt
              exact hfirst' j' (not_le.mp hlt) ((wants_slave h hclear).mpr hready)
            exact Nat.add_le_add_right hle 2
        · show Pic.mk ((p.master.take 2).command 0x20) ((p.slave.take j).command 0x20) = p.drop (.slave j)
          rw [Chip.command_take h.master, Chip.command_take h.slave]
          have hsame : p.master.drop 2 = p.master := by
            unfold Chip.drop
            rw [← h.cascade, Function.update_eq_self]
          rw [hsame]
          rfl
      · rw [if_neg hi] at hack
        obtain ⟨rfl, rfl⟩ := Prod.mk.inj (Option.some.inj hack)
        refine ⟨.master i, ⟨(wants_wired h hi).mp hwants, ?_⟩, rfl, ?_⟩
        · rintro (i' | j) hready
          · have hle : i ≤ i' := by
              by_contra hlt
              exact hfirst i' (not_le.mp hlt) ((wants_wired h hready.1).mpr hready)
            show (if i < 2 then i.val else i.val + 8) ≤ if i' < 2 then i'.val else i'.val + 8
            have : i.val ≤ i'.val := hle
            split <;> split <;> omega
          · have hclear : p.master.masked 2 = false := by
              simpa [lines] using hready.1
            have hlt : i < 2 := by
              have hle : i ≤ 2 := by
                by_contra hlt
                exact hfirst 2 (not_le.mp hlt) ((wants_cascade h).mpr ⟨hclear, j, hready⟩)
              exact lt_of_le_of_ne hle hi
            show (if i < 2 then i.val else i.val + 8) ≤ j.val + 2
            rw [if_pos hlt]
            have : i.val < 2 := hlt
            omega
        · show Pic.mk ((p.master.take i).command 0x20) p.slave = p.drop (.master i)
          rw [Chip.command_take h.master]
          rfl

/-- There is an interrupt to be taken when a line is ready. -/
theorem acknowledge_isSome (h : p.Idle) {n : Line} (hready : p.lines.Ready n) : p.acknowledge.isSome := by
  have hwants : ∃ i, p.wired.Wants i := by
    cases n with
    | master i => exact ⟨i, (wants_wired h hready.1).mpr hready⟩
    | slave j =>
        have hclear : p.master.masked 2 = false := by
          simpa [lines] using hready.1
        exact ⟨2, (wants_cascade h).mpr ⟨hclear, j, hready⟩⟩
  obtain ⟨i, hpending⟩ := Option.isSome_iff_exists.mp (Chip.pending_isSome.mpr hwants)
  unfold acknowledge
  simp only [hpending]
  split
  · rename_i heq
    subst heq
    obtain ⟨hclear, j, hj⟩ := (wants_cascade h).mp (Chip.wants_of_pending hpending).1
    rw [Option.isSome_map]
    exact Chip.pending_isSome.mpr ⟨j, (wants_slave h hclear).mpr hj⟩
  · rfl

theorem out_master_mask (h : p.Idle) (v : UInt8) :
    p.out 0x21 v = { p with master := { p.master with mask := v } } := by
  rw [← Chip.data_mask h.master]
  rfl

theorem out_slave_mask (h : p.Idle) (v : UInt8) : p.out 0xA1 v = { p with slave := { p.slave with mask := v } } := by
  rw [← Chip.data_mask h.slave]
  rfl

theorem lines_raise (p : Pic) (n : Line) :
    (p.raise n).lines = { p.lines with requested := Function.update p.lines.requested n true } := by
  unfold lines
  simp only [Lines.mk.injEq]
  cases n with
  | master i =>
      refine ⟨funext fun m => ?_, rfl⟩
      cases m with
      | master j => simp [raise, Chip.raise, Function.update_apply]
      | slave j => simp [raise]
  | slave i =>
      refine ⟨funext fun m => ?_, rfl⟩
      cases m with
      | master j => simp [raise]
      | slave j => simp [raise, Chip.raise, Function.update_apply]

theorem lines_drop (p : Pic) (n : Line) :
    (p.drop n).lines = { p.lines with requested := Function.update p.lines.requested n false } := by
  unfold lines
  simp only [Lines.mk.injEq]
  cases n with
  | master i =>
      refine ⟨funext fun m => ?_, rfl⟩
      cases m with
      | master j => simp [drop, Chip.drop, Function.update_apply]
      | slave j => simp [drop]
  | slave i =>
      refine ⟨funext fun m => ?_, rfl⟩
      cases m with
      | master j => simp [drop]
      | slave j => simp [drop, Chip.drop, Function.update_apply]

theorem Idle.raise (h : p.Idle) {n : Line} (hdevice : n ≠ .master 2) : (p.raise n).Idle := by
  cases n with
  | master i =>
      refine ⟨h.master.raise i, h.slave, ?_⟩
      show Function.update p.master.requested i true 2 = false
      rw [Function.update_of_ne fun heq => hdevice (congrArg Line.master heq.symm)]
      exact h.cascade
  | slave j => exact ⟨h.master, h.slave.raise j, h.cascade⟩

theorem Idle.drop (h : p.Idle) (n : Line) : (p.drop n).Idle := by
  cases n with
  | master i =>
      refine ⟨h.master.drop i, h.slave, ?_⟩
      show Function.update p.master.requested i false 2 = false
      by_cases heq : (2 : Fin 8) = i
      · rw [heq, Function.update_self]
      · rw [Function.update_of_ne heq]
        exact h.cascade
  | slave j => exact ⟨h.master, h.slave.drop j, h.cascade⟩

end Pic

/-! ## Runs -/

namespace Lines

inductive Event
  | raise (n : Line)
  | serve (n : Line)
  /-- A line is enabled or disabled, or none is. -/
  | enable (n : Option Line) (on : Bool)
deriving DecidableEq

inductive Step : Lines → Event → Lines → Prop
  | raise (l : Lines) {n : Line} (hdevice : n ≠ .master 2) :
      Step l (.raise n) { l with requested := Function.update l.requested n true }
  | serve {l : Lines} {n : Line} (hnext : l.Next n) :
      Step l (.serve n) { l with requested := Function.update l.requested n false }
  | enable (l : Lines) (n : Line) (on : Bool) :
      Step l (.enable (some n) on) { l with enabled := Function.update l.enabled n on }
  | same (l : Lines) (on : Bool) : Step l (.enable none on) l

variable {l l' : Lines} {n : Line}

theorem Ready.requested (h : l.Ready n) : l.requested n = true := by
  cases n with
  | master i => exact h.2.1
  | slave j => exact h.2.1

theorem Ready.enabled (h : l.Ready n) : l.enabled n = true := by
  cases n with
  | master i => exact h.2.2
  | slave j => exact h.2.2

/-- One step: a line is served at most as often as it asked for it. -/
theorem Step.count {e : Event} (h : Step l e l') (n : Line) :
    [e].count (.serve n) + (l'.requested n).toNat ≤ [e].count (.raise n) + (l.requested n).toNat := by
  cases h with
  | @raise m hdevice =>
      by_cases heq : m = n
      · subst heq
        simp
      · simp [heq, Function.update_of_ne (Ne.symm heq)]
  | @serve m hnext =>
      by_cases heq : m = n
      · subst heq
        simp [hnext.1.requested]
      · simp [heq, Function.update_of_ne (Ne.symm heq)]
  | enable => simp
  | same => simp

/-- **Nothing is served twice.** -/
theorem run_count {vis : List (Lines × Event)} (h : Run Step l vis l') (n : Line) :
    (vis.map Prod.snd).count (.serve n) + (l'.requested n).toNat
      ≤ (vis.map Prod.snd).count (.raise n) + (l.requested n).toNat := by
  induction h with
  | nil => exact Nat.le_refl _
  | @cons l e l₁ vis l' hstep _ ih =>
      have hone := hstep.count n
      have hsplit : ((l, e) :: vis).map Prod.snd = [e] ++ vis.map Prod.snd := rfl
      rw [hsplit, List.count_append, List.count_append]
      omega

/-- A request stays until it is served. -/
theorem run_kept {vis : List (Lines × Event)} (h : Run Step l vis l') (hrequested : l.requested n = true) :
    l'.requested n = true ∨ .serve n ∈ vis.map Prod.snd := by
  induction h with
  | nil => exact .inl hrequested
  | @cons l e l₁ vis l' hstep _ ih =>
      have hnext : l₁.requested n = true ∨ e = .serve n := by
        cases hstep with
        | @raise m hdevice =>
            by_cases heq : n = m
            · rw [heq]
              exact .inl (Function.update_self _ _ _)
            · exact .inl ((Function.update_of_ne heq _ _).trans hrequested)
        | @serve m hnext =>
            by_cases heq : n = m
            · exact .inr (congrArg Event.serve heq.symm)
            · exact .inl ((Function.update_of_ne heq _ _).trans hrequested)
        | enable => exact .inl hrequested
        | same => exact .inl hrequested
      rw [List.map_cons, List.mem_cons]
      rcases hnext with hkept | rfl
      · exact (ih hkept).imp_right .inr
      · exact .inr (.inl rfl)

/-- **No request is lost**: it is served later, or it is still there. -/
theorem run_raise {vis pre post : List (Lines × Event)} {s : Lines} (h : Run Step l vis l')
    (hraise : vis = pre ++ (s, .raise n) :: post) : l'.requested n = true ∨ .serve n ∈ post.map Prod.snd := by
  subst hraise
  obtain ⟨t, -, hrest⟩ := h.split_append
  cases hrest with
  | cons hstep hpost =>
      refine run_kept hpost ?_
      cases hstep with
      | raise hdevice => exact Function.update_self _ _ _

/-- As long as the slave is not enabled, it is not served. -/
theorem run_slave {vis : List (Lines × Event)} (h : Run Step l vis l') (hoff : l.enabled (.master 2) = false)
    (hnever : .enable (some (.master 2)) true ∉ vis.map Prod.snd) (j : Fin 8) :
    .serve (.slave j) ∉ vis.map Prod.snd := by
  induction h with
  | nil => exact List.not_mem_nil
  | @cons l e l₁ vis l' hstep _ ih =>
      rw [List.map_cons, List.mem_cons, not_or] at hnever ⊢
      have hnext : l₁.enabled (.master 2) = false := by
        cases hstep with
        | raise => exact hoff
        | serve => exact hoff
        | enable m on =>
            by_cases heq : m = .master 2
            · subst heq
              cases on with
              | true => exact absurd rfl hnever.1
              | false => exact @Function.update_self _ _ _ (Line.master 2) false l.enabled
            · exact (Function.update_of_ne (Ne.symm heq) _ _).trans hoff
        | same => exact hoff
      refine ⟨?_, ih hnext hnever.2⟩
      rintro rfl
      cases hstep with
      | serve hready => exact absurd (hoff.symm.trans hready.1.1) Bool.false_ne_true

end Lines

end Lib
