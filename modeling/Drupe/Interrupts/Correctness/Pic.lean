import Drupe.Interrupts.Pic

/-!
# `Interrupts.Correctness.Pic` — every request is served once

`pic_init` brings the controllers into one state, whatever they were in, and `irq_handler` ends each interrupt at
the controllers that it came through. So between interrupts nothing is in service, and what is requested and
not masked is served, the most urgent line first (`pic_refines`), once for each time it was asked for and not
before (`pic_requests`).

Line 2 of the master, where the slave hangs, is masked by `pic_init`, and `irq_enable` does not see to it: lines
from 8 on stay dead until line 2 is enabled too (`pic_slave_dead`).
-/

namespace Drupe

open Lib

attribute [local instance] neZero_eight

/-! ## Masks -/

theorem shift_getLsbD (irq : UInt8) (hirq : irq < 32) {i : Nat} (hi : i < 32) :
    ((1 : UInt32) <<< irq.toUInt32).toBitVec.getLsbD i = decide (irq.toNat = i) := by
  have hnat : irq.toNat < 32 := UInt8.lt_iff_toNat_lt.mp hirq
  have hbits : (decide (i < 32) && !decide (i < irq.toNat % 32) && decide (i - irq.toNat % 32 = 0))
      = decide (irq.toNat = i) := by
    rw [Nat.mod_eq_of_lt hnat, Bool.eq_iff_iff]
    simp only [Bool.and_eq_true, Bool.not_eq_true', decide_eq_true_eq, decide_eq_false_iff_not]
    omega
  rw [UInt32.toBitVec_shiftLeft]
  simpa using hbits

/-- The bits that `irq_enable` leaves in a mask. -/
theorem enable_mask (mask : UInt8) {irq : UInt8} (hirq : irq < 32) (i : Fin 8) :
    ((mask.toUInt32 &&& ~~~(1 <<< irq.toUInt32)).toUInt8).toBitVec.getLsbD i
      = (mask.toBitVec.getLsbD i && !decide (irq.toNat = i)) := by
  have hi := i.isLt
  have hi' : i.val < 32 := Nat.lt_trans hi (by decide)
  rw [UInt32.toBitVec_toUInt8, BitVec.getLsbD_setWidth, UInt32.toBitVec_and, BitVec.getLsbD_and, UInt32.toBitVec_not,
    BitVec.getLsbD_not, shift_getLsbD irq hirq hi', UInt8.toBitVec_toUInt32, BitVec.getLsbD_setWidth]
  simp only [hi, hi', decide_true, Bool.true_and]

/-- Those that `irq_disable` leaves. -/
theorem disable_mask (mask : UInt8) {irq : UInt8} (hirq : irq < 32) (i : Fin 8) :
    ((mask.toUInt32 ||| 1 <<< irq.toUInt32).toUInt8).toBitVec.getLsbD i
      = (mask.toBitVec.getLsbD i || decide (irq.toNat = i)) := by
  have hi := i.isLt
  have hi' : i.val < 32 := Nat.lt_trans hi (by decide)
  rw [UInt32.toBitVec_toUInt8, BitVec.getLsbD_setWidth, UInt32.toBitVec_or, BitVec.getLsbD_or,
    shift_getLsbD irq hirq hi', UInt8.toBitVec_toUInt32, BitVec.getLsbD_setWidth]
  simp only [hi, hi', decide_true, Bool.true_and]

/-! ## Between two interrupts -/

/-- The controllers as `pic_init` sets them up, whatever is requested and masked. -/
structure Booted (p : Pic) : Prop where
  idle : p.Idle
  master : p.master.offset = 0x20
  slave : p.slave.offset = 0x28

/-- **`pic_init`**, from any state, also from the middle of another initialization. -/
theorem picInit_booted (p : Pic) : Booted (picInit p) := ⟨⟨⟨rfl, rfl, rfl⟩, ⟨rfl, rfl, rfl⟩, rfl⟩, rfl, rfl⟩

theorem picInit_lines (p : Pic) : (picInit p).lines = bootLines := by
  have hmaster : ∀ i : Fin 8, (!(0xFC : UInt8).toBitVec.getLsbD i) = decide (i = 0 ∨ i = 1) := by decide
  have hslave : ∀ i : Fin 8, (!(0xFF : UInt8).toBitVec.getLsbD i) = false := by decide
  unfold Pic.lines bootLines
  rw [Lines.mk.injEq]
  constructor
  · funext n
    cases n <;> rfl
  · funext n
    cases n with
    | master i =>
        refine (hmaster i).trans ?_
        simp only [Line.master.injEq]
    | slave j =>
        refine (hslave j).trans ?_
        simp

variable {p q : Pic}

/-- The vectors are those of the lines, 32 on. -/
theorem Booted.vector (h : Booted p) (n : Line) :
    lineAt (p.vector n - 32) = n ∧ (40 ≤ (p.vector n).toUInt32 ↔ ∃ j, n = .slave j) := by
  have hmaster : ∀ i : Fin 8, lineAt ((0x20 ||| UInt8.ofNat i.val) - 32) = .master i ∧
      ¬ 40 ≤ (0x20 ||| UInt8.ofNat i.val).toUInt32 := by decide
  have hslave : ∀ j : Fin 8, lineAt ((0x28 ||| UInt8.ofNat j.val) - 32) = .slave j ∧
      40 ≤ (0x28 ||| UInt8.ofNat j.val).toUInt32 := by decide
  cases n with
  | master i =>
      show lineAt ((p.master.offset ||| UInt8.ofNat i.val) - 32) = _ ∧ _
      rw [Pic.vector, h.master]
      exact ⟨(hmaster i).1, iff_of_false (hmaster i).2 nofun⟩
  | slave j =>
      show lineAt ((p.slave.offset ||| UInt8.ofNat j.val) - 32) = _ ∧ _
      rw [Pic.vector, h.slave]
      exact ⟨(hslave j).1, iff_of_true (hslave j).2 ⟨j, rfl⟩⟩

/-- What `irq_handler` writes to ports. -/
theorem irqHandler_ports {shell shell' : Option Shell} {scancode : UInt8} {f : InterruptFrame}
    {ports : List (UInt16 × UInt8)} (hcall : irqHandler shell scancode f = .ok (shell', ports)) :
    ports = (if f.intNo ≥ 40 then [(0xA0, 0x20)] else []) ++ [(0x20, 0x20)] := by
  unfold irqHandler at hcall
  cases shell with
  | none => exact (Prod.mk.inj (Except.ok.inj hcall)).2.symm
  | some sh =>
      by_cases htimer : f.intNo = 32
      · simp only [if_pos htimer] at hcall
        exact (Prod.mk.inj (Except.ok.inj hcall)).2.symm
      by_cases hkey : f.intNo = 33
      · simp only [if_neg htimer, if_pos hkey] at hcall
        split at hcall
        · exact (Prod.mk.inj (Except.ok.inj hcall)).2.symm
        · exact (Prod.mk.inj (Except.ok.inj hcall)).2.symm
      · simp only [if_neg htimer, if_neg hkey] at hcall
        obtain ⟨sh', -, hrest⟩ := bind_eq_ok.mp hcall
        exact (Prod.mk.inj (Except.ok.inj hrest)).2.symm

/-- **An interrupt.** -/
theorem Booted.irq (h : Booted p) {vector : UInt8} {shell shell' : Option Shell} {scancode : UInt8}
    {f : InterruptFrame} {ports : List (UInt16 × UInt8)} (hack : p.acknowledge = some (vector, q))
    (hframe : f.intNo = vector.toUInt32) (hhandler : irqHandler shell scancode f = .ok (shell', ports)) :
    p.lines.Next (lineAt (vector - 32)) ∧ q.outs ports = p.drop (lineAt (vector - 32)) := by
  obtain ⟨n, hnext, rfl, hends⟩ := Pic.acknowledge_spec h.idle hack
  obtain ⟨hline, hslave⟩ := h.vector n
  have hports : ports = Pic.ends n := by
    rw [irqHandler_ports hhandler, hframe]
    cases n with
    | master i =>
        rw [if_neg fun hlarge => nomatch hslave.mp hlarge]
        rfl
    | slave j =>
        rw [if_pos (hslave.mpr ⟨j, rfl⟩)]
        rfl
  rw [hline, hports]
  exact ⟨hnext, hends⟩

/-- The lines from 8 to 15, from the numbers that the slave has for them. -/
theorem lineAt_slave {irq : UInt8} (hirq : irq < 40) (hslave : ¬ irq < 8) (i : Fin 8) :
    (irq - 8).toNat = i ↔ irq < 16 ∧ lineAt irq = .slave i := by
  have h40 : irq.toNat < 40 := UInt8.lt_iff_toNat_lt.mp hirq
  have h8 : 8 ≤ irq.toNat := UInt8.le_iff_toNat_le.mp (UInt8.not_lt.mp hslave)
  have hsub : (irq - 8).toNat = irq.toNat - 8 := UInt8.toNat_sub_of_le _ _ (UInt8.le_iff_toNat_le.mpr h8)
  have hi := i.isLt
  rw [lineAt, if_neg hslave, Line.slave.injEq, Fin.ext_iff, Fin.val_ofNat, UInt8.lt_iff_toNat_lt, hsub]
  show _ ↔ irq.toNat < 16 ∧ irq.toNat % 8 = i.val
  omega

theorem lineAt_master {irq : UInt8} (hmaster : irq < 8) (i : Fin 8) : irq.toNat = i ↔ lineAt irq = .master i := by
  have h8 : irq.toNat < 8 := UInt8.lt_iff_toNat_lt.mp hmaster
  rw [lineAt, if_pos hmaster, Line.master.injEq, Fin.ext_iff, Fin.val_ofNat, Nat.mod_eq_of_lt h8]

/-- **The bit of a line is written** to the mask of its controller, and the others stay. -/
theorem Booted.setMask (h : Booted p) {irq : UInt8} (hirq : irq < 40) (on : Bool) (value : UInt8 → UInt8 → UInt8)
    (hvalue : ∀ mask irq : UInt8, irq < 32 → ∀ i : Fin 8, (value mask irq).toBitVec.getLsbD i
      = if irq.toNat = i then !on else mask.toBitVec.getLsbD i) :
    let q := if irq < 8 then p.out 0x21 (value p.master.mask irq) else p.out 0xA1 (value p.slave.mask (irq - 8))
    Booted q ∧ Lines.Step p.lines (.enable (if irq < 16 then some (lineAt irq) else none) on) q.lines := by
  by_cases hmaster : irq < 8
  · have h16 : irq < 16 := UInt8.lt_trans hmaster (by decide)
    have hlines : (p.out 0x21 (value p.master.mask irq)).lines
        = { p.lines with enabled := Function.update p.lines.enabled (lineAt irq) on } := by
      rw [Pic.out_master_mask h.idle]
      unfold Pic.lines
      simp only [Lines.mk.injEq, true_and]
      funext n
      cases n with
      | master i =>
          show (!(value p.master.mask irq).toBitVec.getLsbD i) = _
          rw [hvalue _ _ (UInt8.lt_trans hmaster (by decide)), Function.update_apply]
          simp only [lineAt_master hmaster, eq_comm (a := Line.master i)]
          split
          · exact Bool.not_not on
          · rfl
      | slave j =>
          rw [Function.update_of_ne]
          rw [lineAt, if_pos hmaster]
          nofun
    simp only [if_pos hmaster, if_pos h16, hlines]
    refine ⟨?_, .enable _ _ _⟩
    rw [Pic.out_master_mask h.idle]
    exact ⟨⟨⟨h.idle.master.inService, h.idle.master.autoEnd, h.idle.master.expects⟩, h.idle.slave, h.idle.cascade⟩,
      h.master, h.slave⟩
  · have hsmall : irq - 8 < 32 := by
      have h40 : irq.toNat < 40 := UInt8.lt_iff_toNat_lt.mp hirq
      rw [UInt8.lt_iff_toNat_lt, UInt8.toNat_sub_of_le _ _ (UInt8.not_lt.mp hmaster)]
      show irq.toNat - 8 < 32
      omega
    have hlines : (p.out 0xA1 (value p.slave.mask (irq - 8))).lines = { p.lines with
        enabled := fun n => if irq < 16 ∧ lineAt irq = n then on else p.lines.enabled n } := by
      rw [Pic.out_slave_mask h.idle]
      unfold Pic.lines
      simp only [Lines.mk.injEq, true_and]
      funext n
      cases n with
      | master i =>
          rw [if_neg]
          rw [lineAt, if_neg hmaster]
          nofun
      | slave j =>
          show (!(value p.slave.mask (irq - 8)).toBitVec.getLsbD j) = _
          rw [hvalue _ _ hsmall]
          simp only [lineAt_slave hirq hmaster]
          split
          · exact Bool.not_not on
          · rfl
    simp only [if_neg hmaster, hlines]
    constructor
    · rw [Pic.out_slave_mask h.idle]
      exact ⟨⟨h.idle.master, ⟨h.idle.slave.inService, h.idle.slave.autoEnd, h.idle.slave.expects⟩, h.idle.cascade⟩,
        h.master, h.slave⟩
    · by_cases h16 : irq < 16
      · have hupdate : (fun n => if irq < 16 ∧ lineAt irq = n then on else p.lines.enabled n)
            = Function.update p.lines.enabled (lineAt irq) on := by
          funext n
          rw [Function.update_apply]
          simp only [h16, true_and, eq_comm (a := n)]
        rw [hupdate, if_pos h16]
        exact .enable _ _ _
      · simp only [h16, false_and, if_false]
        exact .same _ _

theorem irqEnable_eq (irq : UInt8) (p : Pic) : irqEnable irq p =
    if irq < 8 then p.out 0x21 (p.master.mask.toUInt32 &&& ~~~(1 <<< irq.toUInt32)).toUInt8
    else p.out 0xA1 (p.slave.mask.toUInt32 &&& ~~~(1 <<< (irq - 8).toUInt32)).toUInt8 := by
  unfold irqEnable
  by_cases hmaster : irq < 8
  · simp only [if_pos hmaster]
    rfl
  · simp only [if_neg hmaster]
    rfl

theorem irqDisable_eq (irq : UInt8) (p : Pic) : irqDisable irq p =
    if irq < 8 then p.out 0x21 (p.master.mask.toUInt32 ||| 1 <<< irq.toUInt32).toUInt8
    else p.out 0xA1 (p.slave.mask.toUInt32 ||| 1 <<< (irq - 8).toUInt32).toUInt8 := by
  unfold irqDisable
  by_cases hmaster : irq < 8
  · simp only [if_pos hmaster]
    rfl
  · simp only [if_neg hmaster]
    rfl

/-- **Step lemma.** -/
theorem Booted.step (h : Booted p) {e : PicEvent} (hstep : PicStep p e q) :
    Booted q ∧ Lines.Step p.lines e.onLines q.lines := by
  cases hstep with
  | @raise n hdevice =>
      rw [Pic.lines_raise]
      refine ⟨⟨h.idle.raise hdevice, ?_, ?_⟩, .raise _ hdevice⟩
      · cases n <;> exact h.master
      · cases n <;> exact h.slave
  | irq hack hframe hhandler =>
      obtain ⟨hnext, hdrop⟩ := h.irq hack hframe hhandler
      rw [hdrop, Pic.lines_drop]
      refine ⟨⟨h.idle.drop _, ?_, ?_⟩, .serve hnext⟩
      · cases lineAt _ <;> exact h.master
      · cases lineAt _ <;> exact h.slave
  | @enable irq hirq =>
      rw [irqEnable_eq]
      refine h.setMask hirq true (fun mask irq => (mask.toUInt32 &&& ~~~(1 <<< irq.toUInt32)).toUInt8)
        fun mask irq hlt i => ?_
      rw [enable_mask mask hlt i]
      by_cases heq : irq.toNat = i
      · rw [if_pos heq, decide_eq_true heq]
        exact Bool.and_false _
      · rw [if_neg heq, decide_eq_false heq, Bool.not_false, Bool.and_true]
  | @disable irq hirq =>
      rw [irqDisable_eq]
      refine h.setMask hirq false (fun mask irq => (mask.toUInt32 ||| 1 <<< irq.toUInt32).toUInt8)
        fun mask irq hlt i => ?_
      rw [disable_mask mask hlt i]
      by_cases heq : irq.toNat = i
      · rw [if_pos heq, decide_eq_true heq, Bool.or_true]
        rfl
      · rw [if_neg heq, decide_eq_false heq, Bool.or_false]

/-! ## Runs -/

/-- A run of the controllers is a run of what they are for. -/
theorem Booted.run (h : Booted p) {vis : List (Pic × PicEvent)} (hrun : Run PicStep p vis q) :
    Booted q ∧ Run Lines.Step p.lines (vis.map fun x => (x.1.lines, x.2.onLines)) q.lines :=
  ⟨hrun.invariant (fun _ _ _ hp hstep => (hp.step hstep).1) h,
    hrun.refines (fun _ _ _ hp hstep => (hp.step hstep).1) (fun _ _ _ hp hstep => (hp.step hstep).2) h⟩

/-- **The controllers serve the most urgent request.** From any state before `pic_init`, every run of requests,
    interrupts, and calls of `irq_enable` and `irq_disable` is a run of the set of requests that the controllers
    stand for. In the end nothing is in service, and where a line is ready, the processor can take an interrupt,
    of the line that is next. -/
theorem pic_refines (p₀ : Pic) {vis : List (Pic × PicEvent)} (hrun : Run PicStep (picInit p₀) vis q) :
    Run Lines.Step bootLines (vis.map fun x => (x.1.lines, x.2.onLines)) q.lines ∧
      (∀ i, q.master.inService i = false ∧ q.slave.inService i = false) ∧
      ∀ n, q.lines.Ready n → ∃ vector q', q.acknowledge = some (vector, q') ∧ q.lines.Next (lineAt (vector - 32)) := by
  obtain ⟨hq, hlines⟩ := (picInit_booted p₀).run hrun
  rw [picInit_lines] at hlines
  refine ⟨hlines, fun i => ?_, fun n hready => ?_⟩
  · exact ⟨congrFun hq.idle.master.inService i, congrFun hq.idle.slave.inService i⟩
  obtain ⟨⟨vector, q'⟩, hack⟩ := Option.isSome_iff_exists.mp (Pic.acknowledge_isSome hq.idle hready)
  obtain ⟨m, hnext, rfl, -⟩ := Pic.acknowledge_spec hq.idle hack
  refine ⟨_, q', hack, ?_⟩
  rw [(hq.vector m).1]
  exact hnext

/-- Controllers that nobody has set up. -/
def coldPic : Pic where
  master := ⟨fun _ => false, fun _ => true, 0, 0, false, .mask⟩
  slave := ⟨fun _ => true, fun _ => false, 0, 8, true, .mode⟩

/-- A key is pressed. -/
theorem pic_refines_key : ∃ vector q', ((picInit coldPic).raise (.master 1)).acknowledge = some (vector, q') ∧
    ((picInit coldPic).raise (.master 1)).lines.Next (lineAt (vector - 32)) := by
  have hrun : Run PicStep (picInit coldPic) _ _ := .cons (@PicStep.raise _ (.master 1) (by decide)) .nil
  exact (pic_refines coldPic hrun).2.2 (.master 1) ⟨by decide, rfl, rfl⟩

theorem onLines_serve {e : PicEvent} {n : Line} (h : e.onLines = .serve n) :
    ∃ vector, e = .irq vector ∧ lineAt (vector - 32) = n := by
  cases e with
  | irq vector => exact ⟨vector, rfl, Lines.Event.serve.inj h⟩
  | raise m => cases h
  | enable k => cases h
  | disable k => cases h

theorem onLines_raise {e : PicEvent} {n : Line} : e.onLines = .raise n ↔ e = .raise n := by
  cases e with
  | raise m => exact Lines.Event.raise.injEq m n ▸ PicEvent.raise.injEq m n ▸ Iff.rfl
  | irq vector => exact iff_of_false nofun nofun
  | enable k => exact iff_of_false nofun nofun
  | disable k => exact iff_of_false nofun nofun

/-- Line 2 is enabled by its number only. -/
theorem onLines_cascade {e : PicEvent} (h : e.onLines = .enable (some (.master 2)) true) : e = .enable 2 := by
  cases e with
  | raise m => cases h
  | irq vector => cases h
  | disable k => exact absurd (Lines.Event.enable.inj h).2 Bool.false_ne_true
  | enable k =>
      obtain ⟨hline, -⟩ := Lines.Event.enable.inj h
      by_cases h16 : k < 16
      · rw [if_pos h16] at hline
        have hat : lineAt k = .master 2 := Option.some.inj hline
        by_cases h8 : k < 8
        · exact congrArg PicEvent.enable (UInt8.toNat_inj.mp ((lineAt_master h8 2).mpr hat))
        · rw [lineAt, if_neg h8] at hat
          cases hat
      · rw [if_neg h16] at hline
        cases hline

/-- **No interrupt is lost, and none comes twice.** In every run from `pic_init`, a line interrupts at most as often as
    it was asked for, and after each request it does, or the request is still there. -/
theorem pic_requests (p₀ : Pic) {vis : List (Pic × PicEvent)} (hrun : Run PicStep (picInit p₀) vis q) (n : Line) :
    (vis.map fun x => x.2.onLines).count (.serve n) + (q.lines.requested n).toNat
      ≤ (vis.map Prod.snd).count (.raise n) ∧
    ∀ pre s post, vis = pre ++ (s, .raise n) :: post → q.lines.requested n = true ∨
      ∃ vector, .irq vector ∈ post.map Prod.snd ∧ lineAt (vector - 32) = n := by
  obtain ⟨-, hlines⟩ := (picInit_booted p₀).run hrun
  rw [picInit_lines] at hlines
  constructor
  · have hcount := Lines.run_count hlines n
    have hraise : (vis.map fun x => x.2.onLines).count (.raise n) = (vis.map Prod.snd).count (.raise n) := by
      unfold List.count
      rw [List.countP_map, List.countP_map]
      refine List.countP_congr fun x _ => ?_
      simp only [Function.comp_apply, beq_iff_eq, onLines_raise]
    rw [List.map_map] at hcount
    have hnone : (bootLines.requested n).toNat = 0 := rfl
    rw [hnone, Nat.add_zero] at hcount
    rw [← hraise]
    exact hcount
  · rintro pre s post rfl
    rw [List.map_append, List.map_cons] at hlines
    refine (Lines.run_raise hlines rfl).imp_right fun hserve => ?_
    rw [List.map_map, List.mem_map] at hserve
    obtain ⟨x, hx, heq⟩ := hserve
    obtain ⟨vector, hvector, hline⟩ := onLines_serve heq
    exact ⟨vector, List.mem_map.mpr ⟨x, hx, hvector⟩, hline⟩

/-- A key is pressed, and it comes. -/
theorem pic_requests_key : ∃ q', ((picInit coldPic).raise (.master 1)).acknowledge = some (33, q') ∧
    (q'.out 0x20 0x20).lines.requested (.master 1) = false := by
  have hraise : PicStep (picInit coldPic) (.raise (.master 1)) _ := .raise _ (by decide)
  have hirq : PicStep _ (.irq 33) _ := @PicStep.irq ((picInit coldPic).raise (.master 1)) _ 33 none none 0
    ⟨0, 0, 0, 0, 0, 0, 0, 0, 0, 0, 0, 0, 33, 0, 0, 0, 0, 0, 0⟩ _ rfl rfl rfl
  have hone := (pic_requests coldPic (.cons hraise (.cons hirq .nil)) (.master 1)).1
  refine ⟨_, rfl, ?_⟩
  by_contra hstill
  rw [Bool.not_eq_false] at hstill
  have htwice : 1 + true.toNat ≤ 1 := by
    rw [← hstill]
    exact hone
  exact absurd htwice (by decide)

/-- **The slave is dead until line 2 is enabled.** Whatever lines `irq_enable` is called for, if 2 is not among them,
    no line from 8 on interrupts, and what its device asks for stays undone. -/
theorem pic_slave_dead (p₀ : Pic) {vis : List (Pic × PicEvent)} (hrun : Run PicStep (picInit p₀) vis q)
    (hnever : .enable 2 ∉ vis.map Prod.snd) :
    (∀ vector, .irq vector ∈ vis.map Prod.snd → ∃ i, lineAt (vector - 32) = .master i) ∧
      ∀ j, .raise (.slave j) ∈ vis.map Prod.snd → q.lines.requested (.slave j) = true := by
  obtain ⟨-, hlines⟩ := (picInit_booted p₀).run hrun
  rw [picInit_lines] at hlines
  have hnever' : Lines.Event.enable (some (.master 2)) true
      ∉ (vis.map fun x => (x.1.lines, x.2.onLines)).map Prod.snd := by
    rw [List.map_map, List.mem_map]
    rintro ⟨x, hx, heq⟩
    exact hnever (List.mem_map.mpr ⟨x, hx, onLines_cascade heq⟩)
  constructor
  · intro vector hirq
    cases hline : lineAt (vector - 32) with
    | master i => exact ⟨i, rfl⟩
    | slave j =>
        refine absurd ?_ (Lines.run_slave hlines (by decide) hnever' j)
        obtain ⟨x, hx, heq⟩ := List.mem_map.mp hirq
        rw [List.map_map, List.mem_map]
        refine ⟨x, hx, ?_⟩
        show x.2.onLines = _
        rw [heq, PicEvent.onLines, hline]
  · intro j hraise
    obtain ⟨x, hx, heq⟩ := List.mem_map.mp hraise
    obtain ⟨pre, post, rfl⟩ := List.append_of_mem hx
    rw [List.map_append, List.map_cons, heq] at hlines
    rw [List.map_append, List.map_cons, heq] at hnever'
    refine (Lines.run_raise hlines rfl).resolve_right fun hserve => ?_
    apply Lines.run_slave hlines (by decide) hnever' j
    rw [List.map_append, List.mem_append]
    exact .inr (List.mem_cons_of_mem _ hserve)

/-- A device of the slave asks for an interrupt after its line was enabled. -/
theorem pic_slave_dead_clock :
    ((irqEnable 8 (picInit coldPic)).raise (.slave 0)).lines.requested (.slave 0) = true := by
  have hrun : Run PicStep (picInit coldPic) _ _ :=
    .cons (@PicStep.enable _ 8 (by decide)) (.cons (@PicStep.raise _ (.slave 0) (by decide)) .nil)
  exact (pic_slave_dead coldPic hrun (by decide)).2 0 (by decide)

end Drupe
