import Drupe.Interrupts.Correctness.Pic
import Drupe.System.Board
import Drupe.System.Correctness.Progress

/-!
# `System.Correctness.Board` — ticks and keys

After `pic_init`, and as long as the program leaves their ports alone, the controllers only ever name the vectors of
the timer and of the keyboard, which are the two that have gates. So every run of the board is a run of the machine,
whose properties it has, and beside it a run of the requests (`board_refines`): each tick and each key is served once.
And what is asked for can be served as long as the machine did not halt (`board_live`).
-/

namespace Drupe

open Lib Lib.X86

variable {u : Setup} {program : UserCode} {m m' : Machine} {sc₀ : Screen} {o : Os}

/-- The handler of a hardware interrupt, and what it writes. -/
theorem Machine.Realizes.irq_writes (h : m.Realizes sc₀ o) {vector : Nat} {scancode : UInt8}
    {ports : List (UInt16 × UInt8)} (hrunning : o.place ≠ .halted) (hlow : 32 ≤ vector) (hhigh : vector < 48)
    (hserved : Served u m vector 0 scancode ports m') :
    ∃ shell f, f.intNo = UInt32.ofNat vector ∧ irqHandler m.shell scancode f = .ok (shell, ports) := by
  cases hserved with
  | exception hentered hhandler hreturned hframe' hback =>
      obtain ⟨stub, typeAttr, hcall, hhand, -⟩ := hentered.call
      rw [((idtCalls_handler _ hcall).2.1 hlow hhigh).1] at hhand
      cases hhand
  | halt hentered hshell hhandler hreport =>
      obtain ⟨stub, typeAttr, hcall, hhand, -⟩ := hentered.call
      rw [((idtCalls_handler _ hcall).2.1 hlow hhigh).1] at hhand
      cases hhand
  | @irq before after resumed rest shell ports hentered hhandler hreturned hkept hback =>
      obtain ⟨stub, typeAttr, hcall, -, rfl, -⟩ := hentered.call
      exact ⟨shell, passedFrame before, (h.served hrunning hentered hreturned hkept hback).1, hhandler⟩

/-- The board between two steps. -/
structure Board.Inv (sc₀ : Screen) (b : Board) : Prop where
  machine : ∃ o, b.machine.Realizes sc₀ o
  pic : Booted b.pic
  enabled : b.pic.lines.enabled = bootLines.enabled

variable {b b' : Board}

/-- Only the timer and the keyboard are ever ready. -/
theorem Board.Inv.ready (h : b.Inv sc₀) {n : Line} (hready : b.pic.lines.Ready n) : n = .master 0 ∨ n = .master 1 := by
  have henabled := hready.enabled
  rw [h.enabled] at henabled
  exact of_decide_eq_true henabled

theorem Board.Inv.ready_of_requested (h : b.Inv sc₀) {n : Line} (hn : n = .master 0 ∨ n = .master 1)
    (hrequested : b.pic.lines.requested n = true) : b.pic.lines.Ready n := by
  have henabled : b.pic.lines.enabled n = true := by
    rw [h.enabled]
    exact decide_eq_true hn
  rcases hn with rfl | rfl
  · exact ⟨by decide, hrequested, henabled⟩
  · exact ⟨by decide, hrequested, henabled⟩

/-- What the controllers name. -/
theorem Board.Inv.vector (h : b.Inv sc₀) {vector : UInt8} {q : Pic} (hack : b.pic.acknowledge = some (vector, q)) :
    vector = 32 ∨ vector = 33 := by
  obtain ⟨n, hnext, rfl, -⟩ := Pic.acknowledge_spec h.pic.idle hack
  rcases h.ready hnext.1 with rfl | rfl
  · refine .inl ?_
    rw [Pic.vector, h.pic.master]
    decide
  · refine .inr ?_
    rw [Pic.vector, h.pic.master]
    decide

/-- **Step lemma.** -/
theorem Board.Inv.step (h : b.Inv sc₀) {e : Board.Event} (hstep : Board.Step u program b e b') :
    b'.Inv sc₀ ∧ (∀ k, e.onMachine = some k → Machine.Step u program b.machine k b'.machine) ∧
      (∀ k, e.onLines = some k → Lines.Step b.pic.lines k b'.pic.lines) := by
  obtain ⟨o, ho⟩ := h.machine
  cases hstep with
  | cpu p hstep hnot =>
      obtain ⟨o', -, ho'⟩ := ho.step hstep
      refine ⟨⟨⟨o', ho'⟩, h.pic, h.enabled⟩, ?_, nofun⟩
      rintro k ⟨⟩
      exact hstep
  | @raise m p n hdevice =>
      obtain ⟨hpic, hlines⟩ := h.pic.step (.raise p hdevice)
      refine ⟨⟨⟨o, ho⟩, hpic, ?_⟩, nofun, ?_⟩
      · rw [Pic.lines_raise]
        exact h.enabled
      · rintro k ⟨⟩
        exact hlines
  | @irq m m' p q vector scancode ports henabled hack hserved =>
      have hvector := h.vector hack
      have hlow : 32 ≤ vector.toNat := by
        rcases hvector with rfl | rfl <;> decide
      have hhigh : vector.toNat < 48 := by
        rcases hvector with rfl | rfl <;> decide
      obtain ⟨shell, f, hframe, hhandler⟩ := ho.irq_writes (ho.enabled.mp henabled) hlow hhigh hserved
      have hmachine : Machine.Step u program m (.irq vector.toNat scancode) m' := .irq henabled hlow hhigh hserved
      have hframe' : f.intNo = vector.toUInt32 := by
        rw [hframe]
        rcases hvector with rfl | rfl <;> rfl
      obtain ⟨o', -, ho'⟩ := ho.step hmachine
      obtain ⟨hpic, hlines⟩ := h.pic.step (.irq hack hframe' hhandler)
      obtain ⟨-, hdrop⟩ := h.pic.irq hack hframe' hhandler
      refine ⟨⟨⟨o', ho'⟩, hpic, ?_⟩, ?_, ?_⟩
      · rw [hdrop, Pic.lines_drop]
        exact h.enabled
      · rintro k ⟨⟩
        exact hmachine
      · rintro k ⟨⟩
        exact hlines

/-- What a projection leaves out does not change. -/
theorem Board.Step.unseen {e : Board.Event} (hstep : Board.Step u program b e b') :
    (e.onMachine = none → b'.machine = b.machine) ∧ (e.onLines = none → b'.pic = b.pic) := by
  cases hstep with
  | cpu => exact ⟨nofun, fun _ => rfl⟩
  | raise => exact ⟨fun _ => rfl, nofun⟩
  | irq => exact ⟨nofun, nofun⟩

/-- Without the controllers, a run of the board is a run of the machine. -/
theorem Board.Inv.machine_run (h : b.Inv sc₀) {vis : List (Board × Board.Event)}
    (hrun : Run (Board.Step u program) b vis b') : ∃ mvis, Run (Machine.Step u program) b.machine mvis b'.machine ∧
      mvis.map Prod.snd = vis.filterMap fun x => x.2.onMachine :=
  hrun.projects (f := Board.machine) (fun _ _ _ hb hstep => (hb.step hstep).1)
    (fun _ _ _ k hb hstep => (hb.step hstep).2.1 k) (fun _ _ _ _ hstep => hstep.unseen.1) h

/-- The controllers after `pic_init`. -/
theorem Board.inv_realizes (ho : m.Realizes sc₀ o) (p₀ : Pic) : Board.Inv sc₀ ⟨m, picInit p₀⟩ :=
  ⟨⟨o, ho⟩, picInit_booted p₀, by rw [picInit_lines]⟩

/-- A user program is entered after `pic_init`. -/
theorem Board.inv_start (hplace : m.place = .program) (hring : rpl m.state.cpu.cs = 3)
    (henabled : interruptsEnabled m.state.cpu.eflags) {sh : Shell} (hshell : m.shell = some sh)
    (hreach : sh.Reachable) (p₀ : Pic) : ∃ sc₀, Board.Inv sc₀ ⟨m, picInit p₀⟩ := by
  obtain ⟨sc₀, con, hsh, -⟩ := hreach.shows
  exact ⟨sc₀, Board.inv_realizes (Machine.realizes_start hplace hring henabled hshell hsh) p₀⟩

/-- **The board is a machine and a set of requests.** From a machine in a user program, and the controllers in any state
    before `pic_init`: every run of the board is a run of the machine, whose interrupts by hardware are those that
    the controllers name, the timer and the keyboard and nothing else, and a run of the requests, the most urgent
    one first. -/
theorem board_refines (hplace : m.place = .program) (hring : rpl m.state.cpu.cs = 3)
    (henabled : interruptsEnabled m.state.cpu.eflags) {sh : Shell} (hshell : m.shell = some sh)
    (hreach : sh.Reachable) (p₀ : Pic) {vis : List (Board × Board.Event)}
    (hrun : Run (Board.Step u program) ⟨m, picInit p₀⟩ vis b) :
    (∃ mvis, Run (Machine.Step u program) m mvis b.machine ∧
      mvis.map Prod.snd = vis.filterMap fun x => x.2.onMachine) ∧
    (∃ lvis, Run Lines.Step bootLines lvis b.pic.lines ∧
      lvis.map Prod.snd = vis.filterMap fun x => x.2.onLines) ∧
    ∀ vector scancode, .irq vector scancode ∈ vis.map Prod.snd → vector = 32 ∨ vector = 33 := by
  obtain ⟨sc₀, hstart⟩ := Board.inv_start hplace hring henabled hshell hreach p₀
  have hkeep : ∀ ⦃b : Board⦄ ⦃e b'⦄, b.Inv sc₀ → Board.Step u program b e b' → b'.Inv sc₀ :=
    fun _ _ _ hb hstep => (hb.step hstep).1
  refine ⟨hstart.machine_run hrun, ?_, fun vector scancode hirq => ?_⟩
  · have hlines := hrun.projects (f := fun b => b.pic.lines) hkeep (fun _ _ _ k hb hstep => (hb.step hstep).2.2 k)
      (fun _ _ _ _ hstep hnone => congrArg Pic.lines (hstep.unseen.2 hnone)) hstart
    rw [show (Board.mk m (picInit p₀)).pic.lines = bootLines from picInit_lines p₀] at hlines
    exact hlines
  · obtain ⟨x, hx, heq⟩ := List.mem_map.mp hirq
    obtain ⟨hb, b', hstep⟩ := hrun.visited_invariant hkeep hstart x hx
    rw [heq] at hstep
    obtain ⟨before, e⟩ := x
    cases hstep with
    | irq henabled hack hserved => exact hb.vector hack

/-- A key is pressed before an instruction. -/
theorem board_refines_key : ∃ b mvis lvis, Run (Board.Step stubsInOrder nops) ⟨getpidMachine, picInit coldPic⟩
    [(⟨getpidMachine, picInit coldPic⟩, .raise (.master 1)),
      (⟨getpidMachine, (picInit coldPic).raise (.master 1)⟩, .cpu .exec)] b ∧
    Run (Machine.Step stubsInOrder nops) getpidMachine mvis b.machine ∧ mvis.map Prod.snd = [.exec] ∧
    Run Lines.Step bootLines lvis b.pic.lines ∧ lvis.map Prod.snd = [.raise (.master 1)] := by
  have hrun : Run (Board.Step stubsInOrder nops) ⟨getpidMachine, picInit coldPic⟩ _ _ :=
    .cons (.raise _ _ (show Line.master 1 ≠ .master 2 by decide)) (.cons (.cpu _ (.exec rfl (nops_stays _ _ _)) nofun) .nil)
  obtain ⟨⟨mvis, hmachine, hevents⟩, ⟨lvis, hlines, hevents'⟩, -⟩ :=
    board_refines rfl (by decide) (by decide) rfl bootShell_reachable coldPic hrun
  exact ⟨_, mvis, lvis, hrun, hmachine, hevents, hlines, hevents'⟩

/-- **What is asked for is served.** In every run of the board, nothing is in service between two steps; and unless the
    machine halted, a tick or a key that was asked for and not served leaves an interrupt that the processor can
    take and serve, whatever the keyboard has at its port. -/
theorem board_live (hplace : m.place = .program) (hring : rpl m.state.cpu.cs = 3)
    (henabled : interruptsEnabled m.state.cpu.eflags) {sh : Shell} (hshell : m.shell = some sh)
    (hreach : sh.Reachable) (p₀ : Pic) {vis : List (Board × Board.Event)}
    (hrun : Run (Board.Step u program) ⟨m, picInit p₀⟩ vis b) :
    (∀ i, b.pic.master.inService i = false ∧ b.pic.slave.inService i = false) ∧
    (b.machine.place ≠ .halted → ∀ n, n = .master 0 ∨ n = .master 1 → b.pic.lines.requested n = true →
      ∃ vector, b.pic.lines.Next (lineAt (vector - 32)) ∧
        ∀ scancode, ∃ b', Board.Step u program b (.irq vector scancode) b') := by
  obtain ⟨sc₀, hstart⟩ := Board.inv_start hplace hring henabled hshell hreach p₀
  have hb := hrun.invariant (fun _ _ _ hb hstep => (hb.step hstep).1) hstart
  refine ⟨fun i => ⟨congrFun hb.pic.idle.master.inService i, congrFun hb.pic.idle.slave.inService i⟩, ?_⟩
  intro hrunning n hn hrequested
  have hready := hb.ready_of_requested hn hrequested
  obtain ⟨⟨vector, q⟩, hack⟩ := Option.isSome_iff_exists.mp (Pic.acknowledge_isSome hb.pic.idle hready)
  have hnext : b.pic.lines.Next (lineAt (vector - 32)) := by
    obtain ⟨n', hnext, rfl, -⟩ := Pic.acknowledge_spec hb.pic.idle hack
    rw [(hb.pic.vector n').1]
    exact hnext
  refine ⟨vector, hnext, fun scancode => ?_⟩
  obtain ⟨o, ho⟩ := hb.machine
  obtain ⟨sh', hshell', -⟩ := ho.shell
  have hvector : vector.toNat = 32 ∨ vector.toNat = 33 :=
    (hb.vector hack).imp (congrArg UInt8.toNat) (congrArg UInt8.toNat)
  obtain ⟨ports, m', hserved⟩ := serves_irq u hshell' hvector 0 scancode
  have henabled' : interruptsEnabled b.machine.state.cpu.eflags := ho.enabled.mpr (by rw [← ho.place]; exact hrunning)
  exact ⟨_, .irq henabled' hack hserved⟩

/-- A tick was asked for. -/
theorem board_live_tick : ∃ vector, ∀ scancode, ∃ b', Board.Step stubsInOrder nops
    ⟨getpidMachine, (picInit coldPic).raise (.master 0)⟩ (.irq vector scancode) b' := by
  have hrun : Run (Board.Step stubsInOrder nops) ⟨getpidMachine, picInit coldPic⟩ _ _ :=
    .cons (.raise _ _ (show Line.master 0 ≠ .master 2 by decide)) .nil
  obtain ⟨vector, -, hserved⟩ := (board_live rfl (by decide) (by decide) rfl bootShell_reachable coldPic hrun).2 nofun
    (.master 0) (.inl rfl) rfl
  exact ⟨vector, hserved⟩

end Drupe
