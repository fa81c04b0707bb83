import Drupe.System.Correctness.Progress

/-!
# `System.Correctness.Left` — after the program

`exit_to_kernel` does not return and neither does the loop of `interrupt_handler`, so there is no way back into
a program that was left, if it did not write to the kernel before. What runs then runs in ring 0, and the loop of
`exit_to_kernel` finds the registers that it had, its stack pointer among them, after any number of interrupts.
-/

namespace Drupe

open Lib Lib.X86

variable {u : Setup} {program : UserCode} {m m' : Machine} {sc₀ : Screen} {o : Os}

/-- One step outside of the program: `exit_to_kernel` gets to its loop, or there is an interrupt, which is not
    seen where it comes. -/
theorem Machine.Realizes.left_step (h : m.Realizes sc₀ o) (hleft : m.place ≠ .program) {e : Event}
    (hstep : Machine.Step u program m e m') :
    m'.mem = m.mem ∧
      ((e = .settle ∧ m.place = .exiting ∧ m'.place = .idle) ∨
        (m.place ≠ .halted ∧ m'.place = m.place ∧ m'.state.cpu = m.state.cpu ∧
          ∃ vector scancode, e = .irq vector scancode)) := by
  cases hstep with
  | exec hplace => exact absurd hplace hleft
  | int hplace => exact absurd hplace hleft
  | intDenied hplace => exact absurd hplace hleft
  | fault hplace => exact absurd hplace hleft
  | settle hplace => exact ⟨rfl, .inl ⟨rfl, hplace, rfl⟩⟩
  | @irq _ vector scancode ports henabled hlow hhigh hserved =>
      obtain ⟨o', hnext, ho', hcpu⟩ :=
        @Machine.Realizes.irq _ _ program _ _ _ _ h scancode ports henabled hlow hhigh hserved
      have hsame : o'.mem = o.mem ∧ o'.place = o.place := by
        cases hnext <;> exact ⟨rfl, rfl⟩
      refine ⟨ho'.mem.trans (hsame.1.trans h.mem.symm), .inr ⟨?_, ?_, hcpu, vector, scancode, rfl⟩⟩
      · rw [h.place]
        exact h.enabled.mp henabled
      · exact ho'.place.trans (hsame.2.trans h.place.symm)

/-- `exit_to_kernel` gets to its loop at most once. -/
theorem Machine.Realizes.left_run (h : m.Realizes sc₀ o) (hleft : m.place ≠ .program) {vis : List (Machine × Event)}
    (hrun : Run (Machine.Step u program) m vis m') :
    (∃ o', m'.Realizes sc₀ o') ∧ m'.place ≠ .program ∧ m'.mem = m.mem ∧
      (∀ x ∈ vis, x.2 = .settle ∨ ∃ vector scancode, x.2 = .irq vector scancode) ∧
      (vis.map Prod.snd).count .settle ≤ (if m.place = .exiting then 1 else 0) ∧
      (m.place = .idle → m'.place = .idle ∧ m'.state.cpu = m.state.cpu) ∧ (m.place = .halted → vis = []) := by
  induction hrun generalizing o with
  | nil => exact ⟨⟨o, h⟩, hleft, rfl, nofun, Nat.zero_le _, fun hidle => ⟨hidle, rfl⟩, fun _ => rfl⟩
  | @cons m e m₁ vis m' hstep _ ih =>
      obtain ⟨o₁, -, h₁⟩ := h.step hstep
      obtain ⟨hmem, hcases⟩ := h.left_step hleft hstep
      rcases hcases with ⟨rfl, hexiting, hidle⟩ | ⟨hrunning, hplace, hcpu, vector, scancode, rfl⟩
      · obtain ⟨hreal, hlast, hmem', hevents, hcount, -⟩ := ih h₁ (by rw [hidle]; nofun)
        rw [hidle, if_neg (by nofun), Nat.le_zero] at hcount
        refine ⟨hreal, hlast, hmem'.trans hmem, ?_, ?_, ?_, ?_⟩
        · intro x hx
          rcases List.mem_cons.mp hx with rfl | hx
          · exact .inl rfl
          · exact hevents x hx
        · rw [List.map_cons, List.count_cons_self, hcount, if_pos hexiting]
        · rw [hexiting]
          nofun
        · rw [hexiting]
          nofun
      · obtain ⟨hreal, hlast, hmem', hevents, hcount, hidle, -⟩ := ih h₁ (by rw [hplace]; exact hleft)
        rw [hplace] at hcount hidle
        refine ⟨hreal, hlast, hmem'.trans hmem, ?_, ?_, ?_, fun hhalted => absurd hhalted hrunning⟩
        · intro x hx
          rcases List.mem_cons.mp hx with rfl | hx
          · exact .inr ⟨vector, scancode, rfl⟩
          · exact hevents x hx
        · rw [List.map_cons, List.count_cons_of_ne (by nofun)]
          exact hcount
        · intro hm
          obtain ⟨hplace', hcpu'⟩ := hidle hm
          exact ⟨hplace', hcpu'.trans hcpu⟩

/-- **A program that was left stays left.** Take any run from a user program, and go on from where the program does
    not run any more. It never runs again, its memory stays, ring 0 runs until the machine halts, and there are
    only interrupts by hardware, except that `exit_to_kernel` gets to its loop, at most once. The loop finds the
    registers it had, and a machine that halted does nothing. -/
theorem left_program_final (hplace : m.place = .program) (hring : rpl m.state.cpu.cs = 3)
    (henabled : interruptsEnabled m.state.cpu.eflags) {sh : Shell} (hshell : m.shell = some sh)
    (hreach : sh.Reachable) {left : Machine} {vis vis' : List (Machine × Event)}
    (hrun : Run (Machine.Step u program) m vis left) (hleft : left.place ≠ .program)
    (hrest : Run (Machine.Step u program) left vis' m') :
    m'.place ≠ .program ∧ m'.mem = left.mem ∧ (m'.place ≠ .halted → rpl m'.state.cpu.cs = 0) ∧
      (∀ x ∈ vis', x.2 = .settle ∨ ∃ vector scancode, x.2 = .irq vector scancode) ∧
      (vis'.map Prod.snd).count .settle ≤ 1 ∧
      (left.place = .idle → m'.place = .idle ∧ m'.state.cpu = left.state.cpu) ∧
      (left.place = .halted → vis' = []) := by
  obtain ⟨sc₀, o, ho⟩ := Machine.realizes_reached hplace hring henabled hshell hreach hrun
  obtain ⟨⟨o', ho'⟩, hlast, hmem, hevents, hcount, hidle, hhalted⟩ := ho.left_run hleft hrest
  refine ⟨hlast, hmem, fun hrunning => ho'.kernel ?_, hevents, ?_, hidle, hhalted⟩
  · rw [← ho'.place]
    cases hp : m'.place with
    | program => exact absurd hp hlast
    | exiting => exact .inl rfl
    | idle => exact .inr rfl
    | halted => exact absurd hp hrunning
  · refine Nat.le_trans hcount ?_
    split
    · exact Nat.le_refl 1
    · exact Nat.zero_le 1

/-- An `int 3` is not permitted, and the last thing that happens. -/
theorem left_program_final_int3 : ∃ left, Machine.Step stubsInOrder nops getpidMachine (.int 3) left ∧
    ∀ m' vis', Run (Machine.Step stubsInOrder nops) left vis' m' → vis' = [] := by
  have hstart : getpidMachine.Realizes _ _ :=
    Machine.realizes_start rfl (by decide) (by decide) rfl (shInit_realizes shInit_bootShell)
  obtain ⟨left, hstep⟩ := (@Machine.Realizes.goes_on stubsInOrder nops _ _ _ hstart nofun).2.2.1 rfl 3
  have hhalted : left.place = .halted := by
    obtain ⟨o, hnext, ho⟩ := hstart.step hstep
    cases hnext
    exact ho.place
  refine ⟨left, hstep, fun m' vis' hrest => ?_⟩
  have hleft : left.place ≠ .program := by
    rw [hhalted]
    nofun
  exact (left_program_final rfl (by decide) (by decide) rfl bootShell_reachable (.cons hstep .nil) hleft
    hrest).2.2.2.2.2.2 hhalted

end Drupe
