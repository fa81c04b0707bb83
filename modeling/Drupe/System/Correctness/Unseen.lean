import Drupe.System.Correctness.Progress

/-!
# `System.Correctness.Unseen` — a program does not see the hardware

Keys go to stdin and to nothing else: there is no echo. So a program that does not read them cannot tell how many
there were, between which of its steps they came and which, and neither can one who watches the screen
(`keys_unseen`). Keys that nobody reads fill up the stream of stdin, which is where they stop. One that comes in the
middle of a print is seen (`preempted_race`), but that is within a step.
-/

namespace Drupe

open Lib Lib.X86

/-! ## Consoles -/

/-- Consoles that differ at most in what waits at stdin. -/
structure Console.Alike (c c' : Console) : Prop where
  pipe : ∀ o : Output, c.pipe o.index = c'.pipe o.index
  shown : c.shown = c'.shown

namespace Console

variable {c c' c₁ c₂ : Console}

theorem Alike.symm (h : c.Alike c') : c'.Alike c := ⟨fun o => (h.pipe o).symm, h.shown.symm⟩

theorem Alike.trans (h : c.Alike c₁) (h' : c₁.Alike c₂) : c.Alike c₂ :=
  ⟨fun o => (h.pipe o).trans (h'.pipe o), h.shown.trans h'.shown⟩

theorem Alike.render (h : c.Alike c') : c.render.Alike c'.render where
  pipe o := by rw [pipe_render, pipe_render, h.pipe o]
  shown := by
    rw [shown_render, shown_render, h.shown]
    unfold released
    rw [h.pipe .stdout, h.pipe .stderr]

theorem alike_setPipe (c : Console) (p : Pipe UInt8) : (c.setPipe streamStdin p).Alike c where
  pipe o := c.pipe_setPipe_ne o.index_ne_stdin p
  shown := rfl

/-- The same write to both. -/
theorem Alike.write (h : c.Alike c') (i : Fin streamCount) (bytes : List UInt8) :
    (c.write i bytes).Alike (c'.write i bytes) := by
  refine Alike.render ?_
  by_cases hout : ∃ o : Output, o.index = i
  · obtain ⟨o, rfl⟩ := hout
    unfold accepted
    rw [h.pipe o]
    refine ⟨fun o' => ?_, h.shown⟩
    by_cases heq : o'.index = o.index
    · rw [heq, pipe_setPipe, pipe_setPipe]
    · rw [pipe_setPipe_ne _ heq, pipe_setPipe_ne _ heq]
      exact h.pipe o'
  · obtain rfl : i = streamStdin := stdin_of_not_output fun o heq => hout ⟨o, heq⟩
    exact (alike_setPipe c _).trans (h.trans (alike_setPipe c' _).symm)

theorem Alike.print (h : c.Alike c') (bytes : List UInt8) : (c.print bytes).Alike (c'.print bytes) := by
  induction bytes generalizing c c' with
  | nil => exact h
  | cons b bytes ih => exact ih (h.write streamStdout [b])

/-- Nothing waits for an output that is not jammed. -/
def Settled (c : Console) : Prop := ∃ parts, c.Shows parts

theorem Settled.write (h : c.Settled) (i : Fin streamCount) (bytes : List UInt8) : (c.write i bytes).Settled := by
  obtain ⟨parts, hshows⟩ := h
  exact ⟨_, hshows.write i bytes⟩

theorem Settled.step (h : c.Settled) {e : Event} (hstep : Step c e c') : c'.Settled := by
  obtain ⟨parts, hshows⟩ := h
  exact ⟨_, hshows.step hstep⟩

theorem Settled.print (h : c.Settled) (bytes : List UInt8) : (c.print bytes).Settled := by
  induction bytes generalizing c with
  | nil => exact h
  | cons b bytes ih => exact ih (h.write streamStdout [b])

/-- **A write to stdin is not seen** where everything else was shown before. -/
theorem Settled.write_stdin (h : c.Settled) (bytes : List UInt8) : (c.write streamStdin bytes).Alike c := by
  obtain ⟨parts, hshows⟩ := h
  have hnothing : c.render.Alike c := by
    refine ⟨fun o => ?_, ?_⟩
    · rw [pipe_render, (hshows.settled o).flush_eq]
    · rw [shown_render]
      unfold released
      rw [(hshows.settled .stdout).flush_eq, (hshows.settled .stderr).flush_eq]
      simp only [List.map_nil, List.append_nil]
  exact (alike_setPipe c _).render.trans hnothing

/-- The answer to a write can be told, but it is the same. -/
theorem Alike.step_write (h : c.Alike c') {idx : Int} {bytes : List UInt8} {ret ret' : Int}
    (hstep : Step c (.write idx bytes ret) c₁) (hstep' : Step c' (.write idx bytes ret') c₂) : c₁.Alike c₂ := by
  generalize he : Event.write idx bytes ret = e at hstep
  generalize he' : Event.write idx bytes ret' = e' at hstep'
  cases hstep with
  | write i w =>
      obtain ⟨rfl, rfl, rfl⟩ := Event.write.inj he
      cases hstep' with
      | write j w =>
          obtain ⟨hij, rfl, -⟩ := Event.write.inj he'
          obtain rfl : i = j := Fin.ext (by omega)
          exact h.write i bytes
      | noStream hidx w =>
          obtain ⟨hij, -, -⟩ := Event.write.inj he'
          have := i.isLt
          omega
      | read hget => cases he'
  | noStream hidx w =>
      obtain ⟨rfl, rfl, rfl⟩ := Event.write.inj he
      cases hstep' with
      | write j w =>
          obtain ⟨hij, -, -⟩ := Event.write.inj he'
          have := j.isLt
          omega
      | noStream hidx w => exact h
      | read hget => cases he'
  | read hget => cases he

end Console

/-! ## Systems -/

/-- Systems that a program cannot tell apart, unless it reads stdin. -/
structure Os.Alike (o o' : Os) : Prop where
  cpu : o.cpu = o'.cpu
  mem : o.mem = o'.mem
  console : o.console.Alike o'.console
  place : o.place = o'.place

/-- The program reads stdin. -/
def Reads (c : Cpu) (e : Event) : Prop := e = .int 0x80 ∧ c.eax = sysRead

/-- What comes from the hardware. -/
def Event.Hardware : Event → Prop
  | .irq _ _ => True
  | _ => False

instance : DecidablePred Event.Hardware
  | .irq _ _ => isTrue True.intro
  | .exec | .int _ | .fault _ _ | .settle => isFalse id

variable {program : UserCode} {o o' o₁ o₂ : Os} {e : Event}

theorem Says.unique {fmt : String} {args : List VaArg} {bytes bytes' : List UInt8} (h : Says fmt args bytes)
    (h' : Says fmt args bytes') : bytes = bytes' := Except.ok.inj (h.symm.trans h')

theorem Reported.unique {c : Cpu} {vector : Nat} {code : UInt32} {bytes bytes' : List UInt8}
    (h : Reported c vector code bytes) (h' : Reported c vector code bytes') : bytes = bytes' := by
  cases h with
  | user hname hfirst hsecond hthird =>
      cases h' with
      | user hname' hfirst' hsecond' hthird' =>
          obtain rfl := Option.some.inj (hname.symm.trans hname')
          rw [hfirst.unique hfirst', hsecond.unique hsecond', hthird.unique hthird']

theorem Os.Step.settled (hstep : Os.Step program o e o₁) (h : o.console.Settled) : o₁.console.Settled := by
  cases hstep with
  | exec => exact h
  | syscall hplace hexit hcall =>
      cases hcall with
      | write hcall hbuf hwrite => exact h.step hwrite
      | read hcall hbuf hread => exact h.step hread
      | getpid => exact h
      | nullBuffer => exact h
      | badString => exact h.print _
      | badBuffer => exact h.print _
      | unknown => exact h.print _
  | exit => exact h.print _
  | int => exact h.print _
  | fault => exact h.print _
  | tick => exact h
  | key hrunning hletter hwrite => exact h.step hwrite
  | noLetter => exact h
  | settle => exact h.print _

/-- **An interrupt by hardware** is not seen. -/
theorem Os.Step.hidden (hstep : Os.Step program o e o₁) (h : o.console.Settled) (hhidden : e.Hardware) :
    o₁.Alike o := by
  cases hstep with
  | tick => exact ⟨rfl, rfl, ⟨fun _ => rfl, rfl⟩, rfl⟩
  | noLetter => exact ⟨rfl, rfl, ⟨fun _ => rfl, rfl⟩, rfl⟩
  | @key scancode console ret hrunning hletter hwrite =>
      refine ⟨rfl, rfl, ?_, rfl⟩
      exact (Console.Alike.step_write ⟨fun _ => rfl, rfl⟩ hwrite (.write _ streamStdin _)).trans (h.write_stdin _)
  | exec => exact hhidden.elim
  | syscall => exact hhidden.elim
  | exit => exact hhidden.elim
  | int => exact hhidden.elim
  | fault => exact hhidden.elim
  | settle => exact hhidden.elim

/-- System calls other than `SYS_READ`, at consoles that are alike. -/
theorem Syscall.alike {c : Cpu} {con con' con₁ con₂ : Console} {m m₁ m₂ : Mem} {eax₁ eax₂ : UInt32}
    (h₁ : Syscall c con m eax₁ con₁ m₁) (h₂ : Syscall c con' m eax₂ con₂ m₂) (h : con.Alike con')
    (hread : c.eax ≠ sysRead) : eax₁ = eax₂ ∧ m₁ = m₂ ∧ con₁.Alike con₂ := by
  have hne : sysWrite ≠ sysGetpid := by decide
  cases h₁ with
  | write hcall hbuf hwrite =>
      cases h₂ with
      | write hcall' hbuf' hwrite' => exact ⟨rfl, rfl, h.step_write hwrite hwrite'⟩
      | read hcall' => exact absurd hcall' hread
      | getpid hcall' => exact absurd (hcall.symm.trans hcall') hne
      | nullBuffer hcall' hnull => exact absurd hbuf (by rw [hnull]; decide)
      | badString hcall' hnull hout => exact absurd hbuf hout
      | badBuffer hcall' => exact absurd hcall' hread
      | unknown hcall' => exact absurd hcall hcall'.1
  | read hcall => exact absurd hcall hread
  | getpid hcall =>
      cases h₂ with
      | write hcall' => exact absurd (hcall'.symm.trans hcall) hne
      | read hcall' => exact absurd hcall' hread
      | getpid => exact ⟨rfl, rfl, h⟩
      | nullBuffer hcall' => exact (hcall'.elim (fun hw => hne (hw.symm.trans hcall)) hread).elim
      | badString hcall' => exact absurd (hcall'.symm.trans hcall) hne
      | badBuffer hcall' => exact absurd hcall' hread
      | unknown hcall' => exact absurd hcall hcall'.2.2.1
  | nullBuffer hcall hnull =>
      cases h₂ with
      | write hcall' hbuf => exact absurd hbuf (by rw [hnull]; decide)
      | read hcall' => exact absurd hcall' hread
      | getpid hcall' => exact (hcall.elim (fun hw => hne (hw.symm.trans hcall')) hread).elim
      | nullBuffer => exact ⟨rfl, rfl, h⟩
      | badString hcall' hnot => exact absurd hnull hnot
      | badBuffer hcall' => exact absurd hcall' hread
      | unknown hcall' => exact (hcall.elim hcall'.1 hread).elim
  | badString hcall hnull hout htext =>
      cases h₂ with
      | write hcall' hbuf => exact absurd hbuf hout
      | read hcall' => exact absurd hcall' hread
      | getpid hcall' => exact absurd (hcall.symm.trans hcall') hne
      | nullBuffer hcall' hzero => exact absurd hzero hnull
      | badString hcall' hnull' hout' htext' =>
          obtain rfl := htext.unique htext'
          exact ⟨rfl, rfl, h.print _⟩
      | badBuffer hcall' => exact absurd hcall' hread
      | unknown hcall' => exact absurd hcall hcall'.1
  | badBuffer hcall => exact absurd hcall hread
  | unknown hcall htext =>
      cases h₂ with
      | write hcall' => exact absurd hcall' hcall.1
      | read hcall' => exact absurd hcall' hread
      | getpid hcall' => exact absurd hcall' hcall.2.2.1
      | nullBuffer hcall' => exact (hcall'.elim hcall.1 hread).elim
      | badString hcall' => exact absurd hcall' hcall.1
      | badBuffer hcall' => exact absurd hcall' hread
      | unknown hcall' htext' =>
          obtain rfl := htext.unique htext'
          exact ⟨rfl, rfl, h.print _⟩

/-- **A step of the program**, or of what comes after it, is the same in systems that are alike. -/
theorem Os.Step.alike
    (hdet : ∀ {c m c₁ m₁ c₂ m₂}, program.exec c m [] c₁ m₁ → program.exec c m [] c₂ m₂ → c₁ = c₂ ∧ m₁ = m₂)
    (hstep : Os.Step program o e o₁) (hstep' : Os.Step program o' e o₂) (h : o.Alike o') (hseen : ¬ e.Hardware)
    (hread : ¬ Reads o.cpu e) : o₁.Alike o₂ := by
  obtain ⟨cpu, mem, console, place⟩ := o
  obtain ⟨cpu', mem', console', place'⟩ := o'
  obtain ⟨rfl, rfl, hcon, rfl⟩ := h
  simp only at hcon hread
  cases hstep with
  | exec hplace hexec =>
      cases hstep' with
      | exec hplace' hexec' =>
          obtain ⟨rfl, rfl⟩ := hdet hexec hexec'
          exact ⟨rfl, rfl, hcon, rfl⟩
  | syscall hplace hexit hcall =>
      cases hstep' with
      | syscall hplace' hexit' hcall' =>
          obtain ⟨rfl, rfl, hcon'⟩ := hcall.alike hcall' hcon fun heax => hread ⟨rfl, heax⟩
          exact ⟨rfl, rfl, hcon', rfl⟩
      | exit hplace' hexit' => exact absurd hexit' hexit
      | int hplace' hn => exact absurd rfl hn
  | exit hplace hexit htext =>
      cases hstep' with
      | syscall hplace' hexit' => exact absurd hexit hexit'
      | exit hplace' hexit' htext' =>
          obtain rfl := htext.unique htext'
          exact ⟨rfl, rfl, hcon.print _, rfl⟩
      | int hplace' hn => exact absurd rfl hn
  | int hplace hn hreport =>
      cases hstep' with
      | syscall => exact absurd rfl hn
      | exit => exact absurd rfl hn
      | int hplace' hn' hreport' =>
          obtain rfl := hreport.unique hreport'
          exact ⟨rfl, rfl, hcon.print _, rfl⟩
  | fault hplace hvector hreport =>
      cases hstep' with
      | fault hplace' hvector' hreport' =>
          obtain rfl := hreport.unique hreport'
          exact ⟨rfl, rfl, hcon.print _, rfl⟩
  | tick => exact absurd True.intro hseen
  | key => exact absurd True.intro hseen
  | noLetter => exact absurd True.intro hseen
  | settle hplace =>
      cases hstep' with
      | settle hplace' => exact ⟨rfl, rfl, hcon.print _, rfl⟩

/-! ## Machines -/

variable {u : Setup} {m m' m₁ m₂ : Machine} {sc₀ : Screen}

/-- Machines of systems that are alike. -/
def Machine.Alike (sc₀ : Screen) (m m' : Machine) : Prop :=
  ∃ o o', m.Realizes sc₀ o ∧ m'.Realizes sc₀ o' ∧ o.console.Settled ∧ o'.console.Settled ∧ o.Alike o'

theorem Os.Alike.symm (h : o.Alike o') : o'.Alike o := ⟨h.cpu.symm, h.mem.symm, h.console.symm, h.place.symm⟩

theorem Os.Alike.trans (h : o.Alike o₁) (h' : o₁.Alike o₂) : o.Alike o₂ :=
  ⟨h.cpu.trans h'.cpu, h.mem.trans h'.mem, h.console.trans h'.console, h.place.trans h'.place⟩

theorem Machine.Alike.left (h : Machine.Alike sc₀ m m') (hhidden : e.Hardware)
    (hstep : Machine.Step u program m e m₁) : Machine.Alike sc₀ m₁ m' := by
  obtain ⟨o, o', ho, ho', hset, hset', halike⟩ := h
  obtain ⟨o₁, hnext, ho₁⟩ := ho.step hstep
  exact ⟨o₁, o', ho₁, ho', hnext.settled hset, hset', (hnext.hidden hset hhidden).trans halike⟩

theorem Machine.Alike.symm (h : Machine.Alike sc₀ m m') : Machine.Alike sc₀ m' m := by
  obtain ⟨o, o', ho, ho', hset, hset', halike⟩ := h
  exact ⟨o', o, ho', ho, hset', hset, halike.symm⟩

theorem Machine.Alike.both
    (hdet : ∀ {c m c₁ m₁ c₂ m₂}, program.exec c m [] c₁ m₁ → program.exec c m [] c₂ m₂ → c₁ = c₂ ∧ m₁ = m₂)
    (h : Machine.Alike sc₀ m m') (hseen : ¬ e.Hardware) (hread : ¬ Reads m.state.cpu e)
    (hstep : Machine.Step u program m e m₁) (hstep' : Machine.Step u program m' e m₂) :
    Machine.Alike sc₀ m₁ m₂ := by
  obtain ⟨o, o', ho, ho', hset, hset', halike⟩ := h
  obtain ⟨o₁, hnext, ho₁⟩ := ho.step hstep
  obtain ⟨o₂, hnext', ho₂⟩ := ho'.step hstep'
  have hread' : ¬ Reads o.cpu e := by
    rintro ⟨rfl, heax⟩
    have hplace : m.place = .program := by
      cases hstep <;> assumption
    rw [← (ho.program (ho.place.symm.trans hplace)).1] at heax
    exact hread ⟨rfl, heax⟩
  exact ⟨o₁, o₂, ho₁, ho₂, hnext.settled hset, hnext'.settled hset',
    hnext.alike hdet hnext' halike hseen hread'⟩

/-- **Keys are not seen** between two steps. Take two runs from one machine in a user program, with the same steps
    except for interrupts by hardware, of which there may be any, at any place and with any keys. If the program does
    not read stdin in the first, then in the end its memory is the same, its registers are if it still runs, and so
    are the streams of the outputs and all that is on the screen. -/
theorem keys_unseen
    (hdet : ∀ {c m c₁ m₁ c₂ m₂}, program.exec c m [] c₁ m₁ → program.exec c m [] c₂ m₂ → c₁ = c₂ ∧ m₁ = m₂)
    (hplace : m.place = .program) (hring : rpl m.state.cpu.cs = 3)
    (henabled : interruptsEnabled m.state.cpu.eflags) {sh : Shell} (hshell : m.shell = some sh)
    (hreach : sh.Reachable) {vis₁ vis₂ : List (Machine × Event)} (hrun₁ : Run (Machine.Step u program) m vis₁ m₁)
    (hrun₂ : Run (Machine.Step u program) m vis₂ m₂) (hreads : ∀ x ∈ vis₁, ¬ Reads x.1.state.cpu x.2)
    (hsame : seen Event.Hardware vis₁ = seen Event.Hardware vis₂) :
    m₁.place = m₂.place ∧ m₁.mem = m₂.mem ∧ (m₁.place = .program → m₁.state.cpu = m₂.state.cpu) ∧
      ∃ sh₁ sh₂, m₁.shell = some sh₁ ∧ m₂.shell = some sh₂ ∧
        (∀ o : Output, (sh₁.stream o.index).contents = (sh₂.stream o.index).contents) ∧
        sh₁.screen = { sh₂.screen with color := sh₁.screen.color } := by
  obtain ⟨sc₀, con, hsh, hshows⟩ := hreach.shows
  have hstart := Machine.realizes_start hplace hring henabled hshell hsh
  have halike : Machine.Alike sc₀ m m :=
    ⟨_, _, hstart, hstart, hshows, hshows, rfl, rfl, ⟨fun _ => rfl, rfl⟩, rfl⟩
  obtain ⟨o₁, o₂, ho₁, ho₂, -, -, hend⟩ := @Run.unseen _ _ _ (Machine.Alike sc₀) Event.Hardware _
    (fun m e => ¬ Reads m.state.cpu e) (fun _ _ _ _ h hhidden hstep => h.left hhidden hstep)
    (fun _ _ _ _ h hhidden hstep => (h.symm.left hhidden hstep).symm)
    (fun _ _ _ _ _ h hseen hread hstep hstep' => h.both hdet hseen hread hstep hstep') _ _ _ _ _ _ hrun₁ hrun₂
    hreads hsame halike
  obtain ⟨sh₁, hshell₁, hsh₁⟩ := ho₁.shell
  obtain ⟨sh₂, hshell₂, hsh₂⟩ := ho₂.shell
  refine ⟨?_, ?_, fun hrunning => ?_, sh₁, sh₂, hshell₁, hshell₂, fun o => ?_, ?_⟩
  · rw [ho₁.place, ho₂.place, hend.place]
  · rw [ho₁.mem, ho₂.mem, hend.mem]
  · have hp₁ := ho₁.place.symm.trans hrunning
    rw [(ho₁.program hp₁).1, (ho₂.program (hend.place.symm.trans hp₁)).1, hend.cpu]
  · rw [(hsh₁.carries o.index).contents, (hsh₂.carries o.index).contents, hend.console.pipe o]
  · rw [hsh₁.screen, hsh₂.screen, hend.console.shown]

/-- A key comes before an instruction. -/
theorem keys_unseen_letter : ∃ m₁ m₂ m', Machine.Step stubsInOrder nops getpidMachine .exec m₁ ∧
    Machine.Step stubsInOrder nops getpidMachine (.irq 33 0x1E) m' ∧ Machine.Step stubsInOrder nops m' .exec m₂ ∧
    m₁.mem = m₂.mem ∧ m₁.state.cpu = m₂.state.cpu := by
  have hstart : getpidMachine.Realizes _ _ :=
    Machine.realizes_start rfl (by decide) (by decide) rfl (shInit_realizes shInit_bootShell)
  obtain ⟨m', hkey⟩ := (@Machine.Realizes.goes_on stubsInOrder nops _ _ _ hstart nofun).2.1 33 0x1E (.inr rfl)
  have hplace : m'.place = .program := by
    obtain ⟨o, hnext, ho⟩ := hstart.step hkey
    cases hnext <;> exact ho.place
  have hfirst : Machine.Step stubsInOrder nops getpidMachine .exec _ := .exec rfl (nops_stays _ _ _)
  have hsecond : Machine.Step stubsInOrder nops m' .exec _ := .exec hplace (nops_stays _ _ _)
  have hdet : ∀ {c m c₁ m₁ c₂ m₂}, nops.exec c m [] c₁ m₁ → nops.exec c m [] c₂ m₂ → c₁ = c₂ ∧ m₁ = m₂ := by
    rintro c m c₁ m₁ c₂ m₂ ⟨rfl, -, rfl⟩ ⟨rfl, -, rfl⟩
    exact ⟨rfl, rfl⟩
  obtain ⟨-, hmem, hcpu, -⟩ := keys_unseen hdet rfl (by decide) (by decide) rfl bootShell_reachable
    (.cons hfirst .nil) (.cons hkey (.cons hsecond .nil)) (by
      intro x hx
      rw [List.mem_singleton.mp hx]
      nofun) rfl
  exact ⟨_, _, m', hfirst, hkey, hsecond, hmem, hcpu rfl⟩

end Drupe
