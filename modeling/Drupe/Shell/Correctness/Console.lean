import Drupe.Interrupts.Correctness.ReachableShell
import Drupe.Shell.Console
import Drupe.Shell.Correctness.Jam

/-!
# `Shell.Correctness.Console` — the shell is the console

A shell realizes a console: each of its streams carries a pipe, and its screen is what the bytes shown make of
the screen it started with. Writes and reads keep this (`Shell.Realizes.write`, `Shell.Realizes.read`), so any
run of them does (`console_refines`). Of a run it is then known what came to the screen (`console_shows`): all
that was accepted, up to the write that jammed the output.
-/

namespace Drupe

open Lib

/-- The shell of a console that began with the screen `sc₀`. -/
structure Shell.Realizes (sh : Shell) (sc₀ : Screen) (c : Console) : Prop where
  carries : ∀ i, (sh.stream i).Carries (c.pipe i)
  screen : sh.screen = { renderEvents sc₀ c.shown with color := sh.screen.color }

/-- The accesses to the streams. `shWriteStream` is all that writes to them, and stdin is read by `SYS_READ`. -/
inductive Shell.Performs : Shell → Console.Event → Shell → Prop
  | write (sh : Shell) (idx : Int) (buf : Nat → UInt8) (len : Int) :
      Shell.Performs sh (.write idx ((List.range len.toNat).map buf) (shWriteStream sh idx buf len).2)
        (shWriteStream sh idx buf len).1
  | read (sh : Shell) (len : Int) :
      Shell.Performs sh (.read len.toNat (streamRead (sh.stream streamStdin) len).2)
        (sh.setStream streamStdin (streamRead (sh.stream streamStdin) len).1)

theorem shInit_realizes {data : Fin streamCount → Vector UInt8 streamBufSize} {memory : UInt32 → ShellChar}
    {width size : UInt32} {sh : Shell} (h : shInit data memory width size = .ok sh) :
    sh.Realizes sh.screen Console.empty where
  carries i := by
    rw [shInit_stream h]
    exact carries_reset rfl rfl rfl
  screen := rfl

variable {s : Stream} {p : Pipe UInt8} {sh sh' sh₀ : Shell} {sc₀ : Screen} {c : Console}

/-! ## Rendering -/

/-- **A loop of `sh_render`** flushes the pipe of its stream. -/
theorem Stream.Carries.drain (h : s.Carries p) :
    s.drain.1.Carries (p.flush NewlineAtBase).1 ∧ s.drain.2 = (p.flush NewlineAtBase).2 := by
  by_cases hjam : NewlineAtBase p.history
  · have hdry : s.Dry := .inr (h.stalls hjam)
    rw [Pipe.flush_jammed hjam, hdry.drain]
    exact ⟨h, rfl⟩
  · obtain ⟨hok, hsplit, -⟩ := h.ok.drain
    -- what is left is dry, and it is not the newline
    have hnone : s.drain.1.count = 0 := by
      rcases Int.lt_or_eq_of_le h.ok.count_nonneg with hpos | hzero
      · rcases s.drain_dry with hcount | hcell
        · exact Int.le_antisymm hcount hok.count_nonneg
        · rw [Stream.cell_drain] at hcell
          exact absurd hcell (h.flows hjam hpos)
      · have hdry : s.Dry := .inl (Int.le_of_eq hzero.symm)
        rw [hdry.drain]
        exact hzero.symm
    obtain ⟨hdata, hhead⟩ := drained_frame (s.count.toNat + 1) s
    rw [Stream.contents_of_count_zero hnone, List.append_nil] at hsplit
    rw [Pipe.flush_clear hjam]
    refine ⟨⟨hok, ?_, h.written.congr hdata hhead, fun q hbase hq => absurd ⟨q, hbase, hq⟩ hjam⟩, ?_⟩
    · rw [Pipe.waiting_emptied]
      exact Stream.contents_of_count_zero hnone
    · rw [← hsplit]
      exact h.contents

theorem Shell.Realizes.setColor (h : sh.Realizes sc₀ c) (color : UInt8) : (sh.setColor color).Realizes sc₀ c where
  carries := h.carries
  screen := by
    show { sh.screen with color } = { renderEvents sc₀ c.shown with color }
    rw [h.screen]

theorem Shell.Realizes.setStream (h : sh.Realizes sc₀ c) (i : Fin streamCount) (hs : s.Carries p) :
    (sh.setStream i s).Realizes sc₀ (c.setPipe i p) where
  carries j := by
    by_cases heq : j = i
    · rw [heq, Shell.stream_setStream, Console.pipe_setPipe]
      exact hs
    · rw [Shell.stream_setStream_ne sh (Ne.symm heq), Console.pipe_setPipe_ne c heq]
      exact h.carries j
  screen := h.screen

/-- **`sh_render`** renders the console. -/
theorem Shell.Realizes.render (h : sh.Realizes sc₀ c) (hcolor : sh.screen.color = 0x07) :
    (shRender sh).Realizes sc₀ c.render where
  carries i := by
    by_cases hout : ∃ o : Output, o.index = i
    · obtain ⟨o, rfl⟩ := hout
      rw [shRender_stream_drain, Console.pipe_render]
      exact (h.carries o.index).drain.1
    · obtain rfl : i = streamStdin := stdin_of_not_output fun o heq => hout ⟨o, heq⟩
      rw [shRender_stdin, Console.pipe_render_stdin]
      exact h.carries streamStdin
  screen := by
    have hout : sh.delivered streamStdout = c.released .stdout := (h.carries Output.stdout.index).drain.2
    have herr : sh.delivered streamStderr = c.released .stderr := (h.carries Output.stderr.index).drain.2
    have hsplit : renderEvents sc₀ c.render.shown = renderEvents (renderEvents sc₀ c.shown) sh.shown := by
      rw [Console.shown_render, List.append_assoc, Shell.shown, hout, herr, hcolor]
      exact List.foldl_append
    rw [hsplit, shRender_screen, h.screen]
    exact renderEvents_setColor _ _ _ _

/-! ## Accesses -/

/-- **A write to a stream.** -/
theorem Shell.Realizes.write (h : sh.Realizes sc₀ c) (i : Fin streamCount) (buf : Nat → UInt8) (len : Int) :
    (shWriteStream sh i.val buf len).1.Realizes sc₀ (c.write i ((List.range len.toNat).map buf)) ∧
      (shWriteStream sh i.val buf len).2 = ((c.accepted i ((List.range len.toNat).map buf)).length : Int) := by
  have hwrite := (h.carries i).write buf len
  constructor
  · rw [shWriteStream_staged]
    exact ((h.setColor 0x07).setStream i hwrite).render rfl
  · rw [shWriteStream_ret, streamWrite_ret (h.carries i).ok, Console.accepted, (h.carries i).accepts_eq,
      List.length_map, List.length_range]
    exact (Int.toNat_of_nonneg (Int.le_max_left _ _)).symm

/-- **A read of stdin.** -/
theorem Shell.Realizes.read (h : sh.Realizes sc₀ c) (len : Int) :
    ∃ c', Console.Step c (.read len.toNat (streamRead (sh.stream streamStdin) len).2) c' ∧
      (sh.setStream streamStdin (streamRead (sh.stream streamStdin) len).1).Realizes sc₀ c' := by
  obtain ⟨hget, hcarries⟩ := (h.carries streamStdin).read len
  exact ⟨_, .read c hget, h.setStream streamStdin hcarries⟩

/-- **Step lemma.** -/
theorem Shell.Realizes.step (h : sh.Realizes sc₀ c) {e : Console.Event} (hstep : sh.Performs e sh') :
    ∃ c', Console.Step c e c' ∧ sh'.Realizes sc₀ c' := by
  cases hstep with
  | read len => exact h.read len
  | write idx buf len =>
      by_cases hidx : idx < 0 ∨ idx ≥ streamCount
      · have hnone : shWriteStream sh idx buf len = (sh, -1) := dif_pos hidx
        rw [hnone]
        exact ⟨c, .noStream c hidx _, h⟩
      · obtain ⟨i, rfl⟩ : ∃ i : Fin streamCount, (i.val : Int) = idx :=
          ⟨⟨idx.toNat, by omega⟩, Int.toNat_of_nonneg (by omega)⟩
        obtain ⟨hnext, hret⟩ := h.write i buf len
        rw [hret]
        exact ⟨_, .write c i _, hnext⟩

theorem Shell.Realizes.run (h : sh.Realizes sc₀ c) {vis : List (Shell × Console.Event)}
    (hrun : Run Shell.Performs sh vis sh') : ∃ avis c', Run Console.Step c avis c' ∧
      avis.map Prod.snd = vis.map Prod.snd ∧ sh'.Realizes sc₀ c' :=
  hrun.simulates (R := fun sh c => sh.Realizes sc₀ c) (g := id) (fun _ _ _ _ hsh hstep => hsh.step hstep) h

/-- **The shell refines the console.** From a shell of any geometry, over any video memory and old stream data,
    every run of writes and reads is, call for call and with the same answers, a run of the console. In the end
    each stream carries its pipe, and the screen is what the bytes shown make of it. -/
theorem console_refines {data : Fin streamCount → Vector UInt8 streamBufSize} {memory : UInt32 → ShellChar}
    {width size : UInt32} (hinit : shInit data memory width size = .ok sh₀) {vis : List (Shell × Console.Event)}
    (hrun : Run Shell.Performs sh₀ vis sh) :
    ∃ avis c, Run Console.Step Console.empty avis c ∧ avis.map Prod.snd = vis.map Prod.snd ∧
      (∀ i, (sh.stream i).contents = (c.pipe i).waiting) ∧
      sh.screen = { renderEvents sh₀.screen c.shown with color := sh.screen.color } := by
  obtain ⟨avis, c, hconsole, hlabels, hc⟩ := (shInit_realizes hinit).run hrun
  exact ⟨avis, c, hconsole, hlabels, fun i => (hc.carries i).contents, hc.screen⟩

/-- A letter to stdout, and then stdin is read. -/
theorem console_refines_letter : ∃ avis c, Run Console.Step Console.empty avis c ∧
    avis.map Prod.snd = [.write 1 [97] 1, .read 4 []] ∧ (c.pipe streamStdout).waiting = [] := by
  have hrun : Run Shell.Performs bootShell _ _ :=
    .cons (.write bootShell 1 (fun _ => 97) 1) (.cons (.read _ 4) .nil)
  obtain ⟨avis, c, hconsole, hlabels, hcontents, -⟩ := console_refines shInit_bootShell hrun
  refine ⟨avis, c, hconsole, hlabels.trans ?_, (hcontents streamStdout).symm.trans ?_⟩
  · decide +kernel
  · decide +kernel

/-- **What comes to the screen.** In every run of writes and reads from `shInit`, what was shown in the colour of
    an output is all that its stream accepted, up to the write that brought a newline to a multiple of
    `streamBufSize`, without that write. The rest is still queued. -/
theorem console_shows {data : Fin streamCount → Vector UInt8 streamBufSize} {memory : UInt32 → ShellChar}
    {width size : UInt32} (hinit : shInit data memory width size = .ok sh₀) {vis : List (Shell × Console.Event)}
    (hrun : Run Shell.Performs sh₀ vis sh) :
    ∃ shown, sh.screen = { renderEvents sh₀.screen shown with color := sh.screen.color } ∧
      (∀ e ∈ shown, ∃ o : Output, e.2 = o.color) ∧
      ∀ o : Output, ∃ parts, parts = Console.acceptedParts o.index (vis.map Prod.snd) ∧
        Console.inColor o.color shown = Pipe.untilJam NewlineAtBase [] parts ∧
        Console.inColor o.color shown ++ (sh.stream o.index).contents = parts.flatten := by
  obtain ⟨avis, c, hconsole, hlabels, hc⟩ := (shInit_realizes hinit).run hrun
  have hshows := Console.shows_empty.run hconsole
  rw [hlabels] at hshows
  refine ⟨c.shown, hc.screen, hshows.colored, fun o => ⟨_, rfl, hshows.shown o, ?_⟩⟩
  have hsettled := hshows.settled o
  have hhistory : (c.pipe o.index).history = (Console.acceptedParts o.index (vis.map Prod.snd)).flatten :=
    hsettled.history
  rw [hshows.shown, ← hsettled.taken, (hc.carries o.index).contents, ← hhistory]
  exact List.take_append_drop _ _

/-- The letter comes to the screen, and the newline after it does not jam. -/
theorem console_shows_letter : ∃ shown, Console.inColor 0x07 shown = [97, newline] ∧
    (shPuts bootShell [97, newline]).screen =
      { renderEvents bootShell.screen shown with color := (shPuts bootShell [97, newline]).screen.color } := by
  have hrun : Run Shell.Performs bootShell _ (shPuts bootShell [97, newline]) :=
    .cons (.write bootShell 1 (fun _ => 97) 1) (.cons (.write _ 1 (fun _ => newline) 1) .nil)
  obtain ⟨shown, hscreen, -, hout⟩ := console_shows shInit_bootShell hrun
  obtain ⟨parts, hparts, hshown, -⟩ := hout .stdout
  refine ⟨shown, hshown.trans ?_, hscreen⟩
  rw [hparts]
  decide +kernel

/-! ## Between the calls of the kernel -/

/-- A shell is at work for a console that has shown what it should. -/
def Shell.Shows (sh : Shell) (sc₀ : Screen) (c : Console) : Prop := sh.Realizes sc₀ c ∧ ∃ parts, c.Shows parts

/-- **A reachable shell is a console**, all of whose accesses went as they should. -/
theorem Shell.Reachable.shows (h : sh.Reachable) : ∃ sc₀ c, sh.Shows sc₀ c := by
  obtain ⟨data, memory, width, size, sh₀, hinit, hsteps⟩ := h
  refine ⟨sh₀.screen, ?_⟩
  induction hsteps with
  | refl => exact ⟨Console.empty, shInit_realizes hinit, _, Console.shows_empty⟩
  | tail _ hstep ih =>
      have hperform : ∀ {sh sh' : Shell} {e}, sh.Performs e sh' → (∃ c, sh.Shows sh₀.screen c) →
          ∃ c, sh'.Shows sh₀.screen c := by
        rintro sh sh' e hstep ⟨c, hsh, parts, hshows⟩
        obtain ⟨c', hnext, hsh'⟩ := hsh.step hstep
        exact ⟨c', hsh', _, hshows.step hnext⟩
      exact hstep.invariant (fun sh i buf len => hperform (.write sh i buf len))
        (fun sh len => hperform (.read sh len)) ih

/-- The console `c'` is a later one, and shows nothing new of an output. -/
structure Console.Mute (o : Output) (c c' : Console) : Prop where
  history : ∃ more, (c'.pipe o.index).history = (c.pipe o.index).history ++ more
  taken : (c'.pipe o.index).taken = (c.pipe o.index).taken
  shown : ∃ more, c'.shown = c.shown ++ more ∧ ∀ e ∈ more, e.2 ≠ o.color

variable {o : Output} {c₁ c₂ : Console}

theorem Console.Mute.refl (o : Output) (c : Console) : Console.Mute o c c where
  history := ⟨[], (List.append_nil _).symm⟩
  taken := rfl
  shown := ⟨[], (List.append_nil _).symm, fun _ he => absurd he List.not_mem_nil⟩

theorem Console.Mute.trans (h : Console.Mute o c c₁) (h' : Console.Mute o c₁ c₂) : Console.Mute o c c₂ where
  history := by
    obtain ⟨more, hmore⟩ := h.history
    obtain ⟨rest, hrest⟩ := h'.history
    exact ⟨more ++ rest, by rw [hrest, hmore, List.append_assoc]⟩
  taken := h'.taken.trans h.taken
  shown := by
    obtain ⟨more, hmore, hcolor⟩ := h.shown
    obtain ⟨rest, hrest, hcolor'⟩ := h'.shown
    refine ⟨more ++ rest, by rw [hrest, hmore, List.append_assoc], fun e he => ?_⟩
    exact (List.mem_append.mp he).elim (hcolor e) (hcolor' e)

theorem Console.Mute.jammed (h : Console.Mute o c c₁) (hjam : NewlineAtBase (c.pipe o.index).history) :
    NewlineAtBase (c₁.pipe o.index).history := by
  obtain ⟨more, hmore⟩ := h.history
  rw [hmore]
  exact hjam.append more

theorem Console.mute_put (o : Output) (c : Console) (i : Fin streamCount) (bytes : List UInt8) :
    Console.Mute o c (c.setPipe i ((c.pipe i).put bytes)) := by
  by_cases heq : o.index = i
  · subst heq
    refine ⟨⟨bytes, ?_⟩, ?_, ⟨[], (List.append_nil _).symm, fun _ he => absurd he List.not_mem_nil⟩⟩
    · rw [Console.pipe_setPipe]
      rfl
    · rw [Console.pipe_setPipe]
      rfl
  · have hsame := c.pipe_setPipe_ne heq ((c.pipe i).put bytes)
    refine ⟨⟨[], ?_⟩, by rw [hsame], ⟨[], (List.append_nil _).symm, fun _ he => absurd he List.not_mem_nil⟩⟩
    rw [hsame, List.append_nil]

/-- Rendering shows nothing of a jammed output. -/
theorem Console.mute_render (hjam : NewlineAtBase (c.pipe o.index).history) : Console.Mute o c c.render where
  history := ⟨[], by rw [Console.pipe_render, Pipe.history_flush, List.append_nil]⟩
  taken := by rw [Console.pipe_render, Pipe.flush_jammed hjam]
  shown := by
    have hnone : c.released o = [] := congrArg Prod.snd (Pipe.flush_jammed hjam)
    refine ⟨_, (Console.shown_render c).trans (List.append_assoc _ _ _), fun e he => ?_⟩
    rw [List.mem_append, List.mem_map, List.mem_map] at he
    rcases he with ⟨b, hb, rfl⟩ | ⟨b, hb, rfl⟩
    · cases o with
      | stdout => exact absurd (hnone ▸ hb) List.not_mem_nil
      | stderr => exact show Output.stdout.color ≠ Output.stderr.color by decide
    · cases o with
      | stdout => exact show Output.stderr.color ≠ Output.stdout.color by decide
      | stderr => exact absurd (hnone ▸ hb) List.not_mem_nil

theorem Console.Step.mute {e : Console.Event} (hjam : NewlineAtBase (c.pipe o.index).history)
    (hstep : Console.Step c e c₁) : Console.Mute o c c₁ := by
  cases hstep with
  | write i bytes =>
      have hput := Console.mute_put o c i (c.accepted i bytes)
      exact hput.trans (Console.mute_render (hput.jammed hjam))
  | noStream hidx bytes => exact .refl o c
  | @read room bytes p hget =>
      have hsame := c.pipe_setPipe_ne o.index_ne_stdin p
      refine ⟨⟨[], ?_⟩, by rw [hsame], ⟨[], (List.append_nil _).symm, fun _ he => absurd he List.not_mem_nil⟩⟩
      rw [hsame, List.append_nil]

/-- **Output that is left over is lost.** Where anything is queued for an output between two calls of the kernel,
    nothing that is or will be queued for it ever comes to the screen, whatever the kernel prints and whatever
    interrupts and system calls it handles. -/
theorem queued_output_dead (hreach : sh.Reachable) (hqueued : 0 < (sh.stream o.index).count)
    (hsteps : Relation.ReflTransGen Shell.Step sh sh') :
    (∃ shown, sh'.screen = { renderEvents sh.screen shown with color := sh'.screen.color } ∧
      ∀ e ∈ shown, e.2 ≠ o.color) ∧
    ∃ more, (sh'.stream o.index).contents = (sh.stream o.index).contents ++ more := by
  obtain ⟨sc₀, c, hsh, parts, hshows⟩ := hreach.shows
  have hjam : NewlineAtBase (c.pipe o.index).history := by
    by_contra hclear
    have hnone := (hshows.settled o).clear hclear
    have hcount := (hsh.carries o.index).count_eq
    rw [hnone, List.length_nil] at hcount
    omega
  have hlater : ∃ c', sh'.Realizes sc₀ c' ∧ Console.Mute o c c' := by
    induction hsteps with
    | refl => exact ⟨c, hsh, .refl o c⟩
    | tail _ hstep ih =>
        have hperform : ∀ {sh sh' : Shell} {e}, sh.Performs e sh' →
            (∃ c', sh.Realizes sc₀ c' ∧ Console.Mute o c c') → ∃ c', sh'.Realizes sc₀ c' ∧ Console.Mute o c c' := by
          rintro sh sh' e hstep ⟨c', hsh', hmute⟩
          obtain ⟨c'', hnext, hsh''⟩ := hsh'.step hstep
          exact ⟨c'', hsh'', hmute.trans (hnext.mute (hmute.jammed hjam))⟩
        exact hstep.invariant (fun sh i buf len => hperform (.write sh i buf len))
          (fun sh len => hperform (.read sh len)) ih
  obtain ⟨c', hsh', hmute⟩ := hlater
  obtain ⟨shown, hshown, hcolor⟩ := hmute.shown
  obtain ⟨more, hmore⟩ := hmute.history
  refine ⟨⟨shown, ?_, hcolor⟩, more, ?_⟩
  · have hsplit : renderEvents sc₀ c'.shown = renderEvents (renderEvents sc₀ c.shown) shown := by
      rw [hshown]
      exact List.foldl_append
    rw [hsh'.screen, hsplit, hsh.screen]
    exact (renderEvents_setColor _ _ _ _).symm
  · rw [(hsh'.carries o.index).contents, (hsh.carries o.index).contents, Pipe.waiting, hmore, hmute.taken]
    exact List.drop_append_of_le_length (c.pipe o.index).taken_le

/-- The first thing that is printed is a newline. -/
theorem queued_output_dead_newline : ∃ shown,
    (shPuts (shPuts bootShell [newline]) [97]).screen = { renderEvents (shPuts bootShell [newline]).screen shown with
      color := (shPuts (shPuts bootShell [newline]) [97]).screen.color } ∧ ∀ e ∈ shown, e.2 ≠ Output.stdout.color := by
  have hreach : (shPuts bootShell [newline]).Reachable :=
    ⟨_, _, _, _, bootShell, shInit_bootShell, .single (.puts [newline] rfl)⟩
  have hqueued : 0 < ((shPuts bootShell [newline]).stream Output.stdout.index).count := by decide +kernel
  exact (queued_output_dead hreach hqueued (.single (.puts [97] rfl))).1

end Drupe
