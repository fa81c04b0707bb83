import Drupe.Kernel.Entry
import Drupe.Shell.Correctness.Printf
import Drupe.Usermode.Correctness.Setup

/-!
# `Kernel.Correctness.Log` — what the kernel prints while it boots

Everything that the boot does with the shell is to put bytes there. Which ones is told here in terms of the image: how
much memory there is, the block size, a line for each live record of the root directory, and what went wrong
(`BootLog`). The shell that `kernelEntry` leaves is the one that was set up, with these bytes put
(`kernelEntry_log`).
-/

namespace Drupe

open Lib

/-! ## Formats -/

/-- Text that is printed as it is. -/
def plainText (s : List UInt8) : Bool := s.all fun c => c ≠ 0 ∧ c ≠ 37

theorem plain_ofList {cs : List Char} (h : plainText (cs.map fun c => UInt8.ofNat c.toNat) = true) :
    plainText (text (String.ofList cs)) = true := by
  rw [text_ofList]
  exact h

theorem printfBytes_text {s : List UInt8} (h : plainText s = true) (fmt : List UInt8) (args : List VaArg) :
    printfBytes (s ++ fmt) args = (printfBytes fmt args).map fun rest => s ++ rest := by
  induction s with
  | nil =>
      cases hrest : printfBytes fmt args with
      | error e => exact hrest
      | ok rest => exact hrest
  | cons c s ih =>
      unfold plainText at h ih
      rw [List.all_cons, Bool.and_eq_true, decide_eq_true_eq] at h
      rw [List.cons_append, printfBytes_plain h.1.1 h.1.2, ih h.2]
      cases printfBytes fmt args with
      | error e => rfl
      | ok rest => rfl

theorem printfBytes_str (name fmt : List UInt8) (args : List VaArg) :
    printfBytes (37 :: 115 :: fmt) (.str (some name) :: args)
      = (printfBytes fmt args).map fun rest => cString name ++ rest := by
  rw [printfBytes_directive]
  rfl

theorem printfBytes_decimal (w : UInt32) (fmt : List UInt8) (args : List VaArg) :
    printfBytes (37 :: 100 :: fmt) (.word w :: args)
      = (printfBytes fmt args).map fun rest => decimal (signed w) ++ rest := by
  rw [printfBytes_directive, ← decimal_eq]
  rfl

theorem ok_map {α β : Type} (f : α → β) (a : α) : (Except.ok a : Except Fault α).map f = .ok (f a) := rfl

variable {before after : List UInt8}

/-- A format with one string in it. -/
theorem said_str (hbefore : plainText before = true) (hafter : plainText after = true) (name : List UInt8)
    (args : List VaArg) : printfBytes (before ++ 37 :: 115 :: (after ++ [0])) (.str (some name) :: args)
      = .ok (before ++ (cString name ++ after)) := by
  rw [printfBytes_text hbefore, printfBytes_str, printfBytes_text hafter, printfBytes_nul, ok_map, ok_map, ok_map,
    List.append_nil]

/-- A format with one number in it. -/
theorem said_decimal (hbefore : plainText before = true) (hafter : plainText after = true) (w : UInt32) :
    printfBytes (before ++ 37 :: 100 :: (after ++ [0])) [.word w]
      = .ok (before ++ (decimal (signed w) ++ after)) := by
  rw [printfBytes_text hbefore, printfBytes_decimal, printfBytes_text hafter, printfBytes_nul, ok_map, ok_map,
    ok_map, List.append_nil]

/-! ## The log -/

/-- The shell after bytes that were put there, one by one. -/
def Shell.puts (sh : Shell) (bytes : List UInt8) : Shell := bytes.foldl shPutc sh

/-- The line of `print_dir_cb`. The inode number that it passes is not printed. -/
def dirLine (r : List UInt8 × UInt32) : List UInt8 := text " - " ++ (cString r.1 ++ text "\r\n")

def listing (rs : List (List UInt8 × UInt32)) : List UInt8 := rs.flatMap dirLine

def debugLine (filename : List UInt8) : List UInt8 :=
  text "DEBUG: '" ++ (cString filename ++ text "' not found in root (tried exact match)\r\n")

/-- The log of `ext2_find_file_inode_by_name`. -/
def searchLog (m : Mem) (fs : Ext2Fs) (filename : List UInt8) : List UInt8 :=
  text "Disk Contents:\r\n" ++ listing (rootRecords m fs) ++
    if findRecord m fs filename = none then debugLine filename else []

def notFoundLine (programName : List UInt8) : List UInt8 :=
  text "Failed to find program: " ++ (cString programName ++ text "\r\n")

def shortReadLine (fs : Ext2Fs) (inode : Inode) : List UInt8 :=
  text "Failed to read complete program (read " ++ (decimal (signed (UInt32.ofNat (loadCount fs inode))) ++
    (text " of " ++ (decimal (signed inode.iSizeLo) ++ text " bytes)\r\n")))

/-- The log of `um_setup_env`, by where it returns. -/
def setupLog (m : Mem) (fs : Ext2Fs) (programName : List UInt8) : SetupReturn → List UInt8
  | .noProcess => text "Failed to create process\r\n"
  | .notFound => searchLog m fs programName ++ notFoundLine programName
  | .shortRead => searchLog m fs programName ++ ((programInode m fs programName).map (shortReadLine fs)).getD []
  | .complete => searchLog m fs programName

def memoryLine (total : UInt64) : List UInt8 :=
  text "Booted with " ++ (decimal (signed (total / (1024 * 1024)).toUInt32) ++ text " MB of Memory.\r\n")

def mountLine (fs : Ext2Fs) : List UInt8 :=
  text "EXT2 filesystem mounted successfully! Block size: " ++ (decimal (signed fs.blockSize) ++ text " bytes\r\n")

/-- The allocator that the boot starts. -/
def freshPhys (total : UInt64) : PhysMem := memPhysInit kernelBase (total - kernelBase.toUInt64).toUInt32

/-- **The log of the boot**, by where it ends. -/
inductive BootLog (b : BootInput) : BootEnd → List UInt8 → Prop
  | noGdt (hgdt : b.gdtReady = false) : BootLog b .halted (text "FATAL: Failed to initialize GDT!\r\n")
  | noIdt (hgdt : b.gdtReady = true) (hidt : b.idtReady = false) :
      BootLog b .halted (text "FATAL: Failed to initialize IDT!\r\n")
  | notMounted {m : Mem} {s : PhysMem} (hgdt : b.gdtReady = true) (hidt : b.idtReady = true)
      (hmount : ext2Mount b.mem (freshPhys b.totalMemoryBytes) b.diskImg = .ok (m, s, none)) :
      BootLog b .halted (memoryLine b.totalMemoryBytes ++
        text "Failed to mount EXT2 filesystem from embedded image.\r\n")
  | entered {m : Mem} {s : PhysMem} {fs : Ext2Fs} {setup : SetupReturn} (hgdt : b.gdtReady = true)
      (hidt : b.idtReady = true)
      (hmount : ext2Mount b.mem (freshPhys b.totalMemoryBytes) b.diskImg = .ok (m, s, some fs)) :
      BootLog b (.userMode setup) (memoryLine b.totalMemoryBytes ++ mountLine fs ++
        setupLog m fs (text "example.bin") setup)

/-! ## What is put -/

@[simp] theorem Shell.puts_nil (sh : Shell) : sh.puts [] = sh := rfl

theorem Shell.puts_append (sh : Shell) (first rest : List UInt8) :
    sh.puts (first ++ rest) = (sh.puts first).puts rest := List.foldl_append

/-- A string that has no NUL. -/
theorem shPuts_text (sh : Shell) {str : List UInt8} (h : plainText str = true) : shPuts sh str = sh.puts str := by
  have hall : cString str = str := by
    rw [cString, List.takeWhile_eq_self_iff]
    intro c hc
    have hplain := List.all_eq_true.mp h c hc
    rw [decide_eq_true_eq] at hplain
    exact decide_eq_true hplain.1
  rw [shPuts, hall]
  rfl

theorem shPrintf_said (sh : Shell) {fmt : String} {args : List VaArg} {bytes : List UInt8}
    (h : printfBytes (literal fmt) args = .ok bytes) : shPrintf sh (literal fmt) args = .ok (sh.puts bytes) := by
  rw [shPrintf_eq, h]
  rfl

theorem said_entry (r : List UInt8 × UInt32) :
    printfBytes (literal " - %s\r\n") [.str (some r.1), .word r.2] = .ok (dirLine r) := by
  have hfmt : literal " - %s\r\n" = text " - " ++ 37 :: 115 :: (text "\r\n" ++ [0]) := by
    rw [literal_ofList, text_ofList, text_ofList]
    rfl
  rw [hfmt, said_str (plain_ofList (by decide)) (plain_ofList (by decide)), dirLine]

theorem said_debug (filename : List UInt8) : printfBytes
    (literal "DEBUG: '%s' not found in root (tried exact match)\r\n") [.str (some filename)]
      = .ok (debugLine filename) := by
  have hfmt : literal "DEBUG: '%s' not found in root (tried exact match)\r\n"
      = text "DEBUG: '" ++ 37 :: 115 :: (text "' not found in root (tried exact match)\r\n" ++ [0]) := by
    rw [literal_ofList, text_ofList, text_ofList]
    rfl
  rw [hfmt, said_str (plain_ofList (by decide)) (plain_ofList (by decide)), debugLine]

theorem said_notFound (programName : List UInt8) :
    printfBytes (literal "Failed to find program: %s\r\n") [.str (some programName)]
      = .ok (notFoundLine programName) := by
  have hfmt : literal "Failed to find program: %s\r\n"
      = text "Failed to find program: " ++ 37 :: 115 :: (text "\r\n" ++ [0]) := by
    rw [literal_ofList, text_ofList, text_ofList]
    rfl
  rw [hfmt, said_str (plain_ofList (by decide)) (plain_ofList (by decide)), notFoundLine]

theorem said_shortRead {fs : Ext2Fs} {inode : Inode} {n : UInt32} (hn : n.toNat = loadCount fs inode) :
    printfBytes (literal "Failed to read complete program (read %d of %d bytes)\r\n") [.word n, .word inode.iSizeLo]
      = .ok (shortReadLine fs inode) := by
  have hfmt : literal "Failed to read complete program (read %d of %d bytes)\r\n"
      = text "Failed to read complete program (read " ++
        37 :: 100 :: (text " of " ++ 37 :: 100 :: (text " bytes)\r\n" ++ [0])) := by
    rw [literal_ofList, text_ofList, text_ofList, text_ofList]
    rfl
  have hcount : UInt32.ofNat (loadCount fs inode) = n := by
    rw [← hn]
    exact UInt32.ofNat_toNat
  rw [hfmt, printfBytes_text (plain_ofList (by decide)), printfBytes_decimal,
    said_decimal (plain_ofList (by decide)) (plain_ofList (by decide)), ok_map, ok_map, shortReadLine, hcount]

theorem said_memory (total : UInt64) :
    printfBytes (literal "Booted with %d MB of Memory.\r\n") [.word (total / (1024 * 1024)).toUInt32]
      = .ok (memoryLine total) := by
  have hfmt : literal "Booted with %d MB of Memory.\r\n"
      = text "Booted with " ++ 37 :: 100 :: (text " MB of Memory.\r\n" ++ [0]) := by
    rw [literal_ofList, text_ofList, text_ofList]
    rfl
  rw [hfmt, said_decimal (plain_ofList (by decide)) (plain_ofList (by decide)), memoryLine]

theorem said_mount (fs : Ext2Fs) :
    printfBytes (literal "EXT2 filesystem mounted successfully! Block size: %d bytes\r\n") [.word fs.blockSize]
      = .ok (mountLine fs) := by
  have hfmt : literal "EXT2 filesystem mounted successfully! Block size: %d bytes\r\n"
      = text "EXT2 filesystem mounted successfully! Block size: " ++ 37 :: 100 :: (text " bytes\r\n" ++ [0]) := by
    rw [literal_ofList, text_ofList, text_ofList]
    rfl
  rw [hfmt, said_decimal (plain_ofList (by decide)) (plain_ofList (by decide)), mountLine]

/-! ## The walks -/

/-- **The walk that prints the directory** prints a line for each live record, in order. -/
theorem printDir_log {fs : Ext2Fs} (h : fs.Divisible) (m : Mem) (dir : Inode) (sh : Shell) :
    ext2ReadDir m fs dir printDirCb sh = .ok (sh.puts (listing (dirRecords m fs dir))) := by
  have hcb : DirentCb.onRecord printDirCb = fun sh r => .ok (sh.puts (dirLine r), true) := by
    funext sh r
    rw [DirentCb.onRecord, printDirCb, shPrintf_said sh (said_entry r)]
    rfl
  have hlines : ∀ (rs : List (List UInt8 × UInt32)) (sh : Shell),
      rs.foldl (fun sh r => sh.puts (dirLine r)) sh = sh.puts (listing rs) := by
    intro rs
    induction rs with
    | nil => exact fun sh => rfl
    | cons r rs ih =>
        intro sh
        rw [List.foldl_cons, ih]
        exact (sh.puts_append (dirLine r) (listing rs)).symm
  rw [ext2ReadDir_eq h, hcb, visit_always, hlines]
  rfl

/-- **The search for a file**, with its log. -/
theorem ext2FindFileInodeByName_log {fs : Ext2Fs} (h : fs.Divisible) (sh : Shell) (m : Mem) (filename : List UInt8) :
    ext2FindFileInodeByName sh m fs filename
      = .ok (sh.puts (searchLog m fs filename), ((findRecord m fs filename).map Prod.snd).getD 0) := by
  unfold ext2FindFileInodeByName
  rw [ext2ReadInode_eq h m (by decide), ok_bind]
  simp only [printDir_log h, findFile_eq h, ok_bind]
  rw [shPuts_text sh (show plainText (text "Disk Contents:\r\n") = true from plain_ofList (by decide))]
  unfold searchLog findRecord rootRecords
  cases hfind : (dirRecords m fs (Inode.read m (fs.inodeAddr m ext2RootIno))).find?
      (fun r => cString r.1 = cString filename) with
  | some r =>
      simp only [Bool.not_true, Bool.false_eq_true, if_false, pure_bind, reduceCtorEq, List.append_nil,
        Shell.puts_append, Option.map_some, Option.getD_some]
      rfl
  | none =>
      simp only [Bool.not_false, if_true, shPrintf_said _ (said_debug filename), ok_bind, Shell.puts_append]
      rfl

variable {k k' : KernelState} {fs : Ext2Fs} {programName : List UInt8} {setup : SetupReturn}

theorem umReadProgram_log (hbs : 0 < fs.blockSize.toNat) {inode : Inode}
    (h : umReadProgram k fs inode = .ok (k', setup)) :
    (setup = .complete ∧ k'.shell = k.shell) ∨
      (setup = .shortRead ∧ k'.shell = k.shell.puts (shortReadLine fs inode)) := by
  obtain ⟨n, hn, hread⟩ := ext2ReadFile_whole hbs k.mem inode
  have hsaid := said_shortRead hn
  generalize shortReadLine fs inode = line at hsaid ⊢
  unfold umReadProgram at h
  rw [hread, ok_bind] at h
  by_cases hfull : n = inode.iSizeLo
  · simp only [hfull, ne_eq, not_true_eq_false, if_false] at h
    obtain ⟨rfl, rfl⟩ := Prod.mk.inj (Except.ok.inj h)
    exact .inl ⟨rfl, rfl⟩
  · simp only [ne_eq, hfull, not_false_eq_true, if_true, shPrintf_said _ hsaid, ok_bind] at h
    obtain ⟨rfl, rfl⟩ := Prod.mk.inj (Except.ok.inj h)
    exact .inr ⟨rfl, rfl⟩

theorem umFindProgram_log (hdiv : fs.Divisible) (h : umFindProgram k fs programName = .ok (k', setup)) :
    k'.shell = k.shell.puts (setupLog k.mem fs programName setup) := by
  unfold umFindProgram at h
  rw [ext2FindFileInodeByName_log hdiv, ok_bind] at h
  cases hrecord : findRecord k.mem fs programName with
  | none =>
      rw [hrecord] at h
      simp only [Option.map_none, Option.getD_none, if_true, pure_bind, shPrintf_said _ (said_notFound programName),
        ok_bind] at h
      obtain ⟨rfl, rfl⟩ := Prod.mk.inj (Except.ok.inj h)
      rw [setupLog, Shell.puts_append]
  | some r =>
      have hlive := findRecord_live hrecord
      have hinode : programInode k.mem fs programName = some (Inode.read k.mem (fs.inodeAddr k.mem r.2)) := by
        rw [programInode, hrecord]
        rfl
      rw [hrecord] at h
      simp only [Option.map_some, Option.getD_some, if_neg hlive, ext2ReadInode_eq hdiv k.mem hlive, ok_bind] at h
      rcases umReadProgram_log hdiv.blockSize_pos h with ⟨rfl, hshell⟩ | ⟨rfl, hshell⟩
      · rw [hshell, setupLog]
      · rw [hshell, setupLog, hinode, Shell.puts_append, Option.map_some, Option.getD_some]

/-- A process that is created changes neither the memory nor the shell. -/
theorem umSetupEnv_find (k : KernelState) (fs : Ext2Fs) (programName : List UInt8) :
    umSetupEnv k fs programName
        = .ok ({ k with shell := k.shell.puts (text "Failed to create process\r\n") }, .noProcess) ∨
      ∃ k₁, umSetupEnv k fs programName = umFindProgram k₁ fs programName ∧ k₁.mem = k.mem ∧ k₁.shell = k.shell := by
  have hplain : plainText (text "Failed to create process\r\n") = true := plain_ofList (by decide)
  unfold umSetupEnv
  rcases procCreate_cases k.phys k.procs with ⟨-, heq⟩ | ⟨pid, procs, -, -, heq, -⟩
  · left
    rw [heq, ← shPuts_text k.shell hplain]
  · right
    rw [heq]
    exact ⟨_, rfl, rfl, rfl⟩

/-- **`umSetupEnv`**, with its log. -/
theorem umSetupEnv_log (h : umSetupEnv k fs programName = .ok (k', setup)) :
    k'.shell = k.shell.puts (setupLog k.mem fs programName setup) := by
  rcases umSetupEnv_find k fs programName with heq | ⟨k₁, heq, hmem, hshell⟩
  · rw [heq] at h
    obtain ⟨rfl, rfl⟩ := Prod.mk.inj (Except.ok.inj h)
    rw [setupLog]
  · rw [heq] at h
    by_cases hdiv : fs.Divisible
    · rw [umFindProgram_log hdiv h, hmem, hshell]
    · unfold umFindProgram at h
      rw [ext2FindFileInodeByName_error hdiv] at h
      cases h

/-! ## The whole boot -/

theorem mountAndSwitch_log {diskImg : UInt32} {e : BootEnd}
    (h : mountAndSwitch k diskImg programName = .ok (k', e)) :
    (∃ m s, ext2Mount k.mem k.phys diskImg = .ok (m, s, none) ∧ e = .halted ∧
      k'.shell = k.shell.puts (text "Failed to mount EXT2 filesystem from embedded image.\r\n")) ∨
    ∃ m s fs setup, ext2Mount k.mem k.phys diskImg = .ok (m, s, some fs) ∧ e = .userMode setup ∧
      k'.shell = k.shell.puts (mountLine fs ++ setupLog m fs programName setup) := by
  unfold mountAndSwitch at h
  obtain ⟨⟨m, s, mounted⟩, hmount, hrest⟩ := bind_eq_ok.mp h
  cases mounted with
  | none =>
      have hplain : plainText (text "Failed to mount EXT2 filesystem from embedded image.\r\n") = true :=
        plain_ofList (by decide)
      simp only [shPuts_text k.shell hplain] at hrest
      obtain ⟨rfl, rfl⟩ := Prod.mk.inj (Except.ok.inj hrest)
      exact .inl ⟨m, s, hmount, rfl, rfl⟩
  | some fs =>
      simp only [shPrintf_said _ (said_mount fs), ok_bind] at hrest
      obtain ⟨⟨k₁, setup⟩, hsetup, hend⟩ := bind_eq_ok.mp hrest
      obtain ⟨rfl, rfl⟩ := Prod.mk.inj (Except.ok.inj hend)
      refine .inr ⟨m, s, fs, setup, hmount, rfl, ?_⟩
      rw [umSetupEnv_log hsetup, Shell.puts_append]

/-- **`kernelEntry`**, with its log. -/
theorem kernelEntry_log {b : BootInput} {e : BootEnd} (h : kernelEntry b = .ok (k, e)) :
    ∃ ksh bytes, shInit b.streamData b.videoMemory vgaWidth (vgaWidth * vgaHeight) = .ok ksh ∧
      BootLog b e bytes ∧ k.shell = ksh.puts bytes := by
  unfold kernelEntry setupKernel at h
  obtain ⟨⟨k₁, goOn⟩, hready, hrest⟩ := bind_eq_ok.mp h
  obtain ⟨ksh, hinit, hready⟩ := bind_eq_ok.mp hready
  refine ⟨ksh, ?_⟩
  cases hgdt : b.gdtReady with
  | false =>
      simp only [hgdt, Bool.not_false, if_true, shPuts_text ksh (show plainText
        (text "FATAL: Failed to initialize GDT!\r\n") = true from plain_ofList (by decide))] at hready
      obtain ⟨rfl, rfl⟩ := Prod.mk.inj (Except.ok.inj hready)
      obtain ⟨rfl, rfl⟩ := Prod.mk.inj (Except.ok.inj hrest)
      exact ⟨_, hinit, .noGdt hgdt, rfl⟩
  | true =>
      cases hidt : b.idtReady with
      | false =>
          simp only [hgdt, hidt, Bool.not_false, Bool.not_true, if_true, shPuts_text ksh (show plainText
            (text "FATAL: Failed to initialize IDT!\r\n") = true from plain_ofList (by decide))] at hready
          obtain ⟨rfl, rfl⟩ := Prod.mk.inj (Except.ok.inj hready)
          obtain ⟨rfl, rfl⟩ := Prod.mk.inj (Except.ok.inj hrest)
          exact ⟨_, hinit, .noIdt hgdt hidt, rfl⟩
      | true =>
          simp only [hgdt, hidt, Bool.not_true, shPrintf_said _ (said_memory b.totalMemoryBytes), ok_bind] at hready
          obtain ⟨rfl, rfl⟩ := Prod.mk.inj (Except.ok.inj hready)
          rcases mountAndSwitch_log hrest with ⟨m, s, hmount, rfl, hshell⟩ | ⟨m, s, fs, setup, hmount, rfl, hshell⟩
          · refine ⟨_, hinit, .notMounted hgdt hidt hmount, ?_⟩
            rw [hshell, Shell.puts_append]
          · refine ⟨_, hinit, .entered hgdt hidt hmount, ?_⟩
            rw [hshell, List.append_assoc, Shell.puts_append _ (memoryLine _)]

end Drupe
