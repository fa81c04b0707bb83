import Drupe.Filesystem.Ext2
import Drupe.Shell.Shell

/-!
# `Kernel.FindFile` — a file of the root directory, by its name (`kernel.c`)

`ext2FindFileInodeByName` walks the root directory twice: to print it, and to search it.
-/

namespace Drupe

open Lib

/-- The end of a list is the NUL of the string. The answer tells only whether it is zero, so the difference
    of the characters may stay an `Int`. -/
def testStrcmp : (s1 s2 : List UInt8) → Int
  | c :: s1, d :: s2 => if c ≠ 0 ∧ c = d then testStrcmp s1 s2 else (c.toNat : Int) - d.toNat
  | c :: _, [] => c.toNat
  | [], d :: _ => -(d.toNat : Int)
  | [], [] => 0

/-- `find_file_ctx_t` -/
structure FindFileCtx where
  targetName : List UInt8
  foundInode : UInt32
  found : Bool
deriving DecidableEq

def findFileCallback : DirentCb FindFileCtx := fun ffc name inode =>
  if testStrcmp name ffc.targetName = 0 then
    .ok ({ ffc with foundInode := inode, found := true }, false)
  else .ok (ffc, true)

def printDirCb : DirentCb Shell := fun sh name inode => do
  let sh ← shPrintf sh (literal " - %s\r\n") [.str (some name), .word inode]
  return (sh, true)

/-- 0 stands for no file. -/
def ext2FindFileInodeByName (sh : Shell) (m : Mem) (fs : Ext2Fs) (filename : List UInt8) :
    Except Fault (Shell × UInt32) := do
  match ← ext2ReadInode m fs ext2RootIno with
  | none => return (shPuts sh (text "EXT2: Can't read root inode\r\n"), 0)
  | some rootInode =>
    -- the first walk prints, the second one searches
    let sh := shPuts sh (text "Disk Contents:\r\n")
    let sh ← ext2ReadDir m fs rootInode printDirCb sh
    let ctx ← ext2ReadDir m fs rootInode findFileCallback ⟨filename, 0, false⟩
    let sh ← if !ctx.found then
        shPrintf sh (literal "DEBUG: '%s' not found in root (tried exact match)\r\n")
          [.str (some filename)]
      else pure sh
    return (sh, ctx.foundInode)

/-! ## The comparison -/

theorem cString_nil : cString [] = [] := rfl

theorem cString_cons_zero (s : List UInt8) : cString (0 :: s) = [] := rfl

theorem cString_cons {c : UInt8} (hc : c ≠ 0) (s : List UInt8) : cString (c :: s) = c :: cString s :=
  List.takeWhile_cons_of_pos (by simpa using hc)

theorem cString_cons_eq_nil {c : UInt8} {s : List UInt8} : cString (c :: s) = [] ↔ c = 0 := by
  constructor
  · intro h
    by_contra hc
    rw [cString_cons hc] at h
    exact absurd h (by simp)
  · rintro rfl
    exact cString_cons_zero s

/-- **`testStrcmp`** is zero exactly for equal strings. -/
theorem testStrcmp_eq_zero_iff (s1 s2 : List UInt8) : testStrcmp s1 s2 = 0 ↔ cString s1 = cString s2 := by
  fun_induction testStrcmp s1 s2 with
  | case1 c s1 d s2 hcd ih =>
      obtain ⟨hc, rfl⟩ := hcd
      rw [ih, cString_cons hc, cString_cons hc, List.cons.injEq, and_iff_right rfl]
  | case2 c s1 d s2 hcd =>
      have hdiff : (c.toNat : Int) - d.toNat = 0 ↔ c = d := by
        rw [← UInt8.toNat_inj]
        omega
      rw [hdiff]
      by_cases hc : c = 0
      · rw [hc, cString_cons_zero, eq_comm (a := []), cString_cons_eq_nil, eq_comm]
      -- the loop stopped at characters that differ
      · have hne : c ≠ d := fun h => hcd ⟨hc, h⟩
        rw [cString_cons hc]
        refine iff_of_false hne fun h => ?_
        by_cases hd : d = 0
        · rw [hd, cString_cons_zero] at h
          exact absurd h (by simp)
        · rw [cString_cons hd] at h
          exact hne (List.cons.inj h).1
  | case3 c s1 =>
      rw [cString_nil, cString_cons_eq_nil, ← UInt8.toNat_inj]
      exact Int.natCast_eq_zero
  | case4 d s2 =>
      rw [cString_nil, eq_comm (a := []), cString_cons_eq_nil, ← UInt8.toNat_inj, Int.neg_eq_zero]
      exact Int.natCast_eq_zero
  | case5 => exact iff_of_true rfl rfl

end Drupe
