import Drupe.Filesystem.Correctness.ReadDir
import Drupe.Kernel.FindFile

/-!
# `Kernel.Correctness.FindFile` — which file a name finds

The first live record of the root directory with the name (`findRecord`), or none; the shell is written to in
either case. Divisions by zero are all that can keep the search from returning.
-/

namespace Drupe

open Lib

/-- The live records of the root directory. -/
def rootRecords (m : Mem) (fs : Ext2Fs) : List (List UInt8 × UInt32) :=
  dirRecords m fs (Inode.read m (fs.inodeAddr m ext2RootIno))

/-- The first live record of the root directory with a name. -/
def findRecord (m : Mem) (fs : Ext2Fs) (filename : List UInt8) : Option (List UInt8 × UInt32) :=
  (rootRecords m fs).find? fun r => cString r.1 = cString filename

theorem findRecord_live {m : Mem} {fs : Ext2Fs} {filename : List UInt8} {r : List UInt8 × UInt32}
    (h : findRecord m fs filename = some r) : r.2 ≠ 0 :=
  dirRecords_live (List.mem_of_find?_eq_some h)

/-- The walk that prints the directory always returns. -/
theorem printDir_total {fs : Ext2Fs} (h : fs.Divisible) (m : Mem) (dir : Inode) (sh : Shell) :
    ∃ sh', ext2ReadDir m fs dir printDirCb sh = .ok sh' := by
  have hfits : formatFits (literal " - %s\r\n") [.str, .word] = true := by decide +kernel
  have hcb : ∀ sh r, ∃ s, DirentCb.onRecord printDirCb sh r = .ok s := by
    intro sh r
    obtain ⟨sh', hprint⟩ := shPrintf_total sh hfits [.str (some r.1), .word r.2] rfl
    exact ⟨(sh', true), by rw [DirentCb.onRecord, printDirCb, hprint]; rfl⟩
  obtain ⟨r, hr⟩ := visit_total hcb (dirRecords m fs dir) sh
  exact ⟨r.1, by rw [ext2ReadDir_eq h, hr]; rfl⟩

/-- The walk that searches the directory stops at the record with the name. -/
theorem findFile_eq {fs : Ext2Fs} (h : fs.Divisible) (m : Mem) (dir : Inode) (filename : List UInt8) :
    ext2ReadDir m fs dir findFileCallback ⟨filename, 0, false⟩ = .ok
      (match (dirRecords m fs dir).find? (fun r => cString r.1 = cString filename) with
      | some r => ⟨filename, r.2, true⟩
      | none => ⟨filename, 0, false⟩) := by
  have hcb : ∀ r : List UInt8 × UInt32, DirentCb.onRecord findFileCallback ⟨filename, 0, false⟩ r
      = .ok (if decide (cString r.1 = cString filename) then (⟨filename, r.2, true⟩, false)
        else (⟨filename, 0, false⟩, true)) := by
    intro r
    rw [DirentCb.onRecord, findFileCallback]
    -- the callback stops the walk at a record with the name, and only there
    by_cases heq : cString r.1 = cString filename
    · rw [if_pos ((testStrcmp_eq_zero_iff _ _).mpr heq), if_pos (by simpa using heq)]
    · rw [if_neg (fun hc => heq ((testStrcmp_eq_zero_iff _ _).mp hc)), if_neg (by simpa using heq)]
  rw [ext2ReadDir_eq h, visit_find hcb]
  cases (dirRecords m fs dir).find? (fun r => cString r.1 = cString filename) with
  | some r => rfl
  | none => rfl

/-- **`ext2FindFileInodeByName`** returns the inode number of the first live record with the name, 0 when
    there is none. -/
theorem ext2FindFileInodeByName_eq {fs : Ext2Fs} (h : fs.Divisible) (sh : Shell) (m : Mem)
    (filename : List UInt8) :
    ∃ sh', ext2FindFileInodeByName sh m fs filename
      = .ok (sh', ((findRecord m fs filename).map Prod.snd).getD 0) := by
  have hfits : formatFits (literal "DEBUG: '%s' not found in root (tried exact match)\r\n") [.str] = true := by
    decide +kernel
  unfold ext2FindFileInodeByName
  rw [ext2ReadInode_eq h m (by decide)]
  obtain ⟨sh₁, hprint⟩ := printDir_total h m (Inode.read m (fs.inodeAddr m ext2RootIno))
    (shPuts sh (text "Disk Contents:\r\n"))
  show ∃ sh', (ext2ReadDir m fs _ printDirCb _ >>= _) = _
  rw [hprint]
  show ∃ sh', (ext2ReadDir m fs _ findFileCallback _ >>= _) = _
  rw [findFile_eq h]
  show ∃ sh', _ = Except.ok (sh', (Option.map Prod.snd (findRecord m fs filename)).getD 0)
  unfold findRecord rootRecords
  cases (dirRecords m fs (Inode.read m (fs.inodeAddr m ext2RootIno))).find?
      (fun r => cString r.1 = cString filename) with
  | some r => exact ⟨sh₁, rfl⟩
  | none =>
      obtain ⟨sh₂, hdebug⟩ := shPrintf_total sh₁ hfits [.str (some filename)] rfl
      refine ⟨sh₂, ?_⟩
      simp only [hdebug]
      rfl

/-- A division by zero keeps the search from returning. -/
theorem ext2FindFileInodeByName_error {fs : Ext2Fs} (h : ¬ fs.Divisible) (sh : Shell) (m : Mem)
    (filename : List UInt8) :
    ext2FindFileInodeByName sh m fs filename = .error .divideError := by
  have hno : ext2RootIno ≠ 0 := by decide
  unfold ext2FindFileInodeByName
  rw [ext2ReadInode_cases, if_neg hno]
  by_cases hdiv : fs.sb.sInodesPerGroup = 0 ∨ fs.blockSize / UInt32.ofNat inodeSize = 0
  · rw [if_pos hdiv]
    rfl
  -- the root inode is read, and the walk divides
  · have hwalk : fs.blockSize / 512 = 0 := by
      by_contra hne
      exact h ⟨(not_or.mp hdiv).1, hne⟩
    rw [if_neg hdiv]
    show (ext2ReadDir m fs _ printDirCb _ >>= _) = _
    unfold ext2ReadDir
    rw [if_pos hwalk]
    rfl

end Drupe
