import Drupe.Interrupts.Syscalls

/-!
# `Interrupts.Correctness.UserWindow` — which memory a system call touches

`SYS_WRITE` and `SYS_READ` check that the caller's buffer *starts* in the user window, and nothing more. The
call then stays in the window, and refuses a buffer that does not fit it, exactly when the start is outside,
or the whole buffer is inside, or the call is a write of length `0xFFFFFFFF`, which `sh_write_stream` sees
as -1 (`userBuffer_iff`).

`touched_write` and `touched_read` say what the addresses that a result names mean.
-/

namespace Drupe

open Lib

/-- Some byte of the caller's buffer, `f.edx` bytes from `f.ecx` on, is outside the user window. -/
def LeavesWindow (f : InterruptFrame) : Prop :=
  ∃ k < f.edx.toNat, ¬ (userWindowStart.toNat ≤ f.ecx.toNat + k ∧
    f.ecx.toNat + k < userWindowEnd.toNat)

/-- **What a call owes user memory**: it accesses the caller's buffer in the window only, and answers -1 to a
    buffer that leaves it. -/
def UserBufferSafe (f : InterruptFrame) (r : SyscallResult) : Prop :=
  (∀ a ∈ r.touched, InWindow a) ∧ (LeavesWindow f → r.frame.eax = errorResult)

/-- The start of the buffer is outside the window, or all of it is inside, or the call writes -1 bytes. -/
def BufferFits (f : InterruptFrame) : Prop :=
  ¬ InWindow f.ecx ∨ f.ecx.toNat + f.edx.toNat ≤ userWindowEnd.toNat ∨
    (f.eax = sysWrite ∧ f.edx = errorResult)

theorem inWindow_iff (a : UInt32) :
    InWindow a ↔ userWindowStart.toNat ≤ a.toNat ∧ a.toNat < userWindowEnd.toNat :=
  and_congr UInt32.le_iff_toNat_le UInt32.lt_iff_toNat_lt

theorem window_toNat : userWindowStart.toNat = 0x400000 ∧ userWindowEnd.toNat = 0x900000 :=
  ⟨rfl, rfl⟩

/-- A buffer that starts in the window leaves it exactly when it ends past the window's end. -/
theorem leavesWindow_iff {f : InterruptFrame} (h : InWindow f.ecx) :
    LeavesWindow f ↔ userWindowEnd.toNat < f.ecx.toNat + f.edx.toNat := by
  rw [inWindow_iff] at h
  constructor
  · rintro ⟨k, hk, hout⟩
    omega
  -- the first byte past the window is one of the buffer
  · intro hend
    exact ⟨userWindowEnd.toNat - f.ecx.toNat, by omega, by omega⟩

/-- The first `n` addresses of a buffer that starts in the window are in the window when the buffer is. -/
theorem bufAddrs_inWindow {a : UInt32} {n : Nat} (h : InWindow a)
    (hend : a.toNat + n ≤ userWindowEnd.toNat) : ∀ b ∈ bufAddrs a n, InWindow b := by
  intro b hb
  obtain ⟨k, hk, rfl⟩ := List.mem_map.mp hb
  have hlt := List.mem_range.mp hk
  have hwin := window_toNat
  rw [inWindow_iff] at h ⊢
  rw [toNat_add_ofNat (by omega)]
  omega

/-- Calls that touch nothing and answer -1 are safe. -/
theorem userBufferSafe_refused {f : InterruptFrame} {r : SyscallResult} (htouched : r.touched = [])
    (heax : r.frame.eax = errorResult) : UserBufferSafe f r := by
  refine ⟨?_, fun _ => heax⟩
  intro a ha
  rw [htouched] at ha
  exact absurd ha (by simp)

/-- A call on a buffer that starts in the window, touches at most `f.edx` bytes of it, and answers -1 only as
    a write of -1 bytes. -/
theorem userBufferSafe_iff {f : InterruptFrame} {r : SyscallResult} {n : Nat} (hin : InWindow f.ecx)
    (htouched : r.touched = bufAddrs f.ecx n) (hn : n ≤ f.edx.toNat)
    (hret : r.frame.eax = errorResult ↔ f.eax = sysWrite ∧ f.edx = errorResult)
    (hnone : f.edx = errorResult → n = 0) : UserBufferSafe f r ↔ BufferFits f := by
  have hleaves := leavesWindow_iff hin
  constructor
  · rintro ⟨-, herr⟩
    by_cases hend : f.ecx.toNat + f.edx.toNat ≤ userWindowEnd.toNat
    · exact .inr (.inl hend)
    · exact .inr (.inr (hret.mp (herr (hleaves.mpr (by omega)))))
  · rintro (hout | hend | hminus)
    · exact absurd hin hout
    · refine ⟨?_, fun hl => ?_⟩
      · rw [htouched]
        exact bufAddrs_inWindow hin (by omega)
      · have := hleaves.mp hl
        omega
    · refine ⟨?_, fun _ => hret.mpr hminus⟩
      rw [htouched, hnone hminus.2]
      intro a ha
      exact absurd ha (by simp [bufAddrs])

/-- The checks: a buffer that starts outside the window (a null one does) is refused, and nothing is touched;
    any other is accessed. -/
theorem onUserBuffer_cases (sh : Shell) (m : Mem) (f : InterruptFrame) (message : String)
    (hmessage : formatFits (literal message) [.word] = true) (access : Shell → SyscallResult) :
    ∃ r, onUserBuffer (some sh) m f message access = .ok r ∧
      ((¬ InWindow f.ecx ∧ r.touched = [] ∧ r.frame.eax = errorResult) ∨
        (InWindow f.ecx ∧ r = access sh)) := by
  unfold onUserBuffer
  simp only
  by_cases hnull : f.ecx = 0
  · rw [if_pos hnull]
    exact ⟨_, rfl, .inl ⟨by rw [hnull]; decide, rfl, rfl⟩⟩
  · rw [if_neg hnull]
    by_cases hin : InWindow f.ecx
    · rw [if_pos hin]
      exact ⟨_, rfl, .inr ⟨hin, rfl⟩⟩
    · obtain ⟨sh', hprint⟩ := shPrintf_total sh hmessage [.word f.ecx] rfl
      rw [if_neg hin, hprint]
      exact ⟨_, rfl, .inl ⟨hin, rfl, rfl⟩⟩

theorem handleWrite_safe_iff (sh : Shell) (m : Mem) {f : InterruptFrame} (hcall : f.eax = sysWrite) :
    ∃ r, handleWrite (some sh) m f = .ok r ∧ (UserBufferSafe f r ↔ BufferFits f) := by
  obtain ⟨r, hr, hcases⟩ := onUserBuffer_cases sh m f "Invalid string pointer: 0x%x\r\n"
    (by decide +kernel) _
  refine ⟨r, hr, ?_⟩
  rcases hcases with ⟨hout, htouched, heax⟩ | ⟨hin, rfl⟩
  · exact iff_of_true (userBufferSafe_refused htouched heax) (.inl hout)
  · refine userBufferSafe_iff hin rfl ?_ ?_ ?_
    · exact Nat.le_trans (shWriteStream_le _ _ _ _) (signed_toNat f.edx).1
    · exact ⟨fun h => ⟨hcall, h⟩, fun h => h.2⟩
    · intro hminus
      have hle := shWriteStream_le sh (signed f.ebx) (userBuf m f.ecx) (signed f.edx)
      rw [hminus] at hle ⊢
      exact Nat.le_zero.mp hle

theorem handleRead_safe_iff (sh : Shell) (m : Mem) {f : InterruptFrame} (hcall : f.eax = sysRead) :
    ∃ r, handleRead (some sh) m f = .ok r ∧ (UserBufferSafe f r ↔ BufferFits f) := by
  obtain ⟨r, hr, hcases⟩ := onUserBuffer_cases sh m f "Invalid buffer pointer: 0x%x\r\n"
    (by decide +kernel) _
  refine ⟨r, hr, ?_⟩
  rcases hcases with ⟨hout, htouched, heax⟩ | ⟨hin, rfl⟩
  · exact iff_of_true (userBufferSafe_refused htouched heax) (.inl hout)
  · have hlen := streamReadLoop_length (signed f.edx).toNat 0 (sh.stream streamStdin)
    obtain ⟨hle, hlt⟩ := signed_toNat f.edx
    refine userBufferSafe_iff hin rfl (Nat.le_trans hlen hle) ?_ ?_
    -- a number of delivered bytes is never -1
    · constructor
      · intro hret
        have hnat := congrArg UInt32.toNat hret
        have herr : errorResult.toNat = 4294967295 := rfl
        have hcount : (UInt32.ofNat (streamRead (sh.stream streamStdin) (signed f.edx)).2.length).toNat
            = errorResult.toNat := hnat
        rw [UInt32.toNat_ofNat'] at hcount
        unfold streamRead at hcount
        omega
      · rintro ⟨hw, -⟩
        rw [hcall] at hw
        exact absurd hw (by decide)
    · intro hminus
      rw [hminus] at hlen ⊢
      exact Nat.le_zero.mp hlen

/-- **When a system call keeps to user memory.** For every user-mode frame that asks for `SYS_WRITE` or
    `SYS_READ`, every state of the shell and every memory: the call returns, and it stays in the window and
    refuses what leaves it exactly when `BufferFits`. -/
theorem userBuffer_iff (addrs : KernelAddrs) (sh : Shell) (m : Mem) {f : InterruptFrame}
    (huser : f.cs &&& 0x3 = 3) (hcall : f.eax = sysWrite ∨ f.eax = sysRead) :
    ∃ r, handleSyscall addrs (some sh) m f = .ok r ∧ (UserBufferSafe f r ↔ BufferFits f) := by
  unfold handleSyscall
  rw [if_neg (not_not.mpr huser)]
  rcases hcall with hw | hr
  · rw [if_pos hw]
    exact handleWrite_safe_iff sh m hw
  · have h1 : f.eax ≠ sysWrite := by rw [hr]; decide
    have h2 : f.eax ≠ sysExit := by rw [hr]; decide
    have h3 : f.eax ≠ sysGetpid := by rw [hr]; decide
    rw [if_neg h1, if_neg h2, if_neg h3, if_pos hr]
    exact handleRead_safe_iff sh m hr

/-! ## What the touched addresses mean -/

/-- **Stores.** `SYS_READ` changes memory at the touched addresses only, and stores there, in order, the bytes
    that the stream delivers. -/
theorem touched_read (sh : Shell) (m : Mem) {f : InterruptFrame} (hin : InWindow f.ecx) :
    ∃ r, handleRead (some sh) m f = .ok r ∧
      r.touched = bufAddrs f.ecx (streamRead (sh.stream streamStdin) (signed f.edx)).2.length ∧
      r.touched.map r.mem = (streamRead (sh.stream streamStdin) (signed f.edx)).2 ∧
      ∀ a ∉ r.touched, r.mem a = m a := by
  have hnull : f.ecx ≠ 0 := by
    intro h0
    rw [h0] at hin
    exact absurd hin (by decide)
  have hlen := streamReadLoop_length (signed f.edx).toNat 0 (sh.stream streamStdin)
  obtain ⟨-, hlt⟩ := signed_toNat f.edx
  refine ⟨_, by unfold handleRead onUserBuffer; simp only; rw [if_neg hnull, if_pos hin], rfl, ?_⟩
  simp only [bufAddrs]
  generalize hbytes : (streamRead (sh.stream streamStdin) (signed f.edx)).2 = bytes
  unfold streamRead at hbytes
  rw [hbytes] at hlen
  have htrans : Transferred m (store (fun k => f.ecx + UInt32.ofNat k) (fun _ k => bytes[k]?.getD 0)
      bytes.length 0 m) (fun k => f.ecx + UInt32.ofNat k) (fun k => bytes[k]?.getD 0) bytes.length := by
    refine store_transferred ?_ fun _ _ _ => rfl
    intro j k hj hk heq
    have := add_ofNat_inj (by omega) (by omega) heq
    omega
  constructor
  · rw [List.map_map]
    apply List.ext_getElem (by simp)
    intro k h1 h2
    rw [List.getElem_map, List.getElem_range]
    show store _ _ bytes.length 0 m (f.ecx + UInt32.ofNat k) = bytes[k]
    rw [htrans.written k h2, List.getElem?_eq_getElem h2, Option.getD_some]
  · intro a ha
    apply htrans.frame
    rintro k hk rfl
    exact ha (List.mem_map.mpr ⟨k, List.mem_range.mpr hk, rfl⟩)

/-- **Loads.** `SYS_WRITE` leaves memory alone, and does the same in every memory that agrees on the touched
    addresses. -/
theorem touched_write (sh : Shell) (m m' : Mem) {f : InterruptFrame} (hin : InWindow f.ecx) :
    ∃ r, handleWrite (some sh) m f = .ok r ∧ r.mem = m ∧
      ((∀ a ∈ r.touched, m a = m' a) → handleWrite (some sh) m' f = .ok { r with mem := m' }) := by
  have hnull : f.ecx ≠ 0 := by
    intro h0
    rw [h0] at hin
    exact absurd hin (by decide)
  refine ⟨_, by unfold handleWrite onUserBuffer; simp only; rw [if_neg hnull, if_pos hin], rfl, ?_⟩
  intro hsame
  unfold handleWrite onUserBuffer
  simp only
  rw [if_neg hnull, if_pos hin]
  have hcongr : shWriteStream sh (signed f.ebx) (userBuf m f.ecx) (signed f.edx) =
      shWriteStream sh (signed f.ebx) (userBuf m' f.ecx) (signed f.edx) :=
    shWriteStream_congr fun k hk => hsame _ (List.mem_map.mpr ⟨k, List.mem_range.mpr hk, rfl⟩)
  rw [hcongr]

/-- A user-mode frame that asks to write two bytes to stdout, the last one of the window and the next. -/
def lastByteFrame : InterruptFrame where
  gs := 0x23
  fs := 0x23
  es := 0x23
  ds := 0x23
  edi := 0
  esi := 0
  ebp := 0
  esp := 0
  ebx := 1
  edx := 2
  ecx := 0x8FFFFF
  eax := sysWrite
  intNo := 0x80
  errCode := 0
  eip := 0x400000
  cs := 0x1B
  eflags := 0x202
  useresp := 0x800000
  ss := 0x23

theorem userBuffer_iff_lastByte :
    ∃ r, handleSyscall ⟨0, 0⟩ (some bootShell) (fun _ => 0) lastByteFrame = .ok r ∧
      ¬ UserBufferSafe lastByteFrame r := by
  obtain ⟨r, hr, hiff⟩ := userBuffer_iff ⟨0, 0⟩ bootShell (fun _ => 0)
    (show lastByteFrame.cs &&& 0x3 = 3 by decide) (.inl rfl)
  refine ⟨r, hr, fun hsafe => ?_⟩
  rcases hiff.mp hsafe with h | h | ⟨-, h⟩
  · exact h (by decide)
  · exact absurd h (by decide)
  · exact absurd h (by decide)

/-- The call reads the byte after the window, and answers 2. -/
theorem write_past_window :
    ∃ r, handleSyscall ⟨0, 0⟩ (some bootShell) (fun _ => 0) lastByteFrame = .ok r ∧
      r.touched = [0x8FFFFF, 0x900000] ∧ ¬ InWindow 0x900000 ∧ r.frame.eax = 2 ∧
      ¬ UserBufferSafe lastByteFrame r := by
  have hret : (shWriteStream bootShell (signed lastByteFrame.ebx) (userBuf (fun _ => 0) lastByteFrame.ecx)
      (signed lastByteFrame.edx)).2 = 2 := by
    have h := shWriteStream_ret bootShell streamStdout (userBuf (fun _ => 0) lastByteFrame.ecx) 2
    rw [shInit_stream shInit_bootShell] at h
    exact h.trans (by decide)
  have htouched : bufAddrs lastByteFrame.ecx (shWriteStream bootShell (signed lastByteFrame.ebx)
      (userBuf (fun _ => 0) lastByteFrame.ecx) (signed lastByteFrame.edx)).2.toNat
      = [0x8FFFFF, 0x900000] := by
    rw [hret]
    decide
  refine ⟨_, rfl, htouched, by decide, rfl, ?_⟩
  rintro ⟨hin, -⟩
  have hlast : (0x900000 : UInt32) ∈ bufAddrs lastByteFrame.ecx (shWriteStream bootShell
      (signed lastByteFrame.ebx) (userBuf (fun _ => 0) lastByteFrame.ecx)
      (signed lastByteFrame.edx)).2.toNat := by
    rw [htouched]
    decide
  exact absurd (hin 0x900000 hlast) (by decide)

end Drupe
