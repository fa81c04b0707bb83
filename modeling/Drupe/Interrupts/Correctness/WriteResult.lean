import Drupe.Interrupts.Correctness.ReachableShell
import Drupe.Interrupts.Correctness.UserWindow

/-!
# `Interrupts.Correctness.WriteResult` — what `SYS_WRITE` returns

`sh_write_stream` returns the number of bytes it has queued, or -1, and `SYS_WRITE` does not look at it:
the answer to a buffer in the user window is the length that was asked for. That is the number of bytes
written when the stream exists and has room for them all (`write_reports_iff`).
-/

namespace Drupe

/-- `sh_write_stream` refuses every other stream. -/
def StreamExists (f : InterruptFrame) : Prop := 0 ≤ signed f.ebx ∧ signed f.ebx < streamCount

instance (f : InterruptFrame) : Decidable (StreamExists f) := inferInstanceAs (Decidable (_ ∧ _))

/-- **What `SYS_WRITE` owes its caller**: the answer is the number of bytes of the buffer that were
    appended to the queue of the stream, which `sh_render` then takes its bytes from; and when there is no
    such stream, or the buffer starts outside the window, the answer is -1, no byte of the buffer is read,
    and what the call does to the shell is the same whatever the memory holds. -/
structure WriteReports (addrs : KernelAddrs) (sh : Shell) (m : Mem) (f : InterruptFrame) (r : SyscallResult) :
    Prop where
  appended : InWindow f.ecx → ∀ i : Fin streamCount, signed f.ebx = i.val →
    r.shell = some (shRender (sh.staged i (userBuf m f.ecx) (signed f.edx))) ∧
    ((sh.staged i (userBuf m f.ecx) (signed f.edx)).stream i).contents
      = (sh.stream i).contents ++ (List.range r.frame.eax.toNat).map (userBuf m f.ecx)
  refused : ¬ StreamExists f ∨ ¬ InWindow f.ecx → r.frame.eax = errorResult ∧ r.touched = [] ∧
    ∀ m', handleSyscall addrs (some sh) m' f = .ok { r with mem := m' }

/-- The buffer starts outside the window, or its length is what `sh_write_stream` returns: -1 without a
    stream, and the number of bytes asked for when the stream has room for them. -/
def WriteFits (sh : Shell) (f : InterruptFrame) : Prop :=
  ¬ InWindow f.ecx ∨
  if h : f.ebx.toNat < streamCount then
    (f.edx.toNat : Int) ≤ streamBufSize - (sh.stream ⟨f.ebx.toNat, h⟩).count
  else f.edx = errorResult

/-- A stream number is not negative and small as an `int` when it is small as a word. -/
theorem streamExists_iff {f : InterruptFrame} : StreamExists f ↔ f.ebx.toNat < streamCount := by
  have hlt := f.ebx.toNat_lt
  unfold StreamExists signed streamCount
  split
  · omega
  · rename_i hbig
    have hge : 2147483648 ≤ f.ebx.toNat := UInt32.le_iff_toNat_le.mp (UInt32.not_lt.mp hbig)
    omega

theorem signed_index {f : InterruptFrame} (h : f.ebx.toNat < streamCount) : signed f.ebx = f.ebx.toNat := by
  have hlt : f.ebx < 0x80000000 := by
    rw [UInt32.lt_iff_toNat_lt]
    exact Nat.lt_trans h (by decide)
  rw [signed, if_pos hlt]

/-- A stream takes all the bytes of a length exactly when it has room for them. -/
theorem Stream.Ok.room_eq_iff {s : Stream} (h : s.Ok) (len : UInt32) :
    (s.room (signed len)).toNat = len.toNat ↔ (len.toNat : Int) ≤ streamBufSize - s.count := by
  obtain ⟨-, -, hpos, hle, -⟩ := h
  have hlt := len.toNat_lt
  unfold Stream.room signed
  unfold streamBufSize at *
  split
  · omega
  -- a length that is negative as an `int`: nothing is written
  · rename_i hbig
    have hge : 2147483648 ≤ len.toNat := UInt32.le_iff_toNat_le.mp (UInt32.not_lt.mp hbig)
    omega

section Write

variable {addrs : KernelAddrs} {sh : Shell} {m : Mem} {f : InterruptFrame}

theorem handleSyscall_write (huser : f.cs &&& 0x3 = 3) (hcall : f.eax = sysWrite) (m : Mem) :
    handleSyscall addrs (some sh) m f = handleWrite (some sh) m f := by
  unfold handleSyscall
  rw [if_neg (not_not.mpr huser), if_pos hcall]

/-- A call with a buffer outside the window does the same for every memory. -/
theorem handleWrite_outside (hout : ¬ InWindow f.ecx) :
    ∃ sh', ∀ m, handleWrite (some sh) m f = .ok ⟨{ f with eax := errorResult }, some sh', m, []⟩ := by
  unfold handleWrite onUserBuffer
  simp only
  by_cases hnull : f.ecx = 0
  · refine ⟨sh, fun m => ?_⟩
    rw [if_pos hnull]
    rfl
  · have hfits : formatFits (literal "Invalid string pointer: 0x%x\r\n") [.word] = true := by decide +kernel
    obtain ⟨sh', hprint⟩ := shPrintf_total sh hfits [.word f.ecx] rfl
    refine ⟨sh', fun m => ?_⟩
    rw [if_neg hnull, if_neg hout, hprint]
    rfl

/-- What a call with a buffer in the window leaves. -/
def writeInside (sh : Shell) (m : Mem) (f : InterruptFrame) : SyscallResult :=
  let r := shWriteStream sh (signed f.ebx) (userBuf m f.ecx) (signed f.edx)
  ⟨{ f with eax := f.edx }, some r.1, m, bufAddrs f.ecx r.2.toNat⟩

theorem handleWrite_inside (hin : InWindow f.ecx) (m : Mem) :
    handleWrite (some sh) m f = .ok (writeInside sh m f) := by
  have hnull : f.ecx ≠ 0 := by
    intro h0
    rw [h0] at hin
    exact absurd hin (by decide)
  unfold handleWrite onUserBuffer
  simp only
  rw [if_neg hnull, if_pos hin]
  rfl

/-- To a stream, the answer is right when there is room for all that was asked for. -/
theorem writeReports_stream_iff (hin : InWindow f.ecx) {i : Fin streamCount} (hindex : signed f.ebx = i.val)
    (hok : (sh.stream i).Ok) :
    WriteReports addrs sh m f (writeInside sh m f) ↔
      (f.edx.toNat : Int) ≤ streamBufSize - (sh.stream i).count := by
  obtain ⟨-, hqueue⟩ := streamWrite_spec hok (userBuf m f.ecx) (signed f.edx)
  have hstaged : ((sh.staged i (userBuf m f.ecx) (signed f.edx)).stream i).contents
      = (sh.stream i).contents
        ++ (List.range ((sh.stream i).room (signed f.edx)).toNat).map (userBuf m f.ecx) := by
    rw [Shell.staged, Shell.stream_setStream]
    exact hqueue
  rw [← hok.room_eq_iff]
  constructor
  · intro h
    have hcontents := (h.appended hin i hindex).2
    rw [hstaged, List.append_cancel_left_eq] at hcontents
    have hlength := congrArg List.length hcontents
    rw [List.length_map, List.length_map, List.length_range, List.length_range] at hlength
    exact hlength
  · intro hroom
    refine ⟨fun _ j hj => ?_, ?_⟩
    · obtain rfl : i = j := Fin.ext (by omega)
      have hshell := shWriteStream_staged sh i (userBuf m f.ecx) (signed f.edx)
      rw [← hindex] at hshell
      refine ⟨congrArg some hshell, ?_⟩
      rw [hstaged, hroom]
      rfl
    · rintro (hnone | hout)
      · have := i.isLt
        refine absurd ?_ hnone
        unfold StreamExists
        omega
      · exact absurd hin hout

/-- Without a stream, the answer is right when it was asked for. -/
theorem writeReports_noStream_iff (huser : f.cs &&& 0x3 = 3) (hcall : f.eax = sysWrite) (hin : InWindow f.ecx)
    (hnone : ¬ StreamExists f) :
    WriteReports addrs sh m f (writeInside sh m f) ↔ f.edx = errorResult := by
  have hrefused : ∀ m, writeInside sh m f = ⟨{ f with eax := f.edx }, some sh, m, []⟩ := by
    intro m
    unfold writeInside shWriteStream
    rw [dif_pos]
    · rfl
    · unfold StreamExists at hnone
      omega
  rw [hrefused]
  constructor
  · intro h
    exact (h.refused (.inl hnone)).1
  · intro hminus
    refine ⟨fun _ i hi => absurd ?_ hnone, fun _ => ⟨hminus, rfl, fun m' => ?_⟩⟩
    · have := i.isLt
      unfold StreamExists
      omega
    · rw [handleSyscall_write huser hcall, handleWrite_inside hin, hrefused]

/-- **When the answer of `SYS_WRITE` is right.** For every user-mode frame, every memory and every shell
    that is reached: the call returns, and reports what it wrote exactly when `WriteFits`. -/
theorem write_reports_iff (addrs : KernelAddrs) {sh : Shell} (hreach : sh.Reachable) (m : Mem) {f : InterruptFrame}
    (huser : f.cs &&& 0x3 = 3) (hcall : f.eax = sysWrite) :
    ∃ r, handleSyscall addrs (some sh) m f = .ok r ∧ (WriteReports addrs sh m f r ↔ WriteFits sh f) := by
  have hsyscall : ∀ m, handleSyscall addrs (some sh) m f = handleWrite (some sh) m f :=
    handleSyscall_write huser hcall
  by_cases hin : InWindow f.ecx
  · refine ⟨_, (hsyscall m).trans (handleWrite_inside hin m), ?_⟩
    rw [WriteFits, or_iff_right (not_not.mpr hin)]
    by_cases hstream : f.ebx.toNat < streamCount
    · rw [dif_pos hstream]
      exact writeReports_stream_iff hin (signed_index hstream) (hreach.streamsOk _)
    · rw [dif_neg hstream]
      exact writeReports_noStream_iff huser hcall hin fun h => hstream (streamExists_iff.mp h)
  · obtain ⟨sh', hrefuse⟩ := @handleWrite_outside sh f hin
    refine ⟨_, (hsyscall m).trans (hrefuse m), iff_of_true ⟨fun h => absurd h hin, fun _ => ?_⟩ (.inl hin)⟩
    exact ⟨rfl, rfl, fun m' => (hsyscall m').trans (hrefuse m')⟩

end Write

theorem bootShell_reachable : bootShell.Reachable := ⟨_, _, _, _, _, shInit_bootShell, .refl⟩

theorem write_reports_iff_boot : ∃ r, handleSyscall ⟨0, 0⟩ (some bootShell) (fun _ => 0) lastByteFrame = .ok r ∧
    WriteReports ⟨0, 0⟩ bootShell (fun _ => 0) lastByteFrame r := by
  obtain ⟨r, hr, hiff⟩ := write_reports_iff ⟨0, 0⟩ bootShell_reachable (fun _ => 0)
    (show lastByteFrame.cs &&& 0x3 = 3 by decide) rfl
  refine ⟨r, hr, hiff.mpr (.inr ?_)⟩
  rw [dif_pos (by decide), shInit_stream shInit_bootShell]
  decide

/-- A frame that asks to write two bytes to stream 3. -/
def noStreamFrame : InterruptFrame := { lastByteFrame with ebx := 3 }

/-- A frame that asks to write 2000 bytes to stdout. -/
def longFrame : InterruptFrame := { lastByteFrame with ecx := 0x400000, edx := 2000 }

/-- There is no stream 3, and the call answers 2. A stream takes 1024 bytes, and the call answers 2000. -/
theorem write_overreports :
    (∃ r, handleSyscall ⟨0, 0⟩ (some bootShell) (fun _ => 0) noStreamFrame = .ok r ∧ r.frame.eax = 2 ∧
      r.shell = some bootShell ∧ ¬ WriteReports ⟨0, 0⟩ bootShell (fun _ => 0) noStreamFrame r) ∧
    ∃ r, handleSyscall ⟨0, 0⟩ (some bootShell) (fun _ => 0) longFrame = .ok r ∧ r.frame.eax = 2000 ∧
      r.touched.length = 1024 ∧ ¬ WriteReports ⟨0, 0⟩ bootShell (fun _ => 0) longFrame r := by
  have hstream : bootShell.stream streamStdout = emptyStream := shInit_stream shInit_bootShell streamStdout
  have hok : (bootShell.stream streamStdout).Ok := bootShell_reachable.streamsOk streamStdout
  refine ⟨⟨writeInside bootShell (fun _ => 0) noStreamFrame, ?_, rfl, rfl, fun h => ?_⟩,
    ⟨writeInside bootShell (fun _ => 0) longFrame, ?_, rfl, ?_, fun h => ?_⟩⟩
  · rw [handleSyscall_write (by decide) rfl, handleWrite_inside (by decide)]
  · have hminus := (writeReports_noStream_iff (by decide) rfl (by decide) (by decide)).mp h
    exact absurd hminus (by decide)
  · rw [handleSyscall_write (by decide) rfl, handleWrite_inside (by decide)]
  · have hret := shWriteStream_ret bootShell streamStdout (userBuf (fun _ => 0) longFrame.ecx)
      (signed longFrame.edx)
    rw [streamWrite_ret hok, hstream] at hret
    rw [writeInside, bufAddrs, List.length_map, List.length_range]
    exact (congrArg Int.toNat hret).trans (by decide)
  · have hroom := (writeReports_stream_iff (i := streamStdout) (by decide) rfl hok).mp h
    rw [hstream] at hroom
    exact absurd hroom (by decide)

end Drupe
