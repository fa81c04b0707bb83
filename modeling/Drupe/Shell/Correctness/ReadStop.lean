import Drupe.Shell.Correctness.StreamFifo

/-!
# `Shell.Correctness.ReadStop` — where a read of a stream stops

A read delivers a prefix of the queue, but how long a prefix is not decided by the queue: the test for a
newline looks at the cells of the array from the first one on, wherever the queue begins. `streamRead_stop`
says where a read ends, and `streamRead_queue_iff` when two streams with the same queue are read alike.
-/

namespace Drupe

open Lib

/-- Some run of writes and reads leads to `s` from a stream whose pointers were just reset. -/
def Stream.Reachable (s : Stream) : Prop :=
  ∃ s₀ vis, s₀.head = 0 ∧ s₀.tail = 0 ∧ s₀.count = 0 ∧ Run StreamStep s₀ vis s

theorem Stream.Reachable.ok {s : Stream} (h : s.Reachable) : s.Ok := by
  obtain ⟨s₀, vis, hh, ht, hc, hrun⟩ := h
  exact hrun.invariant (fun _ _ _ hs hstep => hstep.ok hs) (Stream.ok_of_reset hh ht hc)

/-! ## One read -/

/-- The loop passes no newline, takes at most what there is, and if it ends early it ends on a newline. -/
theorem streamReadLoop_stop {s : Stream} (hcount : 0 ≤ s.count) (fuel read : Nat) :
    ((streamReadLoop fuel read s).2.length : Int) ≤ s.count ∧
    (∀ k < (streamReadLoop fuel read s).2.length, s.cell (read + k : Nat) ≠ newline) ∧
    ((streamReadLoop fuel read s).2.length < fuel →
      ((streamReadLoop fuel read s).2.length : Int) < s.count →
      s.cell (read + (streamReadLoop fuel read s).2.length : Nat) = newline) := by
  induction fuel generalizing read s with
  | zero => exact ⟨hcount, fun k hk => absurd hk (by simp [streamReadLoop]), fun h => absurd h (by simp)⟩
  | succ fuel ih =>
      rw [streamReadLoop]
      by_cases hpos : s.count > 0
      · rw [if_pos hpos]
        by_cases hcell : s.cell read = newline
        · rw [if_pos hcell]
          exact ⟨hcount, fun k hk => absurd hk (by simp), fun _ _ => hcell⟩
        · rw [if_neg hcell]
          -- dropping a byte leaves the array as it is
          have hdrop : s.drop.count = s.count - 1 := rfl
          have hsame : ∀ i, s.drop.cell i = s.cell i := fun _ => rfl
          obtain ⟨hle, hpass, hstop⟩ := ih (s := s.drop) (by omega) (read + 1)
          simp only [List.length_cons]
          generalize (streamReadLoop fuel (read + 1) s.drop).2 = bytes at hle hpass hstop ⊢
          refine ⟨by omega, ?_, ?_⟩
          · intro k hk
            rcases Nat.eq_zero_or_pos k with rfl | hkpos
            · exact hcell
            · have hcellk := hpass (k - 1) (by omega)
              rw [hsame, show read + 1 + (k - 1) = read + k from by omega] at hcellk
              exact hcellk
          · intro hfuel hcnt
            have hcelln := hstop (by omega) (by omega)
            rw [hsame, Nat.add_assoc, Nat.add_comm 1] at hcelln
            exact hcelln
      · rw [if_neg hpos]
        refine ⟨hcount, fun k hk => absurd hk (by simp), fun _ h => ?_⟩
        simp only [List.length_nil, Int.natCast_zero] at h
        omega

/-- The cells from the first one up to cell `i` have a newline among them. -/
def Stream.NewlineUpTo (s : Stream) (i : Nat) : Prop := ∃ j ≤ i, s.cell j = newline

/-- **Where a read stops.** As long as there is room and a byte left, a read has ended by index `i` exactly
    when the array has a newline up to there. -/
theorem streamRead_stop {s : Stream} (hs : s.Ok) {len : Int} {i : Nat}
    (hi : (i : Int) < min len s.count) :
    (streamRead s len).2.length ≤ i ↔ s.NewlineUpTo i := by
  obtain ⟨-, hpass, hstop⟩ := streamReadLoop_stop hs.count_nonneg len.toNat 0
  rw [lt_min_iff] at hi
  unfold streamRead
  simp only [Nat.zero_add] at hpass hstop
  constructor
  · intro hle
    exact ⟨_, hle, hstop (by omega) (by omega)⟩
  · rintro ⟨j, hj, hcell⟩
    by_contra hlt
    exact hpass j (by omega) hcell

theorem streamRead_length_le {s : Stream} (hs : s.Ok) (len : Int) :
    (streamRead s len).2.length ≤ len.toNat ∧ ((streamRead s len).2.length : Int) ≤ s.count :=
  ⟨streamReadLoop_length len.toNat 0 s, (streamReadLoop_stop hs.count_nonneg len.toNat 0).1⟩

/-! ## Two streams with one queue -/

/-- The arrays have a newline up to the same cells, as far as the first `n`. -/
def SameNewlines (s t : Stream) (n : Int) : Prop :=
  ∀ i : Nat, (i : Int) < n → (s.NewlineUpTo i ↔ t.NewlineUpTo i)

/-- A read of the two answers the same number, delivers the same bytes and leaves the same queue. -/
def ReadAlike (s t : Stream) (len : Int) : Prop :=
  (streamRead s len).2.length = (streamRead t len).2.length ∧
  (streamRead s len).2 = (streamRead t len).2 ∧
  (streamRead s len).1.contents = (streamRead t len).1.contents

/-- The number of bytes decides which bytes they are and which are left. -/
theorem readAlike_iff_length {s t : Stream} (hs : s.Ok) (ht : t.Ok) (hq : s.contents = t.contents)
    (len : Int) : ReadAlike s t len ↔ (streamRead s len).2.length = (streamRead t len).2.length := by
  obtain ⟨-, hsplit, -⟩ := streamRead_spec hs len
  obtain ⟨-, htsplit, -⟩ := streamRead_spec ht len
  constructor
  · intro h
    exact h.1
  · intro hlen
    rw [hsplit, htsplit] at hq
    obtain ⟨hbytes, hrest⟩ := List.append_inj hq hlen
    exact ⟨hlen, hbytes, hrest⟩

/-- **When the queue decides a read.** Two reachable streams with the same queue are read alike exactly when
    their arrays have a newline up to the same cells, among as many cells as there are bytes to read. -/
theorem streamRead_queue_iff {s t : Stream} (hs : s.Reachable) (ht : t.Reachable)
    (hq : s.contents = t.contents) (len : Int) :
    ReadAlike s t len ↔ SameNewlines s t (min len s.count) := by
  have hcount : s.count = t.count := by
    rw [← hs.ok.contents_length, ← ht.ok.contents_length, hq]
  rw [readAlike_iff_length hs.ok ht.ok hq]
  constructor
  · intro hlen i hi
    rw [← streamRead_stop hs.ok hi, ← streamRead_stop ht.ok (by rw [← hcount]; exact hi), hlen]
  · intro hsame
    obtain ⟨hslen, hscount⟩ := streamRead_length_le hs.ok len
    obtain ⟨htlen, htcount⟩ := streamRead_length_le ht.ok len
    -- the shorter of two reads stopped on a newline that the longer one did not meet
    rcases Nat.lt_trichotomy (streamRead s len).2.length (streamRead t len).2.length with hlt | heq | hgt
    · have hi : ((streamRead s len).2.length : Int) < min len s.count := by
        rw [lt_min_iff]
        omega
      have hnl := (streamRead_stop hs.ok hi).mp (Nat.le_refl _)
      have hle := (streamRead_stop ht.ok (by rw [← hcount]; exact hi)).mpr ((hsame _ hi).mp hnl)
      omega
    · exact heq
    · have hi : ((streamRead t len).2.length : Int) < min len s.count := by
        rw [lt_min_iff]
        omega
      have hnl := (streamRead_stop ht.ok (by rw [← hcount]; exact hi)).mp (Nat.le_refl _)
      have hle := (streamRead_stop hs.ok hi).mpr ((hsame _ hi).mpr hnl)
      omega

/-! ## One byte, at the first cell and past it -/

/-- After a write of `b`. -/
def queuedAtBase (b : UInt8) : Stream := (streamWrite emptyStream (fun _ => b) 1).1

/-- After a write of `a` and `b`, and a read of one byte. -/
def queuedAfterOne (b : UInt8) : Stream :=
  (streamRead (streamWrite emptyStream (fun k => if k = 0 then 97 else b) 2).1 1).1

theorem queuedAtBase_reachable (b : UInt8) : (queuedAtBase b).Reachable :=
  ⟨emptyStream, _, rfl, rfl, rfl, .cons (.write _ _ _) .nil⟩

theorem queuedAfterOne_reachable (b : UInt8) : (queuedAfterOne b).Reachable :=
  ⟨emptyStream, _, rfl, rfl, rfl, .cons (.write _ _ _) (.cons (.read _ _) .nil)⟩

theorem streamRead_queue_iff_letter : ReadAlike (queuedAtBase 98) (queuedAfterOne 98) 1 := by
  refine (streamRead_queue_iff (queuedAtBase_reachable 98) (queuedAfterOne_reachable 98)
    (by decide +kernel) 1).mpr ?_
  intro i hi
  have hone : min 1 (queuedAtBase 98).count = 1 := by decide +kernel
  obtain rfl : i = 0 := by omega
  -- neither array has a newline in its first cell
  constructor
  · rintro ⟨j, hj, hcell⟩
    obtain rfl : j = 0 := by omega
    exact absurd hcell (by decide +kernel)
  · rintro ⟨j, hj, hcell⟩
    obtain rfl : j = 0 := by omega
    exact absurd hcell (by decide +kernel)

/-- Both queues are one newline; only the second can be read. -/
theorem streamRead_not_determined : ∃ s t : Stream, s.Reachable ∧ t.Reachable ∧
    s.contents = [newline] ∧ t.contents = [newline] ∧
    (streamRead s 1).2 = [] ∧ (streamRead t 1).2 = [newline] ∧ ¬ ReadAlike s t 1 := by
  refine ⟨queuedAtBase newline, queuedAfterOne newline, queuedAtBase_reachable _,
    queuedAfterOne_reachable _, by decide +kernel, by decide +kernel, by decide +kernel,
    by decide +kernel, ?_⟩
  intro h
  have hlen : (streamRead (queuedAtBase newline) 1).2.length
      ≠ (streamRead (queuedAfterOne newline) 1).2.length := by
    decide +kernel
  exact hlen h.1

end Drupe
