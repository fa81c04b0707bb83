import Drupe.Boot.Correctness.IoPorts

/-!
# `Boot.Correctness.OpenPorts` — which ports are open

With the stack that the kernel sets, the fields of the task state segment are known, so the ports that they leave
open to the user program are: all below 824, but for seven, where a selector has its bit, and those where the
address of the stack has one (`umSwitch_ports_iff`). The ports of the interrupt controllers are among them, since
the stack of the kernel is aligned.
-/

namespace Drupe

open Lib Lib.X86

/-- The ports where a selector has its bit: `ss0`, `es`, `cs`, `ss`, `ds`, `fs` and `gs`. -/
def selectorPorts : List Nat := [68, 580, 611, 644, 676, 708, 740]

/-- The segment after `tss_setup`, with a stack. -/
def stackedTss (stack : UInt32) : Tss := { (tssSetup 0 clearedTables).tss with esp0 := stack }

theorem stackedTables_tss (tssAddr : UInt32) (t : Tables) (tops : List UInt32) (top : UInt32) :
    (stackedTables tssAddr t (tops ++ [top])).tss = stackedTss top := by
  obtain ⟨-, stack, htss⟩ := foldl_tssSetKernelStack (tssSetup tssAddr t) tops
  unfold stackedTables
  rw [List.foldl_append, List.foldl_cons, List.foldl_nil, Tables.tssSetKernelStack, htss]
  rfl

/-- A bit of a word is a bit of one of its bytes. -/
theorem bytes32_testBit (w : UInt32) {k j : Nat} (hk : k < 4) (hj : j < 8) :
    (((bytes32 w)[k]?).getD 0).toNat.testBit j = w.toNat.testBit (8 * k + j) := by
  have hbyte : ∀ {n : UInt32} {i : Nat}, n.toNat % 32 = i →
      (w >>> n).toUInt8.toNat.testBit j = w.toNat.testBit (i + j) := by
    intro n i hn
    rw [UInt32.toNat_toUInt8, UInt32.toNat_shiftRight, hn, Nat.testBit_mod_two_pow, Nat.testBit_shiftRight]
    simp [hj]
  match k, hk with
  | 0, _ =>
      have hshift : w >>> 0 = w := by
        rw [UInt32.shiftRight_zero]
      exact (congrArg (fun w : UInt32 => w.toUInt8.toNat.testBit j) hshift).symm.trans (hbyte (n := 0) rfl)
  | 1, _ => exact hbyte (n := 8) rfl
  | 2, _ => exact hbyte (n := 16) rfl
  | 3, _ => exact hbyte (n := 24) rfl

/-- The fields after `esp0`. -/
def tssRest : List UInt8 := (stackedTss 0).bytes.drop 8

theorem stackedTss_bytes (stack : UInt32) : (stackedTss stack).bytes = bytes32 0 ++ (bytes32 stack ++ tssRest) := rfl

/-- The bytes of `esp0`. -/
theorem stackedTss_stack (stack : UInt32) {k : Nat} (hlow : 4 ≤ k) (hhigh : k < 8) :
    (stackedTss stack).bytes[k]? = (bytes32 stack)[k - 4]? := by
  have hinside : k - 4 < 4 := by omega
  rw [stackedTss_bytes, List.getElem?_append_right (show (bytes32 0).length ≤ k from hlow)]
  exact List.getElem?_append_left hinside

/-- The other ones. -/
theorem stackedTss_fixed (stack : UInt32) {k : Nat} (hk : ¬ (4 ≤ k ∧ k < 8)) :
    (stackedTss stack).bytes[k]? = (stackedTss 0).bytes[k]? := by
  rw [stackedTss_bytes, stackedTss_bytes]
  by_cases hfirst : k < 4
  · rw [List.getElem?_append_left hfirst, List.getElem?_append_left hfirst]
  · have hafter : (bytes32 0).length ≤ k := not_lt.mp hfirst
    have hrest : 4 ≤ k - 4 := by omega
    rw [List.getElem?_append_right hafter, List.getElem?_append_right hafter]
    exact (List.getElem?_append_right (show (bytes32 stack).length ≤ k - 4 from hrest)).trans
      (List.getElem?_append_right (show (bytes32 0).length ≤ k - 4 from hrest)).symm

/-- **The open ports.** -/
theorem umSwitch_ports_iff {s : State} (hiopl : iopl s.cpu.eflags = 0) (tssAddr : UInt32) (t : Tables)
    (tops : List UInt32) (top : UInt32) (p : UInt16) :
    (umSwitch s).cpu.MayAccess (stackedTables tssAddr t (tops ++ [top])).taskSegment p ↔
      p.toNat < 824 ∧ p.toNat ∉ selectorPorts ∧
        (32 ≤ p.toNat ∧ p.toNat < 64 → top.toNat.testBit (p.toNat - 32) = false) := by
  -- the bits that are set, with a stack at 0
  have hset : (List.range 824).filter (fun n => (((stackedTss 0).bytes[n / 8]?).getD 0).toNat.testBit (n % 8))
      = selectorPorts := by
    decide +kernel
  have hfixed : ∀ n < 824,
      ((((stackedTss 0).bytes[n / 8]?).getD 0).toNat.testBit (n % 8) = false ↔ n ∉ selectorPorts) := by
    intro n hn
    rw [← hset, List.mem_filter, List.mem_range]
    simp [hn]
  rw [umSwitch_mayAccess_iff hiopl, stackedTables_tss]
  refine and_congr_right fun hlt => ?_
  by_cases hstack : 32 ≤ p.toNat ∧ p.toNat < 64
  · have hnot : p.toNat ∉ selectorPorts := by
      intro hmem
      simp only [selectorPorts, List.mem_cons, List.not_mem_nil, or_false] at hmem
      omega
    have hbit : 8 * (p.toNat / 8 - 4) + p.toNat % 8 = p.toNat - 32 := by omega
    rw [stackedTss_stack top (by omega) (by omega), bytes32_testBit top (by omega) (by omega), hbit]
    exact ⟨fun hclear => ⟨hnot, fun _ => hclear⟩, fun h => h.2 hstack⟩
  · rw [stackedTss_fixed top (by omega), hfixed p.toNat hlt]
    exact ⟨fun hnot => ⟨hnot, fun hin => absurd hin hstack⟩, fun h => h.1⟩

/-- The command port of the first interrupt controller. -/
theorem umSwitch_ports_iff_pic :
    (umSwitch bootState).cpu.MayAccess (stackedTables 0x2000 clearedTables [0x90000]).taskSegment 0x20 :=
  (umSwitch_ports_iff (by decide) 0x2000 clearedTables [] 0x90000 0x20).mpr (by decide)

end Drupe
