import Mathlib.Data.List.Induction
import Drupe.Boot.Tss

/-!
# `Boot.Correctness.Integrity` — what the check of the descriptor table notices

A table that differs in one byte from the one whose checksum was recorded is noticed
(`gdtVerifyIntegrity_oneByte`). So is the entry of the task state segment, wherever the segment lies: it is
written by `idt_setup`, and the checksum is that of the table before. From there on the check fails, up to
the next `gdt_setup` (`gdtVerifyIntegrity_iff`).
-/

namespace Drupe

open Lib

/-- `gdt.c` after `gdt_setup`, whatever it was before. -/
def bootGdt (gdtAddr : UInt32) : Gdt where
  gdtEntries := gdtLoad gdtTable
  gdtPtr := ⟨gdtLimit, gdtAddr⟩
  gdtChecksum := calculateGdtChecksum (gdtLoad gdtTable)
  gdtInitialized := true

theorem gdtSetup_eq (gdtAddr : UInt32) (g : Gdt) : (gdtSetup gdtAddr g).1 = bootGdt gdtAddr := rfl

theorem gdtVerifyIntegrity_boot (gdtAddr : UInt32) : gdtVerifyIntegrity gdtAddr (bootGdt gdtAddr) = true := by
  have hinit : (bootGdt gdtAddr).gdtInitialized = true := rfl
  have hchecksum : calculateGdtChecksum (bootGdt gdtAddr).gdtEntries = (bootGdt gdtAddr).gdtChecksum := rfl
  have hptr : (bootGdt gdtAddr).gdtPtr = ⟨gdtLimit, gdtAddr⟩ := rfl
  have hnull : (bootGdt gdtAddr).entry gdtNullEntry = ⟨0, 0, 0, 0, 0, 0⟩ := rfl
  have hcode : (bootGdt gdtAddr).entry gdtKernelCodeEntry = ⟨0xFFFF, 0, 0, 0x9B, 0xCF, 0⟩ := rfl
  have hdata : (bootGdt gdtAddr).entry gdtKernelDataEntry = ⟨0xFFFF, 0, 0, 0x93, 0xCF, 0⟩ := rfl
  have hucode : (bootGdt gdtAddr).entry gdtUserCodeEntry = ⟨0xFFFF, 0, 0, 0xFA, 0xCF, 0⟩ := rfl
  have hudata : (bootGdt gdtAddr).entry gdtUserDataEntry = ⟨0xFFFF, 0, 0, 0xF2, 0xCF, 0⟩ := rfl
  unfold gdtVerifyIntegrity
  rw [hinit, hchecksum, hptr, hnull, hcode, hdata, hucode, hudata]
  simp
  decide

theorem gdtVerifyIntegrity_checksum {gdtAddr : UInt32} {g : Gdt}
    (h : calculateGdtChecksum g.gdtEntries ≠ g.gdtChecksum) : gdtVerifyIntegrity gdtAddr g = false := by
  unfold gdtVerifyIntegrity
  by_cases hinit : g.gdtInitialized
  · rw [if_neg (by simp [hinit]), if_pos h]
  · rw [if_pos (by simp [hinit])]

/-! ## One byte -/

/-- **A corruption of one byte is noticed.** For every contents of the table when its checksum is recorded,
    and every later state with that checksum whose table differs from it in one byte. -/
theorem gdtVerifyIntegrity_oneByte (gdtAddr : UInt32) (g : Gdt) {g' : Gdt}
    (hchecksum : g'.gdtChecksum = g.record.gdtChecksum)
    (hone : DifferInOne (gdtBytes g.gdtEntries) (gdtBytes g'.gdtEntries)) :
    gdtVerifyIntegrity gdtAddr g' = false := by
  apply gdtVerifyIntegrity_checksum
  rw [hchecksum]
  exact Ne.symm (calculateGdtChecksum_ne hone)

/-- The table of `gdt_setup`, with another access byte in its first entry. -/
def corruptedTable : Vector GdtEntry gdtEntriesCount :=
  (gdtLoad gdtTable).setIfInBounds gdtNullEntry ⟨0, 0, 0, 1, 0, 0⟩

theorem corruptedTable_differs : DifferInOne (gdtBytes (gdtLoad gdtTable)) (gdtBytes corruptedTable) := by
  have hlen : (gdtBytes (gdtLoad gdtTable)).length = 48 := by decide +kernel
  have hlen' : (gdtBytes corruptedTable).length = 48 := by decide +kernel
  refine ⟨hlen.trans hlen'.symm, 5, by decide +kernel, fun j hj => ?_⟩
  rcases Nat.lt_or_ge j 48 with hlt | hge
  · have hall : ∀ k : Fin 48, k.val ≠ 5 →
        (gdtBytes (gdtLoad gdtTable))[k.val]? = (gdtBytes corruptedTable)[k.val]? := by
      decide +kernel
    exact hall ⟨j, hlt⟩ hj
  · rw [List.getElem?_eq_none (by omega), List.getElem?_eq_none (by omega)]

theorem gdtVerifyIntegrity_oneByte_access :
    gdtVerifyIntegrity 0x1000 { bootGdt 0x1000 with gdtEntries := corruptedTable } = false :=
  gdtVerifyIntegrity_oneByte 0x1000 (bootGdt 0x1000) rfl corruptedTable_differs

/-! ## The entry of the task state segment -/

/-- `gdt.c` after `tss_setup`. -/
def tssGdt (gdtAddr tssAddr : UInt32) : Gdt :=
  { bootGdt gdtAddr with gdtEntries := (gdtLoad gdtTable).setIfInBounds gdtTssEntry (tssDescriptor tssAddr) }

/-- The entry of the segment is where it was. -/
theorem tssGdt_again (gdtAddr tssAddr : UInt32) : { tssGdt gdtAddr tssAddr with
    gdtEntries := (tssGdt gdtAddr tssAddr).gdtEntries.setIfInBounds gdtTssEntry (tssDescriptor tssAddr) }
      = tssGdt gdtAddr tssAddr := rfl

/-- The entries before that of the task state segment, after the load. -/
def kernelEntries : List GdtEntry :=
  [⟨0, 0, 0, 0, 0, 0⟩, ⟨0xFFFF, 0, 0, 0x9B, 0xCF, 0⟩, ⟨0xFFFF, 0, 0, 0x93, 0xCF, 0⟩, ⟨0xFFFF, 0, 0, 0xFA, 0xCF, 0⟩,
    ⟨0xFFFF, 0, 0, 0xF2, 0xCF, 0⟩]

theorem gdtTable_toList : (gdtLoad gdtTable).toList = kernelEntries ++ [⟨0, 0, 0, 0, 0, 0⟩] := by decide +kernel

/-- The checksum of the table, from the accumulator that the entries before the last one leave. -/
theorem calculateGdtChecksum_last {entries : Vector GdtEntry gdtEntriesCount} {e : GdtEntry}
    (h : entries.toList = kernelEntries ++ [e]) :
    calculateGdtChecksum entries = e.bytes.foldl checksumStep 0x1BDF16D4 := by
  have hprefix : (kernelEntries.flatMap GdtEntry.bytes).foldl checksumStep 0 = 0x1BDF16D4 := by decide +kernel
  unfold calculateGdtChecksum gdtBytes
  rw [h, List.flatMap_append, List.foldl_append, hprefix, List.flatMap_singleton]

theorem checksumStep_small {c : UInt32} {b : UInt8} (h : c.toNat + b.toNat < 2147483648) :
    (checksumStep c b).toNat = 2 * (c.toNat + b.toNat) := by
  rw [checksumStep_toNat, Nat.mod_eq_of_lt (by omega), if_pos h]

theorem checksumStep_large {c : UInt32} {b : UInt8} (h : 2147483648 ≤ c.toNat + b.toNat)
    (h' : c.toNat + b.toNat < 4294967296) :
    (checksumStep c b).toNat = 2 * (c.toNat + b.toNat) - 4294967295 := by
  rw [checksumStep_toNat, Nat.mod_eq_of_lt h', if_neg (Nat.not_lt.mpr h)]

/-- Folding the bytes of a descriptor of a segment of 104 bytes into the accumulator that the entries before
    leave does not end in the checksum of the table without it. The rotations keep what the bytes of the
    address add apart from what was there: no sum wraps, and the bytes only make the result larger. -/
theorem descriptorBytes_foldl_ne (b₀ b₁ b₂ b₃ : UInt8) :
    [0x67, 0, b₀, b₁, b₂, 0x89, 0, b₃].foldl checksumStep 0x1BDF16D4 ≠ 0xDF16D41B := by
  have hb₀ := b₀.toNat_lt
  have hb₁ := b₁.toNat_lt
  have hb₂ := b₂.toNat_lt
  have hb₃ := b₃.toNat_lt
  have haccess : (0x89 : UInt8).toNat = 137 := rfl
  have hzero : (0 : UInt8).toNat = 0 := rfl
  have hend : (0xDF16D41B : UInt32).toNat = 3742815259 := rfl
  have hlimit : (checksumStep (checksumStep 0x1BDF16D4 0x67) 0).toNat = 1870421228 := by decide
  simp only [List.foldl_cons, List.foldl_nil]
  generalize checksumStep (checksumStep 0x1BDF16D4 0x67) 0 = c at hlimit ⊢
  have hlow := checksumStep_small (c := c) (b := b₀) (by omega)
  have hlow' := checksumStep_large (c := checksumStep c b₀) (b := b₁) (by omega) (by omega)
  generalize checksumStep (checksumStep c b₀) b₁ = c at hlow' ⊢
  have hmiddle := checksumStep_large (c := c) (b := b₂) (by omega) (by omega)
  generalize checksumStep c b₂ = c at hmiddle ⊢
  have hkind := checksumStep_small (c := c) (b := 0x89) (by omega)
  have hgran := checksumStep_large (c := checksumStep c 0x89) (b := 0) (by omega) (by omega)
  generalize checksumStep (checksumStep c 0x89) 0 = c at hgran ⊢
  have hhigh := checksumStep_large (c := c) (b := b₃) (by omega) (by omega)
  intro h
  have hnat := congrArg UInt32.toNat h
  omega

theorem tssDescriptor_bytes (tssAddr : UInt32) : (tssDescriptor tssAddr).bytes =
    [0x67, 0, (tssDescriptor tssAddr).baseLow.toUInt8, ((tssDescriptor tssAddr).baseLow >>> 8).toUInt8,
      (tssDescriptor tssAddr).baseMiddle, 0x89, 0, (tssDescriptor tssAddr).baseHigh] := by
  have hlimit : bytes16 (tssDescriptor tssAddr).limitLow = [0x67, 0] := by
    show bytes16 103 = _
    decide
  have haccess : (tssDescriptor tssAddr).access = 0x89 := rfl
  have hgran : (tssDescriptor tssAddr).granularity = 0 := rfl
  unfold GdtEntry.bytes
  rw [hlimit, haccess, hgran]
  rfl

/-- **The entry changes the checksum**, wherever the segment lies. -/
theorem calculateGdtChecksum_tss (tssAddr : UInt32) :
    calculateGdtChecksum ((gdtLoad gdtTable).setIfInBounds gdtTssEntry (tssDescriptor tssAddr))
      ≠ calculateGdtChecksum (gdtLoad gdtTable) := by
  have hset : ((gdtLoad gdtTable).setIfInBounds gdtTssEntry (tssDescriptor tssAddr)).toList
      = kernelEntries ++ [tssDescriptor tssAddr] := by
    rw [Vector.toList_setIfInBounds, gdtTable_toList]
    rfl
  have hwithout : (⟨0, 0, 0, 0, 0, 0⟩ : GdtEntry).bytes.foldl checksumStep 0x1BDF16D4 = 0xDF16D41B := by
    decide +kernel
  rw [calculateGdtChecksum_last hset, calculateGdtChecksum_last gdtTable_toList, hwithout, tssDescriptor_bytes]
  exact descriptorBytes_foldl_ne _ _ _ _

theorem gdtVerifyIntegrity_tss (gdtAddr tssAddr : UInt32) :
    gdtVerifyIntegrity gdtAddr (tssGdt gdtAddr tssAddr) = false :=
  gdtVerifyIntegrity_checksum (calculateGdtChecksum_tss tssAddr)

/-- Every `idt_setup` is followed by another `gdt_setup`. -/
def UpToDate (ops : List TableOp) : Prop :=
  ∀ before after, ops = before ++ .idtSetup :: after → .gdtSetup ∈ after

theorem upToDate_nil : UpToDate [] := by
  intro before after h
  simp at h

/-- A last operation other than `idt_setup` comes after each of them. -/
theorem upToDate_snoc {op : TableOp} (hop : op ≠ .idtSetup) (ops : List TableOp) : UpToDate (ops ++ [op]) ↔
    ∀ before after, ops = before ++ .idtSetup :: after → .gdtSetup ∈ after ++ [op] := by
  constructor
  · intro h before after heq
    exact h before (after ++ [op]) (by rw [heq, List.append_assoc, List.cons_append])
  · intro h before after heq
    rcases List.eq_nil_or_concat after with rfl | ⟨init, last, rfl⟩
    · exact absurd (List.cons.inj (List.append_inj_right' heq rfl)).1 hop
    · rw [List.concat_eq_append, ← List.cons_append, ← List.append_assoc] at heq
      have hlast := (List.cons.inj (List.append_inj_right' heq rfl)).1
      rw [List.concat_eq_append, ← hlast]
      exact h before init (List.append_inj_left' heq rfl)

theorem upToDate_gdtSetup (ops : List TableOp) : UpToDate (ops ++ [.gdtSetup]) :=
  (upToDate_snoc (by decide) ops).mpr fun _ _ _ => List.mem_append_right _ List.mem_cons_self

theorem not_upToDate_idtSetup (ops : List TableOp) : ¬ UpToDate (ops ++ [.idtSetup]) := fun h =>
  absurd (h ops [] rfl) (by simp)

theorem upToDate_tssSetKernelStack (ops : List TableOp) (stack : UInt32) :
    UpToDate (ops ++ [.tssSetKernelStack stack]) ↔ UpToDate ops := by
  rw [upToDate_snoc (by simp)]
  simp [UpToDate]

/-- What `gdt.c` holds after a run: its own table, or the table with the entry of the segment, which the
    recorded checksum does not cover. The induction is from the end of the run. -/
theorem run_gdt (addrs : TableAddrs) (t : Tables) (ops : List TableOp) :
    (UpToDate ops ∧ (ops.foldl (Tables.apply addrs) (t.gdtSetup addrs)).gdt = bootGdt addrs.gdt) ∨
      (¬ UpToDate ops ∧
        (ops.foldl (Tables.apply addrs) (t.gdtSetup addrs)).gdt = tssGdt addrs.gdt addrs.tss) := by
  induction ops using List.reverseRecOn with
  | nil => exact .inl ⟨upToDate_nil, gdtSetup_eq addrs.gdt t.gdt⟩
  | append_singleton ops op ih =>
    rw [List.foldl_append, List.foldl_cons, List.foldl_nil]
    cases op with
    | gdtSetup => exact .inl ⟨upToDate_gdtSetup ops, gdtSetup_eq addrs.gdt _⟩
    | idtSetup =>
      refine .inr ⟨not_upToDate_idtSetup ops, ?_⟩
      -- a second `tss_setup` writes the same entry again
      rcases ih with ⟨-, hgdt⟩ | ⟨-, hgdt⟩
      · exact (tssSetup_gdt addrs.tss _).trans (by rw [hgdt]; rfl)
      · exact (tssSetup_gdt addrs.tss _).trans (by rw [hgdt]; exact tssGdt_again addrs.gdt addrs.tss)
    | tssSetKernelStack stack =>
      rw [upToDate_tssSetKernelStack]
      exact ih

/-- **The check of the global descriptor table holds after a run of the kernel's own operations exactly when
    the run is up to date**: for every address of the segment, every state before, and every run that starts
    with `gdt_setup`. -/
theorem gdtVerifyIntegrity_iff (addrs : TableAddrs) (t : Tables) (ops : List TableOp) :
    gdtVerifyIntegrity addrs.gdt (ops.foldl (Tables.apply addrs) (t.gdtSetup addrs)).gdt = true
      ↔ UpToDate ops := by
  rcases run_gdt addrs t ops with ⟨huptodate, hgdt⟩ | ⟨hstale, hgdt⟩
  · rw [hgdt, gdtVerifyIntegrity_boot]
    exact iff_of_true rfl huptodate
  · rw [hgdt, gdtVerifyIntegrity_tss]
    exact iff_of_false (by simp) hstale

/-- After `gdt_setup` and `idt_setup`, the way the kernel starts, the check fails. -/
theorem gdtVerifyIntegrity_booted :
    gdtVerifyIntegrity 0x1000 ([.idtSetup].foldl (Tables.apply ⟨0x1000, 0x2000, fun _ => 0x3000⟩)
      (clearedTables.gdtSetup ⟨0x1000, 0x2000, fun _ => 0x3000⟩)).gdt = false :=
  gdtVerifyIntegrity_tss 0x1000 0x2000

end Drupe
