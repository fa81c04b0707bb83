import Drupe.Interrupts.Correctness.Context

/-!
# `Boot.Idt` — the check of the table of gates (`idt.c`)

`idt_setup` fills the table, sets the pointer to it and marks it as initialized; `idtVerifyIntegrity` looks at the
pointer, and at two of the handlers. It passes exactly when the linker put neither of them at address 0
(`idtVerifyIntegrity_setup`).
-/

namespace Drupe

/-- `idt_ptr_t` -/
structure IdtPtr where
  limit : UInt16
  base : UInt32
deriving DecidableEq

/-- The static variables of `idt.c` that `idt_verify_integrity` reads. -/
structure Idt where
  idtEntries : Vector IdtEntry idtEntriesCount
  idtPtr : IdtPtr
  idtInitialized : Bool

/-- `sizeof(idt_entry_t) * IDT_ENTRIES_COUNT - 1` -/
def idtLimit : UInt16 := 8 * 256 - 1

def Idt.entry (i : Idt) (n : Nat) : IdtEntry := i.idtEntries[n]?.getD ⟨0, 0, 0, 0, 0⟩

/-- `idt_setup`, as far as these variables are concerned; it always returns true. The task state segment is in
    `Boot.Tss`. -/
def Idt.setup (idtAddr : UInt32) (address : Stub → UInt32) : Idt where
  idtEntries := idtSetup address
  idtPtr := ⟨idtLimit, idtAddr⟩
  idtInitialized := true

def idtVerifyIntegrity (idtAddr : UInt32) (i : Idt) : Bool :=
  if !i.idtInitialized then false
  else if i.idtPtr.base ≠ idtAddr ∨ i.idtPtr.limit ≠ idtLimit then false
  else if (i.entry 0).handlerLow = 0 ∧ (i.entry 0).handlerHigh = 0 then false
  else if (i.entry 13).handlerLow = 0 ∧ (i.entry 13).handlerHigh = 0 then false
  else true

/-- The two halves of an address are zero for address 0 only. -/
theorem entryOf_zero_iff (address : UInt32) (selector : UInt16) (typeAttr : UInt8) :
    (entryOf address selector typeAttr).handlerLow = 0 ∧ (entryOf address selector typeAttr).handlerHigh = 0 ↔
      address = 0 := by
  constructor
  · rintro ⟨hlow, hhigh⟩
    rw [← entryOf_offset address selector typeAttr, IdtEntry.gate, hlow, hhigh]
    rfl
  · rintro rfl
    exact ⟨rfl, rfl⟩

/-- The entry of a handler that `idt_setup` installed. -/
theorem Idt.entry_setup (idtAddr : UInt32) (address : Stub → UInt32) {vector : Nat} {stub : Stub} {typeAttr : UInt8}
    (hcall : (vector, stub, typeAttr) ∈ idtCalls) :
    (Idt.setup idtAddr address).entry vector = entryOf (address stub) gdtKernelCodeSel typeAttr := by
  obtain ⟨hfind, hlt⟩ := find_call _ hcall
  have hget := idtSetup_get address hlt
  rw [hfind] at hget
  unfold Idt.entry
  rw [show (Idt.setup idtAddr address).idtEntries = idtSetup address from rfl, hget]
  rfl

/-- **The check after `idt_setup`.** -/
theorem idtVerifyIntegrity_setup (idtAddr : UInt32) (address : Stub → UInt32) :
    idtVerifyIntegrity idtAddr (Idt.setup idtAddr address) = true ↔ address .isr0 ≠ 0 ∧ address .isr13 ≠ 0 := by
  have hptr : ¬ ((Idt.setup idtAddr address).idtPtr.base ≠ idtAddr ∨
      (Idt.setup idtAddr address).idtPtr.limit ≠ idtLimit) :=
    not_or.mpr ⟨not_not.mpr rfl, not_not.mpr rfl⟩
  unfold idtVerifyIntegrity
  rw [if_neg (show ¬ (!(Idt.setup idtAddr address).idtInitialized) = true by nofun), if_neg hptr,
    Idt.entry_setup idtAddr address (show (0, Stub.isr0, idtTypeInterruptGate) ∈ idtCalls by decide),
    Idt.entry_setup idtAddr address (show (13, Stub.isr13, idtTypeInterruptGate) ∈ idtCalls by decide)]
  simp only [entryOf_zero_iff]
  by_cases h0 : address .isr0 = 0
  · simp [h0]
  · simp [h0]

end Drupe
