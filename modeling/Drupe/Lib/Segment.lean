import Drupe.Lib.X86

/-!
# `Lib.Segment` — segments and who may load them

A descriptor says where a segment is, what kind it is, and which ring it is for. A selector names a descriptor of
the table, and the ring that asks for it.
-/

namespace Lib.X86

/-- `limit`: the last offset. -/
structure Segment where
  base : Nat
  limit : Nat
  access : UInt8
  /-- Operands and addresses have 32 bits. -/
  wide : Bool
deriving DecidableEq

/-- The index of a selector in the table. -/
def selectorIndex (sel : UInt16) : Nat := (sel >>> 3).toNat

namespace Segment

/-- All addresses are in the segment, at offsets that are the addresses. -/
def Flat (s : Segment) : Prop := s.base = 0 ∧ s.limit = 0xFFFFFFFF ∧ s.wide = true

def Present (s : Segment) : Prop := s.access &&& 0x80 ≠ 0

/-- The ring that the segment is for. -/
def dpl (s : Segment) : UInt16 := ((s.access >>> 5) &&& 3).toUInt16

/-- Code that does not run in the ring of its caller. -/
def IsCode (s : Segment) : Prop := s.access &&& 0x1C = 0x18

/-- Data that can be written, upwards from the base. -/
def IsData (s : Segment) : Prop := s.access &&& 0x1E = 0x12

/-- A task state segment of 32 bits that is not busy. -/
def IsTask (s : Segment) : Prop := s.access &&& 0x1F = 0x09

instance (s : Segment) : Decidable s.Flat := inferInstanceAs (Decidable (_ ∧ _ ∧ _))

instance (s : Segment) : Decidable s.Present := inferInstanceAs (Decidable (¬ _))

instance (s : Segment) : Decidable s.IsCode := inferInstanceAs (Decidable (_ = _))

instance (s : Segment) : Decidable s.IsData := inferInstanceAs (Decidable (_ = _))

instance (s : Segment) : Decidable s.IsTask := inferInstanceAs (Decidable (_ = _))

/-- A far jump, or a return to the ring of the selector, may go there. -/
def Enters (s : Segment) (sel : UInt16) : Prop := s.Present ∧ s.IsCode ∧ s.dpl = rpl sel

/-- `ss` may be loaded in the ring of the selector. -/
def Holds (s : Segment) (sel : UInt16) : Prop := s.Present ∧ s.IsData ∧ s.dpl = rpl sel

/-- `ds` and the like may be loaded in the ring `cpl`. -/
def Opens (s : Segment) (sel cpl : UInt16) : Prop :=
  s.Present ∧ (s.IsData ∨ s.access &&& 0x1A = 0x1A) ∧ cpl ≤ s.dpl ∧ rpl sel ≤ s.dpl

instance (s : Segment) (sel : UInt16) : Decidable (s.Enters sel) := inferInstanceAs (Decidable (_ ∧ _ ∧ _))

instance (s : Segment) (sel : UInt16) : Decidable (s.Holds sel) := inferInstanceAs (Decidable (_ ∧ _ ∧ _))

instance (s : Segment) (sel cpl : UInt16) : Decidable (s.Opens sel cpl) :=
  inferInstanceAs (Decidable (_ ∧ (_ ∨ _) ∧ _ ∧ _))

end Segment

end Lib.X86
