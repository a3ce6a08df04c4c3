import Borked3DS.Model.BlockMemory

/-!
# Where block accesses look

The loops of the block accesses count page indices up from the page of the start address. None of
them is meant to leave the page table.
-/

set_option autoImplicit false

namespace Borked3DS.Interface

open Borked3DS.Library Borked3DS.Model Borked3DS.Model.Memory

/-- `ReadBlock`, `WriteBlock` and `ZeroBlock` of a range look at pages of the table only. -/
def InTable (addr size : ℕ) : Prop :=
  ∀ turn ∈ turnsOf addr size, turn.pageIndex < PAGE_TABLE_NUM_ENTRIES

/-- `CopyBlock` does, in both tables: each of its turns writes a block of its own. -/
def CopyInTable (destAddr srcAddr size : ℕ) : Prop :=
  ∀ turn ∈ turnsOf srcAddr size, turn.pageIndex < PAGE_TABLE_NUM_ENTRIES ∧
    InTable (u32 (destAddr + turn.done)) turn.copyAmount

/-- A range ends at 4 GiB at the latest. -/
def BelowEnd (addr size : ℕ) : Prop := addr + size ≤ 2 ^ 32

instance (addr size : ℕ) : Decidable (BelowEnd addr size) := inferInstanceAs (Decidable (_ ≤ _))

end Borked3DS.Interface
