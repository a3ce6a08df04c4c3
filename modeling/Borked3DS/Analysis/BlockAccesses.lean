import Borked3DS.Interface.BlockAccesses
import Borked3DS.Model.Ipc

/-!
# Block accesses and the page table

Addresses wrap around at 4 GiB, page indices do not: a block that goes on there leaves the page
table, unless the loop comes to the end of the address space with the end of a turn.
-/

set_option autoImplicit false

namespace Borked3DS.Analysis

open Borked3DS.Library Borked3DS.Model Borked3DS.Model.Memory Borked3DS.Interface

variable {addr size destAddr : ℕ}

/-- The turns that are left take as many bytes as are left, page by page. -/
theorem blockTurns_inTable {fuel pageIndex pageOffset done remainingSize : ℕ}
    (hfuel : remainingSize ≤ fuel) (hoffset : pageOffset < PAGE_SIZE) :
    (∀ turn ∈ blockTurns fuel pageIndex pageOffset done remainingSize,
        turn.pageIndex < PAGE_TABLE_NUM_ENTRIES) ↔
      remainingSize = 0 ∨ pageIndex * PAGE_SIZE + pageOffset + remainingSize ≤ 2 ^ 32 := by
  have hend : PAGE_TABLE_NUM_ENTRIES * PAGE_SIZE = 2 ^ 32 := rfl
  induction fuel generalizing pageIndex pageOffset done remainingSize with
  | zero => simp [blockTurns, Nat.le_zero.mp hfuel]
  | succ fuel ih =>
      unfold blockTurns
      by_cases hnone : remainingSize = 0
      · simp [hnone]
      · have hrest := @ih (pageIndex + 1) 0 (done + min (PAGE_SIZE - pageOffset) remainingSize)
          (remainingSize - min (PAGE_SIZE - pageOffset) remainingSize) (by omega) (by decide)
        rw [if_neg hnone, List.forall_mem_cons]
        refine (and_congr_right fun _ => hrest).trans ?_
        unfold PAGE_SIZE PAGE_TABLE_NUM_ENTRIES at *
        dsimp only
        omega

theorem inTable_iff : InTable addr size ↔ size = 0 ∨ BelowEnd addr size := by
  unfold InTable turnsOf BelowEnd
  rw [blockTurns_inTable le_rfl (Nat.mod_lt _ (by decide))]
  rw [Nat.mul_comm, Nat.div_add_mod]

/-- Every turn takes some bytes. -/
theorem copyAmount_pos {fuel pageIndex pageOffset done remainingSize : ℕ}
    (hoffset : pageOffset < PAGE_SIZE) {turn : BlockTurn}
    (h : turn ∈ blockTurns fuel pageIndex pageOffset done remainingSize) : 0 < turn.copyAmount := by
  induction fuel generalizing pageIndex pageOffset done remainingSize with
  | zero => cases h
  | succ fuel ih =>
      unfold blockTurns at h
      by_cases hnone : remainingSize = 0
      · rw [if_pos hnone] at h
        cases h
      · rw [if_neg hnone] at h
        rcases List.mem_cons.mp h with rfl | h
        · show 0 < min (PAGE_SIZE - pageOffset) remainingSize
          omega
        · exact ih (by decide) h

/-- No turn is written across the end of the address space exactly when the block does not reach
behind it, or the turns end where pages do. -/
theorem blockTurns_straddle {fuel pageIndex pageOffset done remainingSize : ℕ}
    (hfuel : remainingSize ≤ fuel) (hoffset : pageOffset < PAGE_SIZE) :
    (∀ turn ∈ blockTurns fuel pageIndex pageOffset done remainingSize,
        BelowEnd (u32 (destAddr + turn.done)) turn.copyAmount) ↔
      remainingSize = 0 ∨ BelowEnd (u32 (destAddr + done)) remainingSize ∨
        (destAddr + done) % PAGE_SIZE = pageOffset := by
  induction fuel generalizing pageIndex pageOffset done remainingSize with
  | zero => simp [blockTurns, Nat.le_zero.mp hfuel]
  | succ fuel ih =>
      unfold blockTurns
      by_cases hnone : remainingSize = 0
      · simp [hnone]
      · have hrest := @ih (pageIndex + 1) 0 (done + min (PAGE_SIZE - pageOffset) remainingSize)
          (remainingSize - min (PAGE_SIZE - pageOffset) remainingSize) (by omega) (by decide)
        rw [if_neg hnone, List.forall_mem_cons]
        refine (and_congr_right fun _ => hrest).trans ?_
        unfold BelowEnd u32 PAGE_SIZE at *
        dsimp only
        omega

theorem copyInTable_iff (hdest : destAddr < 2 ^ 32) :
    CopyInTable destAddr addr size ↔ size = 0 ∨
      BelowEnd addr size ∧ (BelowEnd destAddr size ∨ destAddr % PAGE_SIZE = addr % PAGE_SIZE) := by
  have hturns : CopyInTable destAddr addr size ↔ InTable addr size ∧
      ∀ turn ∈ turnsOf addr size, BelowEnd (u32 (destAddr + turn.done)) turn.copyAmount := by
    unfold CopyInTable
    rw [InTable, ← forall₂_and]
    refine forall₂_congr fun turn hturn => and_congr Iff.rfl ?_
    rw [inTable_iff]
    exact or_iff_right (copyAmount_pos (Nat.mod_lt _ (by decide)) hturn).ne'
  rw [hturns, inTable_iff]
  unfold turnsOf
  rw [blockTurns_straddle le_rfl (Nat.mod_lt _ (by decide)), Nat.add_zero, u32_of_lt hdest]
  constructor
  · rintro ⟨hnone | hbelow, hnone' | hcases⟩
    all_goals first
      | exact Or.inl hnone
      | exact Or.inl hnone'
      | exact Or.inr ⟨hbelow, hcases⟩
  · rintro (hnone | ⟨hbelow, hcases⟩)
    · exact ⟨Or.inl hnone, Or.inl hnone⟩
    · exact ⟨Or.inr hbelow, Or.inr hcases⟩

/-! ## Where nothing is mapped -/

section Unmapped

variable {ρ : Type} (impl : MemoryImpl ρ) {m : HostState ρ}

/-- Where nothing is mapped, a turn looks at the attribute of its page and at nothing else. -/
theorem locateTurn_clear (mode : FlushMode) (turn : BlockTurn) :
    locateTurn impl PageTable.clear mode turn m =
      if turn.pageIndex < PAGE_TABLE_NUM_ENTRIES then .ok (none, m) else .error .undefined := by
  unfold locateTurn PageTable.attributeAt
  by_cases h : turn.pageIndex < PAGE_TABLE_NUM_ENTRIES
  · rw [if_pos h, if_pos h]
    rfl
  · rw [if_neg h, if_neg h]
    rfl

/-- A loop over turns comes to its end when each of them finds its page, and what it does of an
unmapped one comes to its end. -/
theorem forM_locate_clear (turns : List BlockTurn) (mode : FlushMode)
    (f : BlockTurn → Option ℕ → MemoryM ρ Unit) (p : BlockTurn → Prop)
    (hf : ∀ turn r, f turn none m = .ok r ↔ p turn ∧ r = ((), m)) (r : Unit × HostState ρ) :
    (turns.forM fun turn => do f turn (← locateTurn impl PageTable.clear mode turn)) m = .ok r ↔
      (∀ turn ∈ turns, turn.pageIndex < PAGE_TABLE_NUM_ENTRIES ∧ p turn) ∧ r = ((), m) := by
  induction turns with
  | nil =>
      change (Except.ok ((), m) : Except Fault (Unit × HostState ρ)) = .ok r ↔ _
      simp [eq_comm]
  | cons turn turns ih =>
      have hhead : ∀ r, (do f turn (← locateTurn impl PageTable.clear mode turn) : MemoryM ρ Unit) m
          = .ok r ↔ (turn.pageIndex < PAGE_TABLE_NUM_ENTRIES ∧ p turn) ∧ r = ((), m) := by
        intro r
        show (locateTurn impl PageTable.clear mode turn m >>= fun q => f turn q.1 q.2) = _ ↔ _
        rw [locateTurn_clear]
        by_cases h : turn.pageIndex < PAGE_TABLE_NUM_ENTRIES
        · rw [if_pos h, ok_bind, hf]
          simp [h]
        · rw [if_neg h, error_bind]
          simp [h]
      rw [List.forall_mem_cons]
      constructor
      · intro hr
        obtain ⟨_, m', hturn, hrest⟩ := stateT_bind_eq_ok.mp hr
        obtain ⟨hfirst, hsame⟩ := (hhead _).mp hturn
        cases hsame
        obtain ⟨hothers, rfl⟩ := ih.mp hrest
        exact ⟨⟨hfirst, hothers⟩, rfl⟩
      · rintro ⟨⟨hfirst, hothers⟩, rfl⟩
        exact stateT_bind_eq_ok.mpr ⟨(), m, (hhead _).mpr ⟨hfirst, rfl⟩, ih.mpr ⟨hothers, rfl⟩⟩

/-- A block that is written to nowhere comes to its end exactly when it stays inside the page
table. -/
theorem writeBlockFrom_clear (source : ℕ → ℕ → MemoryM ρ (List UInt8)) (r : Unit × HostState ρ) :
    writeBlockFrom impl PageTable.clear addr size source m = .ok r ↔
      InTable addr size ∧ r = ((), m) := by
  unfold writeBlockFrom
  refine (forM_locate_clear impl (turnsOf addr size) .invalidate _ (fun _ => True)
    (fun turn r => ?_) r).trans ?_
  · change (Except.ok ((), m) : Except Fault (Unit × HostState ρ)) = .ok r ↔ _
    simp [eq_comm]
  · simp [InTable]

end Unmapped

/-- Block accesses stay inside the page table exactly when their ranges end at 4 GiB at the latest;
the destination of a copy may go on behind it if it has the page offset of the source. -/
theorem blocks_inTable_iff (destAddr addr size : ℕ) (hdest : destAddr < 2 ^ 32) :
    (InTable addr size ↔ size = 0 ∨ BelowEnd addr size) ∧
      (CopyInTable destAddr addr size ↔ size = 0 ∨ BelowEnd addr size ∧
        (BelowEnd destAddr size ∨ destAddr % PAGE_SIZE = addr % PAGE_SIZE)) :=
  ⟨inTable_iff, copyInTable_iff hdest⟩

/-- The last page is read and copied, to an address whose page offset is that of the source. -/
theorem blocks_inTable_lastPage :
    InTable 0xFFFFF000 0x1000 ∧ CopyInTable 0xFFFFF000 0xFFFFF000 0x1000 := by
  have h := blocks_inTable_iff 0xFFFFF000 0xFFFFF000 0x1000 (by decide)
  exact ⟨h.1.mpr (Or.inr (by decide)),
    h.2.mpr (Or.inr ⟨by decide, Or.inl (by decide)⟩)⟩

/-- A static buffer and a mapped buffer that begin in the last page and are one byte longer than
it. -/
theorem blocks_leaveTable :
    ¬ (∀ addr descriptor, addr < 2 ^ 32 → descriptor < 2 ^ 32 →
        InTable addr (IPC.staticBufferSize descriptor)) ∧
      ¬ ∀ destAddr addr descriptor, destAddr < 2 ^ 32 → addr < 2 ^ 32 → descriptor < 2 ^ 32 →
        CopyInTable destAddr addr (IPC.mappedBufferSize descriptor) := by
  constructor
  · intro h
    have hturn := h 0xFFFFF000 0x04004002 (by decide) (by decide)
      { pageIndex := 0x100000, pageOffset := 0, copyAmount := 1, done := 0x1000 }
      (by decide)
    exact absurd hturn (by decide)
  · intro h
    have hturn := h 0x04001000 0xFFFFF000 0x0001001A (by decide) (by decide) (by decide)
      { pageIndex := 0x100000, pageOffset := 0, copyAmount := 1, done := 0x1000 }
      (by decide)
    exact absurd hturn.1 (by decide)

end Borked3DS.Analysis
