import Mathlib.Data.Nat.Bitwise
import Borked3DS.Interface.Handles

/-!
# The handle table after any calls

The free list and the range of the generations are kept by every call (`TableSound`). A slot in use
keeps its object and generation until it is closed. How far the generation counter has come says
that a closed handle cannot be created again before the counter has gone all the way round from its
own creation; it can be right after that, however few handles were created since it was closed.
-/

set_option autoImplicit false

namespace Borked3DS.Analysis

open Borked3DS.Library Borked3DS.Model Borked3DS.Interface HandleTable

variable {Obj : Type}

/-! ## The fields of a handle -/

section Fields

variable {generation slot handle handle' : ℕ}

theorem getGeneration_eq : getGeneration handle = handle % 2 ^ 15 :=
  Nat.and_two_pow_sub_one_eq_mod handle 15

theorem getSlot_eq : getSlot handle = handle / 2 ^ 15 % 2 ^ 16 := by
  unfold getSlot
  rw [Nat.shiftRight_eq_div_pow]

theorem handle_eq (hgen : generation < 2 ^ 15) :
    generation ||| slot <<< 15 = slot * 2 ^ 15 + generation := by
  rw [Nat.shiftLeft_eq, Nat.mul_comm slot, Nat.two_pow_add_eq_or_of_lt hgen, Nat.lor_comm]

theorem getSlot_handle (hgen : generation < 2 ^ 15) (hslot : slot < MAX_COUNT) :
    getSlot (generation ||| slot <<< 15) = slot := by
  unfold MAX_COUNT at hslot
  rw [getSlot_eq, handle_eq hgen]
  omega

theorem getGeneration_handle (hgen : generation < 2 ^ 15) :
    getGeneration (generation ||| slot <<< 15) = generation := by
  rw [getGeneration_eq, handle_eq hgen]
  omega

/-- Slot and generation are the lower 31 bits. -/
theorem fields_eq_iff :
    handle % 2 ^ 31 = handle' % 2 ^ 31 ↔
      getSlot handle = getSlot handle' ∧ getGeneration handle = getGeneration handle' := by
  rw [getSlot_eq, getSlot_eq, getGeneration_eq, getGeneration_eq]
  omega

end Fields

/-! ## What every call keeps -/

/-- The slots that are free. -/
def freeSlots (t : HandleTable Obj) : Set ℕ := {slot | slot < MAX_COUNT ∧ t.objects slot = none}

/-- The free slots are listed, and all generations are in their range. -/
structure TableSound (t : HandleTable Obj) : Prop where
  freeList : FreeList t.generations MAX_COUNT t.nextFreeSlot (freeSlots t)
  counter : 1 ≤ t.nextGeneration ∧ t.nextGeneration < 2 ^ 15
  generations : ∀ slot < MAX_COUNT, (t.objects slot).isSome →
    1 ≤ t.generations slot ∧ t.generations slot < 2 ^ 15

section Keeps

variable {t t' : HandleTable Obj} {obj : Obj} {handle : ℕ}

theorem max_not_free : MAX_COUNT ∉ freeSlots t := fun h => Nat.lt_irrefl _ h.1

theorem create_eq_ok :
    t.create obj = .ok (handle, t') ↔ t.nextFreeSlot < MAX_COUNT ∧
      handle = t.nextGeneration ||| t.nextFreeSlot <<< 15 ∧
      t' = { objects := Function.update t.objects t.nextFreeSlot (some obj)
             generations := Function.update t.generations t.nextFreeSlot t.nextGeneration
             nextGeneration := if 2 ^ 15 ≤ t.nextGeneration + 1 then 1 else t.nextGeneration + 1
             nextFreeSlot := t.generations t.nextFreeSlot } := by
  unfold create
  dsimp only
  by_cases hslot : t.nextFreeSlot < MAX_COUNT
  · rw [if_pos hslot]
    constructor
    · intro hrun
      cases hrun
      exact ⟨hslot, rfl, rfl⟩
    · rintro ⟨-, rfl, rfl⟩
      rfl
  · rw [if_neg hslot]
    constructor
    · intro hrun
      cases hrun
    · intro h
      exact absurd h.1 hslot

theorem isValid_iff :
    t.isValid handle = true ↔ getSlot handle < MAX_COUNT ∧ (t.objects (getSlot handle)).isSome ∧
      t.generations (getSlot handle) = getGeneration handle := by
  unfold isValid
  simp [and_assoc]

theorem close_eq_ok :
    t.close handle = .ok t' ↔ t.isValid handle = true ∧
      t' = { t with
        objects := Function.update t.objects (getSlot handle) none
        generations := Function.update t.generations (getSlot handle) t.nextFreeSlot
        nextFreeSlot := getSlot handle } := by
  unfold close
  by_cases hvalid : t.isValid handle = true
  · rw [if_pos hvalid]
    simp only [Except.ok.injEq, hvalid, true_and]
    exact eq_comm
  · rw [if_neg hvalid]
    simp only [reduceCtorEq, hvalid, false_and]

/-- The head of the list is a free slot, unless no slot is free. -/
theorem TableSound.head_free (h : TableSound t) (hslot : t.nextFreeSlot < MAX_COUNT) :
    t.objects t.nextFreeSlot = none :=
  (h.freeList.head_mem (Nat.ne_of_lt hslot)).2

theorem TableSound.create (h : TableSound t) (hrun : t.create obj = .ok (handle, t')) : TableSound t' := by
  obtain ⟨hslot, -, rfl⟩ := create_eq_ok.mp hrun
  refine ⟨?_, ?_, ?_⟩
  · refine h.freeList.take (Nat.ne_of_lt hslot) ?_ ?_
    · intro i hi
      exact Function.update_of_ne hi _ _
    · intro i
      unfold freeSlots
      by_cases hi : i = t.nextFreeSlot
      · subst hi
        simp
      · simp [hi]
  · have hcounter := h.counter
    dsimp only
    split
    next => omega
    next => omega
  · intro slot hs hsome
    by_cases hi : slot = t.nextFreeSlot
    · subst hi
      simp only [Function.update_self]
      exact h.counter
    · simp only [Function.update_of_ne hi] at hsome ⊢
      exact h.generations slot hs hsome

theorem TableSound.close (h : TableSound t) (hrun : t.close handle = .ok t') : TableSound t' := by
  obtain ⟨hvalid, rfl⟩ := close_eq_ok.mp hrun
  obtain ⟨hslot, hsome, -⟩ := isValid_iff.mp hvalid
  refine ⟨?_, h.counter, ?_⟩
  · refine h.freeList.put ?_ ?_
    · intro hfree
      rw [hfree.2] at hsome
      cases hsome
    · intro i
      unfold freeSlots
      by_cases hi : i = getSlot handle
      · subst hi
        simp [hslot]
      · simp [hi]
  · intro slot hs hsome'
    by_cases hi : slot = getSlot handle
    · subst hi
      simp at hsome'
    · simp only [Function.update_of_ne hi] at hsome' ⊢
      exact h.generations slot hs hsome'

theorem sound_clear (hcounter : 1 ≤ t.nextGeneration ∧ t.nextGeneration < 2 ^ 15) :
    TableSound t.clear where
  freeList := freeList_succ (fun _ _ => rfl) fun i => by simp [freeSlots, HandleTable.clear]
  counter := hcounter
  generations slot _ hsome := by cases hsome

theorem sound_init : TableSound (init : HandleTable Obj) :=
  sound_clear ⟨Nat.le_refl 1, Nat.one_lt_two_pow (by decide)⟩

/-- Every call is a creation, a closing, a clearing, or changes nothing. -/
theorem exec_cases (t : HandleTable Obj) (c : HandleCall Obj) :
    (∃ obj handle t', t.create obj = .ok (handle, t') ∧ c.exec t = (some handle, t')) ∨
    (∃ handle t', c = .close handle ∧ t.close handle = .ok t' ∧ c.exec t = (none, t')) ∨
    (c = .clear ∧ c.exec t = (none, t.clear)) ∨ c.exec t = (none, t) := by
  cases c with
  | create obj =>
      simp only [HandleCall.exec]
      cases hrun : t.create obj with
      | ok r => exact .inl ⟨obj, r.1, r.2, hrun, rfl⟩
      | error e => exact .inr (.inr (.inr rfl))
  | duplicate ct cp h =>
      simp only [HandleCall.exec]
      cases hrun : t.duplicate ct cp h with
      | error e => exact .inr (.inr (.inr rfl))
      | ok r =>
          unfold HandleTable.duplicate at hrun
          cases hobj : t.getGeneric ct cp h with
          | none =>
              rw [hobj] at hrun
              cases hrun
          | some obj =>
              rw [hobj] at hrun
              exact .inl ⟨obj, r.1, r.2, hrun, rfl⟩
  | close h =>
      simp only [HandleCall.exec]
      cases hrun : t.close h with
      | ok t' => exact .inr (.inl ⟨h, t', rfl, hrun, rfl⟩)
      | error e => exact .inr (.inr (.inr rfl))
  | clear => exact .inr (.inr (.inl ⟨rfl, rfl⟩))

theorem TableSound.exec (h : TableSound t) (c : HandleCall Obj) : TableSound (c.exec t).2 := by
  rcases exec_cases t c with ⟨obj, handle, t', hrun, hexec⟩ | ⟨handle, t', -, hrun, hexec⟩ |
    ⟨-, hexec⟩ | hexec
  · rw [hexec]
    exact h.create hrun
  · rw [hexec]
    exact h.close hrun
  · rw [hexec]
    exact sound_clear h.counter
  · rw [hexec]
    exact h

theorem sound_after (h : TableSound t) (calls : List (HandleCall Obj)) : TableSound (after t calls) := by
  induction calls generalizing t with
  | nil => exact h
  | cons c calls ih => exact ih (h.exec c)

end Keeps

/-! ## The life of a handle -/

section Life

variable {t t' : HandleTable Obj} {obj : Obj} {handle : ℕ}

/-- A slot keeps its object and its generation under every call that does not close it. -/
theorem slot_kept (h : TableSound t) (hsome : t.objects (getSlot handle) = some obj)
    (hgen : t.generations (getSlot handle) = getGeneration handle) {c : HandleCall Obj}
    (hc : ¬ c.Closes handle) :
    (c.exec t).2.objects (getSlot handle) = some obj ∧
      (c.exec t).2.generations (getSlot handle) = getGeneration handle := by
  rcases exec_cases t c with ⟨obj', handle', t', hrun, hexec⟩ | ⟨handle', t', rfl, hrun, hexec⟩ |
    ⟨rfl, hexec⟩ | hexec
  · rw [hexec]
    obtain ⟨hslot, -, rfl⟩ := create_eq_ok.mp hrun
    have hne : getSlot handle ≠ t.nextFreeSlot := by
      intro heq
      rw [heq, h.head_free hslot] at hsome
      cases hsome
    simp only [Function.update_of_ne hne]
    exact ⟨hsome, hgen⟩
  · rw [hexec]
    obtain ⟨hvalid, rfl⟩ := close_eq_ok.mp hrun
    have hne : getSlot handle ≠ getSlot handle' := by
      intro heq
      have hgen' := (isValid_iff.mp hvalid).2.2
      rw [← heq, hgen] at hgen'
      exact hc (fields_eq_iff.mpr ⟨heq.symm, hgen'.symm⟩)
    simp only [Function.update_of_ne hne]
    exact ⟨hsome, hgen⟩
  · exact absurd trivial hc
  · rw [hexec]
    exact ⟨hsome, hgen⟩

theorem slot_kept_after (h : TableSound t) (hsome : t.objects (getSlot handle) = some obj)
    (hgen : t.generations (getSlot handle) = getGeneration handle) (calls : List (HandleCall Obj))
    (hcalls : ∀ c ∈ calls, ¬ c.Closes handle) :
    (after t calls).objects (getSlot handle) = some obj ∧
      (after t calls).generations (getSlot handle) = getGeneration handle := by
  induction calls generalizing t with
  | nil => exact ⟨hsome, hgen⟩
  | cons c calls ih =>
      obtain ⟨hsome', hgen'⟩ := slot_kept h hsome hgen (hcalls c (by simp))
      exact ih (h.exec c) hsome' hgen' fun d hd => hcalls d (by simp [hd])

/-- The generation counter stands `n` creations behind generation `g`. -/
def CounterAt (g n : ℕ) (t : HandleTable Obj) : Prop := t.nextGeneration = (g + n) % 32767 + 1

theorem counterAt_exec {g n : ℕ} (h : CounterAt g n t) (c : HandleCall Obj) :
    CounterAt g (n + if (c.exec t).1.isSome then 1 else 0) (c.exec t).2 := by
  unfold CounterAt at h ⊢
  rcases exec_cases t c with ⟨obj, handle, t', hrun, hexec⟩ | ⟨handle, t', -, hrun, hexec⟩ |
    ⟨-, hexec⟩ | hexec
  · rw [hexec]
    obtain ⟨-, -, rfl⟩ := create_eq_ok.mp hrun
    simp only [Option.isSome_some, if_true]
    split
    next hwrap => omega
    next hwrap => omega
  · rw [hexec]
    obtain ⟨-, rfl⟩ := close_eq_ok.mp hrun
    exact h
  · rw [hexec]
    exact h
  · rw [hexec]
    exact h

theorem counterAt_after {g n : ℕ} (h : CounterAt g n t) (calls : List (HandleCall Obj)) :
    CounterAt g (n + creations t calls) (after t calls) := by
  induction calls generalizing t n with
  | nil => exact h
  | cons c calls ih =>
      have hrest := ih (counterAt_exec h c)
      rw [Nat.add_assoc] at hrest
      exact hrest

/-- As long as the counter has not come round to its generation, a handle that is invalid stays
so. -/
theorem invalid_exec {n : ℕ} (hcounter : CounterAt (getGeneration handle) n t)
    (hinvalid : t.isValid handle = false) (c : HandleCall Obj)
    (hn : n + (if (c.exec t).1.isSome then 1 else 0) ≤ 32766) :
    (c.exec t).2.isValid handle = false := by
  have hnot : ∀ t' : HandleTable Obj, ¬ t'.isValid handle = true → t'.isValid handle = false :=
    fun t' => by simp
  have hinvalid' : ¬ t.isValid handle = true := by simp [hinvalid]
  rw [isValid_iff] at hinvalid'
  apply hnot
  rw [isValid_iff]
  rintro ⟨hslot, hsome, hgen⟩
  rcases exec_cases t c with ⟨obj, handle', t', hrun, hexec⟩ | ⟨handle', t', -, hrun, hexec⟩ |
    ⟨-, hexec⟩ | hexec
  · rw [hexec] at hsome hgen hn
    obtain ⟨-, -, rfl⟩ := create_eq_ok.mp hrun
    by_cases hs : getSlot handle = t.nextFreeSlot
    · -- the slot is taken again, with a generation that is another one
      simp only [hs, Function.update_self] at hgen
      unfold CounterAt at hcounter
      simp only [Option.isSome_some, if_true] at hn
      have hlt := Nat.mod_lt handle (show 0 < 2 ^ 15 by decide)
      rw [hgen, getGeneration_eq] at hcounter
      omega
    · simp only [Function.update_of_ne hs] at hsome hgen
      exact hinvalid' ⟨hslot, hsome, hgen⟩
  · rw [hexec] at hsome hgen
    obtain ⟨-, rfl⟩ := close_eq_ok.mp hrun
    by_cases hs : getSlot handle = getSlot handle'
    · simp [hs] at hsome
    · simp only [Function.update_of_ne hs] at hsome hgen
      exact hinvalid' ⟨hslot, hsome, hgen⟩
  · rw [hexec] at hsome
    cases hsome
  · rw [hexec] at hsome hgen
    exact hinvalid' ⟨hslot, hsome, hgen⟩

theorem invalid_after {n : ℕ} (hcounter : CounterAt (getGeneration handle) n t)
    (hinvalid : t.isValid handle = false) (calls : List (HandleCall Obj))
    (hn : n + creations t calls ≤ 32766) : (after t calls).isValid handle = false := by
  induction calls generalizing t n with
  | nil => exact hinvalid
  | cons c calls ih =>
      rw [creations, ← Nat.add_assoc] at hn
      have hstep := invalid_exec hcounter hinvalid c (by omega)
      exact ih (counterAt_exec hcounter c) hstep hn

/-- A handle is invalid once it has been closed. -/
theorem invalid_of_closes {c : HandleCall Obj} (hc : c.Closes handle) :
    (c.exec t).2.isValid handle = false := by
  have hnot : ∀ t' : HandleTable Obj, ¬ t'.isValid handle = true → t'.isValid handle = false :=
    fun t' => by simp
  apply hnot
  cases c with
  | create obj => exact absurd hc id
  | duplicate ct cp h => exact absurd hc id
  | clear =>
      rw [isValid_iff]
      rintro ⟨-, hsome, -⟩
      cases hsome
  | close h =>
      obtain ⟨hslot, hgen⟩ := fields_eq_iff.mp hc
      simp only [HandleCall.exec]
      cases hrun : t.close h with
      | ok t' =>
          obtain ⟨-, rfl⟩ := close_eq_ok.mp hrun
          rw [isValid_iff]
          rintro ⟨-, hsome, -⟩
          rw [← hslot] at hsome
          simp at hsome
      | error e =>
          intro hvalid
          have hvalid' : t.isValid h = true := by
            rw [isValid_iff, hslot, hgen]
            exact isValid_iff.mp hvalid
          unfold HandleTable.close at hrun
          rw [if_pos hvalid'] at hrun
          cases hrun

theorem after_append (t : HandleTable Obj) (calls calls' : List (HandleCall Obj)) :
    after t (calls ++ calls') = after (after t calls) calls' := by
  induction calls generalizing t with
  | nil => rfl
  | cons c calls ih => exact ih _

theorem creations_append (t : HandleTable Obj) (calls calls' : List (HandleCall Obj)) :
    creations t (calls ++ calls') = creations t calls + creations (after t calls) calls' := by
  induction calls generalizing t with
  | nil => simp [creations, after]
  | cons c calls ih =>
      simp only [List.cons_append, creations, after]
      rw [ih]
      omega

/-- Every handle that is created keeps its promise. -/
theorem TableSound.promise (h : TableSound t) (hrun : t.create obj = .ok (handle, t')) :
    HandlePromise t t' obj handle := by
  have hsound := h.create hrun
  obtain ⟨hslot, rfl, ht'⟩ := create_eq_ok.mp hrun
  obtain ⟨hpos, hlt⟩ := h.counter
  have hgetSlot := getSlot_handle hlt hslot
  have hgetGen : getGeneration (t.nextGeneration ||| t.nextFreeSlot <<< 15) = t.nextGeneration :=
    getGeneration_handle hlt
  have hvalue : t.nextGeneration ||| t.nextFreeSlot <<< 15 =
      t.nextFreeSlot * 2 ^ 15 + t.nextGeneration := handle_eq hlt
  have hobject : t'.objects t.nextFreeSlot = some obj := by
    rw [ht']
    simp
  have hgeneration : t'.generations t.nextFreeSlot = t.nextGeneration := by
    rw [ht']
    simp
  have hpseudo : t.nextGeneration ||| t.nextFreeSlot <<< 15 ≠ CurrentThread ∧
      t.nextGeneration ||| t.nextFreeSlot <<< 15 ≠ CurrentProcess := by
    unfold MAX_COUNT at hslot
    unfold CurrentThread CurrentProcess
    rw [hvalue]
    omega
  refine ⟨by rw [hvalue]; omega, hpseudo, ?_, ?_, ?_, ?_⟩
  · refine ⟨t.nextFreeSlot, hslot, by rw [hobject]; rfl, ?_⟩
    rw [hgeneration]
  · rintro _ ⟨slot, hs, hsome, rfl⟩ heq
    have hgen := (h.generations slot hs hsome).2
    have hsame : slot = t.nextFreeSlot := by
      rw [← getSlot_handle hgen hs, heq, hgetSlot]
    rw [hsame, h.head_free hslot] at hsome
    cases hsome
  · intro calls hcalls ct cp
    obtain ⟨hsome, hgen⟩ := slot_kept_after hsound (by rw [hgetSlot]; exact hobject)
      (by rw [hgetSlot, hgetGen]; exact hgeneration) calls hcalls
    have hvalid : (after t' calls).isValid (t.nextGeneration ||| t.nextFreeSlot <<< 15) = true := by
      rw [isValid_iff, hsome, hgetSlot]
      rw [hgetSlot] at hgen
      exact ⟨hslot, rfl, hgen⟩
    unfold getGeneric
    rw [if_neg hpseudo.1, if_neg hpseudo.2, if_pos hvalid, hsome]
  · intro calls c calls' hc hcount
    have hcounter : CounterAt (getGeneration (t.nextGeneration ||| t.nextFreeSlot <<< 15)) 0 t' := by
      unfold CounterAt
      rw [hgetGen, ht']
      simp only
      split
      next hwrap => omega
      next hwrap => omega
    rw [creations_append] at hcount
    rw [after_append]
    have hbefore := counterAt_after hcounter calls
    refine invalid_after (counterAt_exec hbefore c) (invalid_of_closes hc) calls' ?_
    rw [creations] at hcount
    omega

/-- After any sequence of calls the table keeps its promises: the free list is intact, creation
fails exactly when all slots are in use, and each handle it returns is new, resolves to its object
until it is closed, and is invalid from then on until as many handles have been created since its
own creation as there are generations. -/
theorem handleTable_promise (calls : List (HandleCall Obj)) : TablePromise (after init calls) := by
  have h := sound_after sound_init calls
  refine ⟨h.freeList, ?_, fun obj handle t' hrun => h.promise hrun, ?_⟩
  · intro obj
    unfold create
    dsimp only
    have hend := h.freeList.eq_end_iff max_not_free
    constructor
    · intro hrun slot hslot
      split at hrun
      next => cases hrun
      next hfull =>
        have heq : (after init calls).nextFreeSlot = MAX_COUNT := by
          by_contra hne
          exact hfull (h.freeList.head_mem hne).1
        cases hobj : (after init calls).objects slot with
        | some obj => rfl
        | none => exact absurd ⟨hslot, hobj⟩ (hend.mp heq slot)
    · intro hfull
      have heq : (after init calls).nextFreeSlot = MAX_COUNT := by
        refine hend.mpr ?_
        rintro slot ⟨hslot, hnone⟩
        have hsome := hfull slot hslot
        rw [hnone] at hsome
        cases hsome
      rw [heq]
      rfl
  · intro ct cp g handle t' hrun
    unfold HandleTable.duplicate at hrun
    cases hobj : (after init calls).getGeneric ct cp g with
    | none =>
        rw [hobj] at hrun
        cases hrun
    | some obj =>
        rw [hobj] at hrun
        exact ⟨obj, rfl, h.promise hrun⟩

end Life

/-! ## A handle that comes back at once -/

section Churn

variable {t t' : HandleTable Obj} {obj : Obj} {handle : ℕ}

/-- Closing a handle right after its creation takes back all but the generation. -/
theorem create_close (h : TableSound t) (hrun : t.create obj = .ok (handle, t')) :
    t'.close handle = .ok { t with nextGeneration := t'.nextGeneration } := by
  have hpromise := h.promise hrun
  obtain ⟨hslot, rfl, rfl⟩ := create_eq_ok.mp hrun
  have hgetSlot := getSlot_handle h.counter.2 hslot
  refine close_eq_ok.mpr ⟨?_, ?_⟩
  · rw [isValid_iff, hgetSlot, getGeneration_handle h.counter.2]
    simp [hslot]
  · rw [hgetSlot]
    simp only [Function.update_idem]
    rw [← h.head_free hslot, Function.update_eq_self, Function.update_eq_self]

/-- Objects made and closed one after the other, from the second slot and generation on. -/
def churn (n : ℕ) : List (HandleCall Unit) :=
  (List.range n).flatMap fun i => [.create (), .close (2 ^ 15 + ((i + 1) % 32767 + 1))]

/-- One turn of it. -/
theorem after_createClose {u : HandleTable Unit} {g : ℕ} (h : TableSound u) (hslot : u.nextFreeSlot = 1)
    (hg : u.nextGeneration = g) :
    after u [.create (), .close (2 ^ 15 + g)] =
      { u with nextGeneration := if 2 ^ 15 ≤ g + 1 then 1 else g + 1 } := by
  subst hg
  obtain ⟨handle, u', hrun⟩ : ∃ handle u', u.create () = .ok (handle, u') :=
    ⟨_, _, create_eq_ok.mpr ⟨by rw [hslot]; decide, rfl, rfl⟩⟩
  have hclose := create_close h hrun
  obtain ⟨-, hhandle, hu'⟩ := create_eq_ok.mp hrun
  have hvalue : handle = 2 ^ 15 + u.nextGeneration := by
    rw [hhandle, handle_eq h.counter.2, hslot, Nat.one_mul]
  rw [hvalue] at hclose
  simp only [after, HandleCall.exec, hrun, hclose]
  rw [hu']

theorem after_churn {u : HandleTable Unit} (h : TableSound u) (hslot : u.nextFreeSlot = 1)
    (hg : u.nextGeneration = 2) (n : ℕ) :
    after u (churn n) = { u with nextGeneration := (n + 1) % 32767 + 1 } := by
  induction n with
  | zero =>
      have hsame : u = { u with nextGeneration := 2 } := by rw [← hg]
      exact hsame
  | succ n ih =>
      have hsound := sound_after h (churn n)
      unfold churn at ih hsound ⊢
      rw [List.range_succ, List.flatMap_append, after_append, ih]
      rw [ih] at hsound
      refine (after_createClose hsound hslot rfl).trans ?_
      dsimp only
      congr 1
      split
      next hwrap => omega
      next hwrap => omega

/-- The first handle, closed after as many others have come and gone as there are generations, is
returned by the very next creation. -/
theorem closedHandle_returns :
    LiveHandle (after init (.create () :: churn 32766)) 1 ∧
      (after init (.create () :: churn 32766 ++ [.close 1])).isValid 1 = false ∧
      creations (after init (.create () :: churn 32766 ++ [.close 1])) [.create ()] = 1 ∧
      (after init (.create () :: churn 32766 ++ [.close 1, .create ()])).isValid 1 = true := by
  have hchurn : ∀ n, after init (.create () :: churn n) =
      { after init [HandleCall.create ()] with nextGeneration := (n + 1) % 32767 + 1 } :=
    after_churn (sound_after sound_init [HandleCall.create ()]) rfl rfl
  rw [after_append, after_append, hchurn]
  refine ⟨⟨0, by decide, ?_, ?_⟩, ?_, ?_, ?_⟩
  all_goals decide

end Churn

end Borked3DS.Analysis

/-!
## The handles that a table accepts

The handles that have been issued are those of the slots in use. A table looks at 31 bits of a
handle only, so that it accepts each of them a second time, with the highest bit set.
-/

namespace Borked3DS.Analysis

open Borked3DS.Library Borked3DS.Model Borked3DS.Interface HandleTable

variable {Obj : Type} {t t' : HandleTable Obj} {obj : Obj} {handle handle' : ℕ}

/-! ### The handles of the slots in use -/

/-- What a handle of a slot in use consists of. -/
theorem TableSound.liveHandle_iff (h : TableSound t) :
    LiveHandle t handle ↔ t.isValid handle = true ∧ handle < 2 ^ 31 := by
  rw [isValid_iff]
  constructor
  · rintro ⟨slot, hslot, hsome, rfl⟩
    have hgen := (h.generations slot hslot hsome).2
    rw [getSlot_handle hgen hslot, getGeneration_handle hgen, handle_eq hgen]
    refine ⟨⟨hslot, hsome, rfl⟩, ?_⟩
    unfold MAX_COUNT at hslot
    omega
  · rintro ⟨⟨hslot, hsome, hgen⟩, hlt⟩
    refine ⟨getSlot handle, hslot, hsome, ?_⟩
    have hrange := (h.generations _ hslot hsome).2
    rw [handle_eq hrange, hgen, getSlot_eq, getGeneration_eq]
    omega

/-- A creation adds its handle, -/
theorem TableSound.liveHandle_create (h : TableSound t) (hrun : t.create obj = .ok (handle, t')) :
    LiveHandle t' handle' ↔ LiveHandle t handle' ∨ handle = handle' := by
  have hgen := h.counter.2
  obtain ⟨hslot, rfl, rfl⟩ := create_eq_ok.mp hrun
  have hfree := h.head_free hslot
  constructor
  · rintro ⟨slot, hs, hsome, rfl⟩
    by_cases hi : slot = t.nextFreeSlot
    · subst hi
      simp only [Function.update_self, or_true]
    · simp only [Function.update_of_ne hi] at hsome ⊢
      exact Or.inl ⟨slot, hs, hsome, rfl⟩
  · rintro (⟨slot, hs, hsome, rfl⟩ | rfl)
    · have hi : slot ≠ t.nextFreeSlot := by
        rintro rfl
        rw [hfree] at hsome
        cases hsome
      refine ⟨slot, hs, ?_, ?_⟩
      · simpa only [Function.update_of_ne hi] using hsome
      · simp only [Function.update_of_ne hi]
    · refine ⟨t.nextFreeSlot, hslot, ?_, ?_⟩
      · simp only [Function.update_self, Option.isSome_some]
      · simp only [Function.update_self]

/-- and a closing takes that of its slot away. -/
theorem TableSound.liveHandle_close (h : TableSound t) (hrun : t.close handle = .ok t') :
    LiveHandle t' handle' ↔ LiveHandle t handle' ∧ getSlot handle ≠ getSlot handle' := by
  obtain ⟨hvalid, rfl⟩ := close_eq_ok.mp hrun
  constructor
  · rintro ⟨slot, hs, hsome, rfl⟩
    have hi : slot ≠ getSlot handle := by
      rintro rfl
      simp only [Function.update_self, Option.isSome_none, Bool.false_eq_true] at hsome
    simp only [Function.update_of_ne hi] at hsome ⊢
    refine ⟨⟨slot, hs, hsome, rfl⟩, ?_⟩
    rw [getSlot_handle (h.generations slot hs hsome).2 hs]
    exact hi.symm
  · rintro ⟨⟨slot, hs, hsome, rfl⟩, hne⟩
    rw [getSlot_handle (h.generations slot hs hsome).2 hs] at hne
    refine ⟨slot, hs, ?_, ?_⟩
    · simpa only [Function.update_of_ne hne.symm] using hsome
    · simp only [Function.update_of_ne hne.symm]

/-- A call that returns no handle and frees no slot. -/
theorem not_frees_of_close_error {result : Result} (hrun : t.close handle = .error result)
    (slot : ℕ) : ¬ (HandleCall.close handle).Frees t slot := by
  rintro ⟨hvalid, -⟩
  unfold HandleTable.close at hrun
  rw [if_pos hvalid] at hrun
  cases hrun

/-- Each call issues what is in the slots in use behind it. -/
theorem TableSound.liveHandle_exec (h : TableSound t) (c : HandleCall Obj) :
    LiveHandle (c.exec t).2 handle ↔
      (LiveHandle t handle ∧ ¬ c.Frees t (getSlot handle)) ∨ (c.exec t).1 = some handle := by
  cases c with
  | create obj =>
      dsimp only [HandleCall.exec, HandleCall.Frees]
      cases hrun : t.create obj with
      | ok r =>
          dsimp only
          rw [h.liveHandle_create hrun, Option.some.injEq, not_false_eq_true, and_true]
      | error result => simp only [not_false_eq_true, and_true, reduceCtorEq, or_false]
  | duplicate ct cp g =>
      dsimp only [HandleCall.exec, HandleCall.Frees]
      cases hrun : t.duplicate ct cp g with
      | ok r =>
          unfold HandleTable.duplicate at hrun
          cases hobj : t.getGeneric ct cp g with
          | none =>
              rw [hobj] at hrun
              cases hrun
          | some obj =>
              rw [hobj] at hrun
              dsimp only
              rw [h.liveHandle_create hrun, Option.some.injEq, not_false_eq_true, and_true]
      | error result => simp only [not_false_eq_true, and_true, reduceCtorEq, or_false]
  | close g =>
      dsimp only [HandleCall.exec]
      cases hrun : t.close g with
      | ok t' =>
          have hvalid := (close_eq_ok.mp hrun).1
          dsimp only [HandleCall.Frees]
          rw [h.liveHandle_close hrun]
          simp only [hvalid, true_and, ne_eq, reduceCtorEq, or_false]
      | error result =>
          have hfrees := not_frees_of_close_error hrun (getSlot handle)
          simp only [hfrees, not_false_eq_true, and_true, reduceCtorEq, or_false]
  | clear =>
      dsimp only [HandleCall.exec, HandleCall.Frees]
      simp only [not_true_eq_false, and_false, reduceCtorEq, or_false, iff_false]
      rintro ⟨slot, -, hsome, -⟩
      cases hsome

/-- The handles that are issued are those of the slots in use. -/
theorem mem_issuedAfter_iff (h : TableSound t) {issued : Set ℕ}
    (hissued : ∀ handle, handle ∈ issued ↔ LiveHandle t handle) (calls : List (HandleCall Obj)) :
    handle ∈ issuedAfter t issued calls ↔ LiveHandle (after t calls) handle := by
  induction calls generalizing t issued with
  | nil => exact hissued handle
  | cons c calls ih =>
      refine ih (h.exec c) fun handle => ?_
      rw [h.liveHandle_exec c, ← hissued handle]
      rfl

theorem not_liveHandle_init : ¬ LiveHandle (init : HandleTable Obj) handle := by
  rintro ⟨slot, -, hsome, -⟩
  cases hsome

/-! ### Lookups -/

/-- A handle that is not valid, and none of the two that stand for something else, names nothing. -/
theorem lookupRight_iff_valid {issued : Set ℕ} :
    LookupRight t issued handle ↔ (t.isValid handle = true ↔ handle ∈ issued) := by
  constructor
  · exact fun h => h.valid
  · intro hvalid
    have hinvalid : handle ∉ issued → ¬ t.isValid handle = true :=
      fun hnot hv => hnot (hvalid.mp hv)
    have hnone : handle ∉ issued → handle ≠ CurrentThread → handle ≠ CurrentProcess →
        ∀ ct cp, t.getGeneric ct cp handle = none := by
      intro hnot hthread hprocess ct cp
      unfold getGeneric
      rw [if_neg hthread, if_neg hprocess, if_neg (hinvalid hnot)]
    refine ⟨hvalid, fun hnot => ⟨.invalidHandle, ?_⟩, hnone, ?_⟩
    · unfold HandleTable.close
      rw [if_neg (hinvalid hnot)]
    · intro hnot hthread hprocess ct cp
      refine ⟨.invalidHandle, ?_⟩
      unfold HandleTable.duplicate
      rw [hnone hnot hthread hprocess ct cp]

/-- All that is read of a handle are its lower 31 bits. -/
theorem isValid_mod : t.isValid (handle % 2 ^ 31) = t.isValid handle := by
  obtain ⟨hslot, hgen⟩ := fields_eq_iff.mp (Nat.mod_mod handle (2 ^ 31))
  unfold isValid
  rw [hslot, hgen]

/-- After any calls, a handle is looked up right exactly if it does not differ from one that is
issued in the highest bit only. -/
theorem lookupRight_iff (calls : List (HandleCall Obj)) (handle : UInt32) :
    LookupRight (after init calls) (issuedAfter init ∅ calls) handle.toNat ↔
      KeepsAllBits (issuedAfter init ∅ calls) handle.toNat := by
  have hsound := sound_after (sound_init : TableSound (init : HandleTable Obj)) calls
  have hissued : ∀ handle, handle ∈ issuedAfter (init : HandleTable Obj) ∅ calls ↔
      (after init calls).isValid handle = true ∧ handle < 2 ^ 31 := by
    intro handle
    rw [← hsound.liveHandle_iff]
    exact mem_issuedAfter_iff sound_init (fun _ => iff_of_false id not_liveHandle_init) calls
  have hlt := handle.toNat_lt
  rw [lookupRight_iff_valid]
  unfold KeepsAllBits
  by_cases hlow : handle.toNat < 2 ^ 31
  · simp only [hissued, hlow, and_true, true_or]
  · have hmod : handle.toNat % 2 ^ 31 = handle.toNat - 2 ^ 31 := by omega
    have hsame : (after (init : HandleTable Obj) calls).isValid (handle.toNat - 2 ^ 31) =
        (after init calls).isValid handle.toNat := by
      rw [← hmod, isValid_mod]
    have hsmall : handle.toNat - 2 ^ 31 < 2 ^ 31 := by omega
    simp only [hissued, hlow, hsame, hsmall, and_false, and_true, false_or, iff_false]

/-- The first handle is accepted with its highest bit set as well. -/
theorem forgedHandle_accepted :
    ¬ LookupRight (after init [HandleCall.create ()]) (issuedAfter init ∅ [HandleCall.create ()])
      0x80000001 := by
  intro h
  have hvalid : (after init [HandleCall.create ()]).isValid 0x80000001 = true := by decide
  rcases h.valid.mp hvalid with ⟨hempty, -⟩ | hreturned
  · exact hempty
  · cases hreturned

end Borked3DS.Analysis
