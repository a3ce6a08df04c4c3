import Mathlib.Algebra.BigOperators.Group.Finset.Basic
import Mathlib.Algebra.Order.BigOperators.Group.Finset
import Borked3DS.Analysis.VMManagerInvariant
import Borked3DS.Interface.ResourceAccounting

/-!
# What the parts of the kernel do to the books

Each of the functions that the `Create*` calls and the destructors are made of, with what it does
to the counts of the limits, to the bytes a process is charged for, and to who holds which byte
of FCRAM. The objects are a list next to the kernel, so that an object that was reserved and not
yet made, or one that is being destroyed, can be counted.
-/

set_option autoImplicit false

namespace Borked3DS.Analysis

open Borked3DS.Library Borked3DS.Model Borked3DS.Interface IntervalSet

section Lists

variable {α : Type}

/-- Overwriting one element changes a sum by the difference. -/
theorem sum_map_set (f : α → ℕ) {l : List α} {i : ℕ} {a : α} (h : l[i]? = some a) (b : α) :
    ((l.set i b).map f).sum + f a = (l.map f).sum + f b := by
  induction l generalizing i with
  | nil => cases h
  | cons c l ih =>
      cases i with
      | zero =>
          obtain rfl := Option.some.inj h
          simp only [List.set_cons_zero, List.map_cons, List.sum_cons]
          omega
      | succ i =>
          have := ih (i := i) h
          simp only [List.set_cons_succ, List.map_cons, List.sum_cons]
          omega

/-- What was found and what stays when it is erased make up the list. -/
theorem perm_cons_eraseP {p : α → Bool} {l : List α} {a : α} (h : l.find? p = some a) :
    l.Perm (a :: l.eraseP p) := by
  obtain ⟨ha, l₁, l₂, rfl, hl₁⟩ := List.find?_eq_some_iff_append.mp h
  rw [List.eraseP_append_right _ (fun b hb => by simpa using hl₁ b hb),
    List.eraseP_cons_of_pos ha]
  exact List.perm_middle

end Lists

variable {S : Type} [IntervalSet S]

/-! ## The books with a list of objects -/

/-- The counts of the limits are those of the objects. -/
def CountsOf (k : KernelSystem S) (objects : List (KernelObject S)) : Prop :=
  ∀ limit type, CountsObjects type → (k.resourceLimits limit).currentValues type =
    countCharged k.processes objects limit type

/-- The processes are charged for the bytes they and the objects hold. -/
def BytesOf (k : KernelSystem S) (objects : List (KernelObject S)) : Prop :=
  ∀ p process, k.processes[p]? = some process → process.expired = false →
    process.memoryUsed = heldBytes objects p process

/-- Every byte of FCRAM is free or held once at most. -/
def ApartOf (k : KernelSystem S) (objects : List (KernelObject S)) : Prop :=
  ∀ x, shares k.memoryRegions k.processes objects x ≤ if x < Memory.FCRAM_N3DS_SIZE then 1 else 0

theorem accounted_iff {k : KernelSystem S} :
    Accounted k ↔ CountsOf k (liveObjects k) ∧ BytesOf k (liveObjects k) :=
  ⟨fun h => ⟨h.counts, h.bytes⟩, fun h => ⟨h.1, h.2⟩⟩

section Perm

variable {k : KernelSystem S} {os os' : List (KernelObject S)}

omit [IntervalSet S] in
theorem CountsOf.perm (h : CountsOf k os) (hp : os.Perm os') : CountsOf k os' := by
  intro limit type htype
  rw [h limit type htype, countCharged, countCharged, hp.countP_eq]

theorem BytesOf.perm (h : BytesOf k os) (hp : os.Perm os') : BytesOf k os' := by
  intro p process hget hlive
  rw [h p process hget hlive, heldBytes, heldBytes, (hp.map _).sum_eq]

theorem ApartOf.perm (h : ApartOf k os) (hp : os.Perm os') : ApartOf k os' := by
  intro x
  have := h x
  rwa [shares, (hp.map _).sum_eq] at this

end Perm

/-! ## What an object adds -/

section Objects

variable {k : KernelSystem S} {os : List (KernelObject S)} {o : KernelObject S}

/-- An object that holds no memory. -/
def Weightless (o : KernelObject S) : Prop :=
  (∀ p, objectBytes p o = 0) ∧ ∀ x, objectShare x o = 0

theorem weightless_of_not_sharedMemory (h : ∀ m, o ≠ .sharedMemory m) : Weightless o := by
  cases o with
  | sharedMemory m => exact absurd rfl (h m)
  | _ => exact ⟨fun _ => rfl, fun _ => rfl⟩

omit [IntervalSet S] in
theorem countCharged_cons (ps : List (Process S)) (limit : ℕ) (type : ResourceLimitType) :
    countCharged ps (o :: os) limit type =
      countCharged ps os limit type + if charge ps o = some (limit, type) then 1 else 0 := by
  simp [countCharged, List.countP_cons]

theorem heldBytes_cons (p : ℕ) (process : Process S) :
    heldBytes (o :: os) p process = heldBytes os p process + objectBytes p o := by
  simp only [heldBytes, List.map_cons, List.sum_cons]
  omega

theorem shares_cons (regions : MemoryRegion → MemoryRegionInfo S) (ps : List (Process S)) (x : ℕ) :
    shares regions ps (o :: os) x = shares regions ps os x + objectShare x o := by
  simp only [shares, List.map_cons, List.sum_cons]
  omega

theorem bytesOf_cons (h : Weightless o) : BytesOf k (o :: os) ↔ BytesOf k os := by
  have hbytes : ∀ p, objectBytes p o = 0 := h.1
  simp [BytesOf, heldBytes_cons, hbytes]

theorem apartOf_cons (h : Weightless o) : ApartOf k (o :: os) ↔ ApartOf k os := by
  have hshare : ∀ x, objectShare x o = 0 := h.2
  simp [ApartOf, shares_cons, hshare]

omit [IntervalSet S] in
/-- One object too many or too few is noticed. -/
theorem countsOf_cons_unique {limit : ℕ} {type : ResourceLimitType}
    (hcharge : charge k.processes o = some (limit, type)) (htype : CountsObjects type)
    (h : CountsOf k (o :: os)) : ¬ CountsOf k os := by
  intro h'
  have h₁ := h limit type htype
  rw [h' limit type htype, countCharged_cons, if_pos hcharge] at h₁
  omega

end Objects

/-! ## Charges -/

section Charges

variable {k k' : KernelSystem S} {os : List (KernelObject S)} {o : KernelObject S} {limit : ℕ}
  {type : ResourceLimitType} {amount : ℤ}

/-- The kernel with a limit's value changed. -/
def withValue (k : KernelSystem S) (limit : ℕ) (type : ResourceLimitType) (value : ℤ) :
    KernelSystem S :=
  { k with resourceLimits := Function.update k.resourceLimits limit { k.resourceLimits limit with
      currentValues := Function.update (k.resourceLimits limit).currentValues type value } }

omit [IntervalSet S] in
theorem s32_eq_ok {x y : ℤ} : s32 x = .ok y → y = x := by
  unfold s32
  split
  · exact fun h => (Except.ok.inj h).symm
  · exact fun h => by cases h

omit [IntervalSet S] in
/-- SOURCE: resource_limit.cpp:45-56 -/
theorem reserve_ok {b : Bool} (h : reserve limit type amount k = .ok (b, k')) :
    b = true ∧ k' = withValue k limit type
      ((k.resourceLimits limit).currentValues type + amount) := by
  simp only [reserve, ResourceLimit.reserve, stateT_bind_eq_ok, stateT_get_eq_ok,
    stateT_lift_eq_ok, stateT_set_eq_ok, stateT_pure_eq_ok, bind_eq_ok] at h
  obtain ⟨_, _, ⟨rfl, rfl⟩, ⟨r, c⟩, _, ⟨⟨v, hv, hr⟩, rfl⟩, _, _, rfl, rfl, rfl⟩ := h
  obtain ⟨rfl, rfl⟩ := Prod.mk.inj (Except.ok.inj hr)
  rw [s32_eq_ok hv]
  exact ⟨rfl, rfl⟩

omit [IntervalSet S] in
/-- SOURCE: resource_limit.cpp:58-68 -/
theorem release_ok {u : Unit} (h : release limit type amount k = .ok (u, k')) :
    k' = withValue k limit type ((k.resourceLimits limit).currentValues type - amount) := by
  simp only [release, ResourceLimit.release, stateT_bind_eq_ok, stateT_get_eq_ok,
    stateT_lift_eq_ok, stateT_set_eq_ok, bind_eq_ok] at h
  obtain ⟨_, _, ⟨rfl, rfl⟩, ⟨r, c⟩, _, ⟨⟨v, hv, hr⟩, rfl⟩, rfl⟩ := h
  obtain ⟨rfl, rfl⟩ := Prod.mk.inj (Except.ok.inj hr)
  rw [s32_eq_ok hv]
  rfl

omit [IntervalSet S] in
theorem withValue_current (limit' : ℕ) (type' : ResourceLimitType) (value : ℤ) :
    ((withValue k limit type value).resourceLimits limit').currentValues type' =
      if limit' = limit ∧ type' = type then value
      else (k.resourceLimits limit').currentValues type' := by
  simp only [withValue, Function.update_apply]
  by_cases hl : limit' = limit
  · subst hl
    by_cases ht : type' = type
    · subst ht
      simp
    · simp [ht]
  · simp [hl]

omit [IntervalSet S] in
/-- Counting one more of a type is counting one more object of it. -/
theorem countsOf_withValue (hcharge : charge k.processes o = some (limit, type))
    (htype : CountsObjects type) :
    CountsOf (withValue k limit type ((k.resourceLimits limit).currentValues type + 1)) (o :: os) ↔
      CountsOf k os := by
  unfold CountsOf
  refine forall_congr' fun limit' => forall_congr' fun type' => forall_congr' fun htype' => ?_
  rw [withValue_current, countCharged_cons]
  show _ = ((countCharged k.processes os limit' type' +
    if charge k.processes o = some (limit', type') then 1 else 0 : ℕ) : ℤ) ↔ _
  rw [hcharge]
  by_cases hsame : limit' = limit ∧ type' = type
  · obtain ⟨rfl, rfl⟩ := hsame
    simp
  · have hother : ¬ (some (limit, type) = some (limit', type')) := by
      rintro heq
      cases heq
      exact hsame ⟨rfl, rfl⟩
    simp [hsame, hother]

omit [IntervalSet S] in
/-- Reserving for an object that is then pending.
SOURCE: resource_limit.cpp:45-56 -/
theorem reserve_counts {b : Bool} (h : reserve limit type 1 k = .ok (b, k'))
    (hcharge : charge k.processes o = some (limit, type)) (htype : CountsObjects type) :
    CountsOf k' (o :: os) ↔ CountsOf k os := by
  rw [(reserve_ok h).2]
  exact countsOf_withValue hcharge htype

omit [IntervalSet S] in
/-- Releasing what an object that goes was charged for.
SOURCE: resource_limit.cpp:58-68 -/
theorem release_counts {u : Unit} (h : release limit type 1 k = .ok (u, k'))
    (hcharge : charge k.processes o = some (limit, type)) (htype : CountsObjects type) :
    CountsOf k' os ↔ CountsOf k (o :: os) := by
  rw [release_ok h, ← countsOf_withValue (k := withValue k limit type _) hcharge htype]
  have hback : withValue (withValue k limit type ((k.resourceLimits limit).currentValues type - 1))
      limit type (((withValue k limit type ((k.resourceLimits limit).currentValues type - 1)
        ).resourceLimits limit).currentValues type + 1) = k := by
    rw [withValue_current, if_pos ⟨rfl, rfl⟩]
    simp [withValue]
  rw [hback]

end Charges

/-! ## Processes -/

section Processes

variable {k k' : KernelSystem S} {os os' : List (KernelObject S)} {p : ℕ}
  {process process' : Process S}

omit [IntervalSet S] in
/-- SOURCE: process.h:199 -/
theorem getProcess_ok (h : getProcess p k = .ok (process, k')) :
    k = k' ∧ k.processes[p]? = some process := by
  simp only [getProcess, stateT_bind_eq_ok, stateT_get_eq_ok] at h
  obtain ⟨_, _, ⟨rfl, rfl⟩, h⟩ := h
  cases hp : k.processes[p]? with
  | none =>
      rw [hp] at h
      exact (stateT_throw_eq_ok.mp h).elim
  | some process₀ =>
      rw [hp] at h
      obtain ⟨rfl, rfl⟩ := stateT_pure_eq_ok.mp h
      exact ⟨rfl, rfl⟩

/-- The processes are charged to the limits they were charged to. -/
def SameLimits (ps ps' : List (Process S)) : Prop :=
  ∀ i : ℕ, (ps'[i]?).map Process.resourceLimit = (ps[i]?).map Process.resourceLimit

omit [IntervalSet S] in
theorem sameLimits_set {ps : List (Process S)} (h : ps[p]? = some process)
    (hlimit : process'.resourceLimit = process.resourceLimit) :
    SameLimits ps (ps.set p process') := by
  intro i
  rw [List.getElem?_set]
  split
  next heq =>
    subst heq
    have hlt : p < ps.length := (List.getElem?_eq_some_iff.mp h).1
    rw [h]
    simp [hlt, hlimit]
  next => rfl

omit [IntervalSet S] in
theorem charge_congr {ps ps' : List (Process S)} (h : SameLimits ps ps') (o : KernelObject S) :
    charge ps' o = charge ps o := by
  have hmap : ∀ (i : ℕ) (type : ResourceLimitType),
      (ps'[i]?).map (fun p => (p.resourceLimit, type)) =
        (ps[i]?).map (fun p => (p.resourceLimit, type)) := by
    intro i type
    have := congrArg (Option.map fun limit => (limit, type)) (h i)
    rw [Option.map_map, Option.map_map] at this
    exact this
  cases o with
  | thread t => exact hmap _ _
  | sharedMemory m =>
      show Option.map _ (m.ownerProcess.bind _) = Option.map _ (m.ownerProcess.bind _)
      cases m.ownerProcess with
      | none => rfl
      | some owner => exact hmap owner _
  | _ => rfl

omit [IntervalSet S] in
theorem CountsOf.congr (h : CountsOf k os)
    (hlimits : ∀ limit type, CountsObjects type → (k'.resourceLimits limit).currentValues type =
      (k.resourceLimits limit).currentValues type)
    (hsame : SameLimits k.processes k'.processes) : CountsOf k' os := by
  have hcount : ∀ limit type,
      countCharged k'.processes os limit type = countCharged k.processes os limit type := by
    intro limit type
    refine List.countP_congr fun o _ => ?_
    rw [charge_congr hsame]
  intro limit type htype
  rw [hlimits limit type htype, hcount, h limit type htype]

/-- Writing a process leaves the books of the others. -/
theorem bytesOf_set (h : BytesOf k os) (hget : k.processes[p]? = some process)
    (hset : k'.processes = k.processes.set p process')
    (hother : ∀ q ≠ p, (os'.map (objectBytes q)).sum = (os.map (objectBytes q)).sum)
    (hown : process'.expired = false → process'.memoryUsed = heldBytes os' p process') :
    BytesOf k' os' := by
  have hlt : p < k.processes.length := (List.getElem?_eq_some_iff.mp hget).1
  intro q other hq hlive
  rw [hset, List.getElem?_set] at hq
  split at hq
  next heq =>
    subst heq
    obtain rfl := Option.some.inj hq
    exact hown hlive
  next hne =>
    rw [h q other hq hlive, heldBytes, heldBytes, hother q (Ne.symm hne)]

theorem shares_set (regions : MemoryRegion → MemoryRegionInfo S) {ps : List (Process S)}
    (h : ps[p]? = some process) (process' : Process S) (os : List (KernelObject S)) (x : ℕ) :
    shares regions (ps.set p process') os x + processShare x process =
      shares regions ps os x + processShare x process' := by
  have := sum_map_set (processShare x) h process'
  simp only [shares]
  omega

omit [IntervalSet S] in
theorem mem_set_cases {ps : List (Process S)} {q : Process S} (h : q ∈ ps.set p process') :
    q ∈ ps ∨ q = process' := List.mem_or_eq_of_mem_set h

end Processes

/-! ## FCRAM -/

section Memory

variable {k k' : KernelSystem S} {os : List (KernelObject S)} {p : ℕ} {process : Process S}

/-- How often the byte at `x` is free. -/
def freeShare (regions : MemoryRegion → MemoryRegionInfo S) (x : ℕ) : ℕ :=
  share x (regions .application).freeBlocks + share x (regions .system).freeBlocks +
    share x (regions .base).freeBlocks

theorem shares_eq (regions : MemoryRegion → MemoryRegionInfo S) (ps : List (Process S)) (x : ℕ) :
    shares regions ps os x = freeShare regions x + (ps.map (processShare x)).sum +
      (os.map (objectShare x)).sum := rfl

theorem freeShare_update (regions : MemoryRegion → MemoryRegionInfo S) (region : MemoryRegion)
    (r : MemoryRegionInfo S) (x : ℕ) :
    freeShare (Function.update regions region r) x + share x (regions region).freeBlocks =
      freeShare regions x + share x r.freeBlocks := by
  cases region <;> simp [freeShare, Function.update] <;> omega

theorem share_le_freeShare (regions : MemoryRegion → MemoryRegionInfo S) (region : MemoryRegion)
    (x : ℕ) : share x (regions region).freeBlocks ≤ freeShare regions x := by
  cases region <;> simp only [freeShare] <;> omega

/-- How often `x` is in an interval. -/
def inRange (x lo hi : ℕ) : ℕ := if lo ≤ x ∧ x < hi then 1 else 0

theorem share_eq_one {x : ℕ} {s : S} : share x s = 1 ↔ x ∈ toSet s := by
  unfold share
  split <;> simp_all

theorem share_eq_zero {x : ℕ} {s : S} : share x s = 0 ↔ x ∉ toSet s := by
  unfold share
  split <;> simp_all

variable [LawfulIntervalSet S]

open LawfulIntervalSet

theorem share_empty (x : ℕ) : share x (empty : S) = 0 := by
  rw [share_eq_zero, toSet_empty]
  exact Set.notMem_empty x

theorem share_add_le (x lo hi : ℕ) (s : S) : share x (add s (lo, hi)) ≤ share x s + inRange x lo hi := by
  simp only [share, inRange, toSet_add, Set.mem_union, Set.mem_Ico]
  split_ifs <;> first | omega | tauto

/-- The bytes of a set that lies in FCRAM, counted one by one. -/
theorem total_eq_sum {s : S} {n : ℕ} (h : ∀ x, n ≤ x → share x s = 0) :
    total s = ∑ x ∈ Finset.range n, share x s := by
  have hset : toSet s = ↑((Finset.range n).filter fun x => x ∈ toSet s) := by
    ext x
    simp only [Finset.coe_filter, Finset.mem_range, Set.mem_ofPred_eq]
    refine ⟨fun hx => ⟨?_, hx⟩, fun hx => hx.2⟩
    by_contra hge
    exact share_eq_zero.mp (h x (by omega)) hx
  rw [total_eq_ncard, hset, Set.ncard_coe_finset, Finset.card_filter]
  rfl

/-- What an object holds lies in FCRAM. -/
theorem objectBytes_le {n : ℕ} (o : KernelObject S) (h : ∀ x, n ≤ x → objectShare x o = 0) :
    objectBytes p o ≤ ∑ x ∈ Finset.range n, objectShare x o := by
  cases o with
  | sharedMemory m =>
      simp only [objectBytes]
      split
      · exact (total_eq_sum h).le
      · exact Nat.zero_le _
  | _ => exact Nat.zero_le _

theorem sum_objectBytes_le {n : ℕ} (h : ∀ x, n ≤ x → (os.map (objectShare x)).sum = 0) :
    (os.map (objectBytes p)).sum ≤ ∑ x ∈ Finset.range n, (os.map (objectShare x)).sum := by
  induction os with
  | nil => simp
  | cons o os ih =>
      simp only [List.map_cons, List.sum_cons, Nat.add_eq_zero_iff] at h ⊢
      rw [Finset.sum_add_distrib]
      exact Nat.add_le_add (objectBytes_le o fun x hx => (h x hx).1) (ih fun x hx => (h x hx).2)

/-- A process never holds more than there is. -/
theorem heldBytes_le (ha : ApartOf k os) (hget : k.processes[p]? = some process) :
    heldBytes os p process ≤ Memory.FCRAM_N3DS_SIZE := by
  have hmem : ∀ x, processShare x process ≤ (k.processes.map (processShare x)).sum := by
    intro x
    exact List.single_le_sum (by simp) _
      (List.mem_map_of_mem (List.mem_of_getElem? hget))
  have hzero : ∀ x, Memory.FCRAM_N3DS_SIZE ≤ x →
      share x process.holdingMemory = 0 ∧ share x process.holdingTlsMemory = 0 ∧
        (os.map (objectShare x)).sum = 0 := by
    intro x hx
    have h₁ := ha x
    have h₂ := hmem x
    rw [if_neg (by omega), shares_eq] at h₁
    simp only [processShare] at h₂
    omega
  have hone : ∀ x ∈ Finset.range Memory.FCRAM_N3DS_SIZE, share x process.holdingMemory +
      share x process.holdingTlsMemory + (os.map (objectShare x)).sum ≤ 1 := by
    intro x hx
    have h₁ := ha x
    have h₂ := hmem x
    rw [if_pos (Finset.mem_range.mp hx), shares_eq] at h₁
    simp only [processShare] at h₂
    omega
  calc heldBytes os p process
      ≤ (∑ x ∈ Finset.range Memory.FCRAM_N3DS_SIZE, share x process.holdingMemory) +
          (∑ x ∈ Finset.range Memory.FCRAM_N3DS_SIZE, share x process.holdingTlsMemory) +
          ∑ x ∈ Finset.range Memory.FCRAM_N3DS_SIZE, (os.map (objectShare x)).sum := by
        rw [heldBytes, total_eq_sum fun x hx => (hzero x hx).1,
          total_eq_sum fun x hx => (hzero x hx).2.1]
        exact Nat.add_le_add_left (sum_objectBytes_le fun x hx => (hzero x hx).2.2) _
    _ ≤ ∑ x ∈ Finset.range Memory.FCRAM_N3DS_SIZE, 1 := by
        rw [← Finset.sum_add_distrib, ← Finset.sum_add_distrib]
        exact Finset.sum_le_sum hone
    _ = Memory.FCRAM_N3DS_SIZE := by simp

end Memory

end Borked3DS.Analysis
