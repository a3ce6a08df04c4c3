import Borked3DS.Analysis.ObjectCreations

/-!
# The books of the kernel stay right exactly when every call settles

Each call that creates or ends a charged object keeps the books right exactly when it meets its
condition (`AccountingCall.Settles`): a failing path that comes after `Reserve` leaves a count too
high, a shared memory block that is destroyed before its address was set takes off bytes that were
never added, and one that outlives its owner is never released.
-/

set_option autoImplicit false

namespace Borked3DS.Analysis

open Borked3DS.Library Borked3DS.Model Borked3DS.Interface IntervalSet LawfulIntervalSet VMAMap

variable {S : Type} [IntervalSet S]

/-! ## The end of a process -/

section ProcessEnd

variable [LawfulIntervalSet S]

variable {k k' k'' : KernelSystem S} {p : ℕ} {process : Process S}

/-- Memory of the process `p` is given back: `given` says which. -/
structure GivesBack (p : ℕ) (given : ℕ → ℕ) (k k' : KernelSystem S) : Prop where
  process : ∀ process, k.processes[p]? = some process →
    ∃ used, k'.processes = k.processes.set p { process with memoryUsed := used }
  free : ∀ x, freeShare k'.memoryRegions x ≤ freeShare k.memoryRegions x + given x
  limits : ∀ limit type, CountsObjects type → (k'.resourceLimits limit).currentValues type =
    (k.resourceLimits limit).currentValues type
  objects : k'.objects = k.objects
  nextObject : k'.nextObject = k.nextObject

omit [LawfulIntervalSet S] in
theorem GivesBack.trans {given given' : ℕ → ℕ} (h : GivesBack p given k k')
    (h' : GivesBack p given' k' k'') : GivesBack p (fun x => given x + given' x) k k'' := by
  refine ⟨fun process hget => ?_, fun x => ?_, fun limit type htype => ?_,
    h'.objects.trans h.objects, h'.nextObject.trans h.nextObject⟩
  · obtain ⟨used, hused⟩ := h.process process hget
    have hget' : k'.processes[p]? = some { process with memoryUsed := used } := by
      rw [hused, List.getElem?_set_self (List.getElem?_eq_some_iff.mp hget).1]
    obtain ⟨used', hused'⟩ := h'.process _ hget'
    exact ⟨used', by rw [hused', hused, List.set_set]⟩
  · have := h.free x
    have := h'.free x
    omega
  · rw [h'.limits limit type htype, h.limits limit type htype]

omit [LawfulIntervalSet S] in
theorem GivesBack.refl (k : KernelSystem S) : GivesBack p (fun _ => 0) k k := by
  refine ⟨fun process hget => ⟨process.memoryUsed, ?_⟩, fun x => le_rfl, fun _ _ _ => rfl, rfl, rfl⟩
  obtain ⟨hlt, heq⟩ := List.getElem?_eq_some_iff.mp hget
  rw [← heq]
  exact (List.set_getElem_self hlt).symm

/-- SOURCE: process.cpp:600-608 -/
theorem giveBack_ok {region : MemoryRegion} {entry : ℕ × ℕ} {u : Unit}
    (hc : giveBack p region entry k = .ok (u, k')) :
    GivesBack p (fun x => inRange x entry.1 (entry.1 + (entry.2 - entry.1))) k k' := by
  obtain ⟨u, k₁, hfree, hrest⟩ := stateT_bind_eq_ok.mp hc
  obtain ⟨r, rfl, hr⟩ := freeRegion_ok hfree
  obtain ⟨process, k₂, hproc, hset⟩ := stateT_bind_eq_ok.mp hrest
  obtain ⟨rfl, hget⟩ := getProcess_ok hproc
  have hk' := stateT_modify_eq_ok.mp hset
  refine ⟨fun process' hget' => ?_, fun x => ?_, fun _ _ _ => by rw [← hk']; rfl,
    by rw [← hk']; rfl, by rw [← hk']; rfl⟩
  · obtain rfl : process = process' := Option.some.inj (hget.symm.trans hget')
    exact ⟨_, (congrArg KernelSystem.processes hk').symm⟩
  · have h₁ := hr x
    rw [← hk']
    exact h₁

omit [LawfulIntervalSet S] in
/-- The loops of `FreeAllMemory`. -/
theorem giveBackLoop_ok {body : ℕ × ℕ → KernelM S Unit} {l : List (ℕ × ℕ)} {u : Unit}
    (hbody : ∀ entry k k' u, body entry k = .ok (u, k') →
      GivesBack p (fun x => inRange x entry.1 (entry.1 + (entry.2 - entry.1))) k k')
    (hc : l.forM body k = .ok (u, k')) : GivesBack p (fun x => listShare x l) k k' := by
  induction l generalizing k with
  | nil =>
      obtain ⟨-, rfl⟩ := stateT_pure_eq_ok.mp hc
      exact GivesBack.refl k
  | cons entry l ih =>
      obtain ⟨u, k₁, hfirst, hrest⟩ := stateT_bind_eq_ok.mp hc
      exact (hbody entry k k₁ u hfirst).trans (ih hrest)

/-- A process that holds nothing any more. -/
def drained (process : Process S) (used : ℕ) : Process S :=
  { process with
    memoryUsed := used
    holdingMemory := empty
    holdingTlsMemory := empty
    tlsSlots := [] }

/-- SOURCE: process.cpp:594-628 -/
theorem freeAllMemory_ok {u : Unit} (hget : k.processes[p]? = some process)
    (hc : freeAllMemory p k = .ok (u, k')) :
    ∃ k₁ used, GivesBack p (processShare · process) k k₁ ∧
      k' = { k₁ with processes := k.processes.set p (drained process used) } := by
  obtain ⟨process', k₁, hproc, hrest⟩ := stateT_bind_eq_ok.mp hc
  obtain ⟨rfl, hget'⟩ := getProcess_ok hproc
  obtain rfl : process = process' := Option.some.inj (hget.symm.trans hget')
  obtain ⟨u, k₁, hheap, hrest⟩ := stateT_bind_eq_ok.mp hrest
  obtain ⟨u, k₂, htls, hrest⟩ := stateT_bind_eq_ok.mp hrest
  obtain ⟨last, k₃, hproc₂, hset⟩ := stateT_bind_eq_ok.mp hrest
  obtain ⟨rfl, hget₂⟩ := getProcess_ok hproc₂
  have hk' := stateT_modify_eq_ok.mp hset
  have h₁ : GivesBack p (fun x => listShare x (intervals process.holdingMemory)) k k₁ := by
    refine giveBackLoop_ok (fun entry k k' u hrun => ?_) hheap
    obtain ⟨u, k₁, hgive, hrelease⟩ := stateT_bind_eq_ok.mp hrun
    have hk' := release_ok hrelease
    have hgave := giveBack_ok hgive
    refine ⟨?_, ?_, fun limit type htype => ?_, ?_, ?_⟩
    · rw [hk']
      exact hgave.process
    · rw [hk']
      exact hgave.free
    · have hne : type ≠ .commit := htype.2.1
      rw [hk', withValue_current, if_neg fun h => hne h.2]
      exact hgave.limits limit type htype
    · rw [hk']
      exact hgave.objects
    · rw [hk']
      exact hgave.nextObject
  have h₂ := giveBackLoop_ok (fun entry k k' u hrun => giveBack_ok hrun) htls
  have h₃ : GivesBack p (processShare · process) k k₂ := by
    have := h₁.trans h₂
    simp only [listShare_intervals] at this
    exact this
  obtain ⟨used, hused⟩ := h₃.process process hget
  have hlast : last = { process with memoryUsed := used } := by
    rw [hused, List.getElem?_set_self (List.getElem?_eq_some_iff.mp hget).1] at hget₂
    exact (Option.some.inj hget₂).symm
  refine ⟨k₂, used, h₃, ?_⟩
  rw [← hk', hused, List.set_set, hlast]
  rfl

/-- The end of a process without threads: what it held is free again, and its own books no longer
count.
SOURCE: process.cpp:634-645 -/
theorem destroyProcess_settled (h : Settled k) (hget : k.processes[p]? = some process)
    (hthreads : ∀ t, .thread t ∈ liveObjects k → t.ownerProcess ≠ p) {u : Unit}
    (hc : destroyProcess p k = .ok (u, k')) : Settled k' := by
  obtain ⟨process', k₁, hproc, hrest⟩ := stateT_bind_eq_ok.mp hc
  obtain ⟨rfl, hget'⟩ := getProcess_ok hproc
  obtain rfl : process = process' := Option.some.inj (hget.symm.trans hget')
  obtain ⟨u, k₁, hset, hrest⟩ := stateT_bind_eq_ok.mp hrest
  have hk₁ := stateT_modify_eq_ok.mp hset
  have hlt := (List.getElem?_eq_some_iff.mp hget).1
  have hget₁ : k₁.processes[p]? = some { process with
      handleTable := process.handleTable.clear, expired := true } := by
    rw [← hk₁]
    exact List.getElem?_set_self hlt
  obtain ⟨k₂, used, hgave, hk'⟩ := freeAllMemory_ok hget₁ hrest
  let final : Process S :=
    drained { process with handleTable := process.handleTable.clear, expired := true } used
  have hprocs : k'.processes = k.processes.set p final := by
    rw [hk', ← hk₁]
    exact List.set_set _
  have hobj : k'.objects = k.objects := by
    rw [hk']
    exact hgave.objects.trans (by rw [← hk₁])
  have hnext : k'.nextObject = k.nextObject := by
    rw [hk']
    exact hgave.nextObject.trans (by rw [← hk₁])
  have hlive : liveObjects k' = liveObjects k := congrArg (List.map Prod.snd) hobj
  have hother : ∀ q ≠ p, k'.processes[q]? = k.processes[q]? := by
    intro q hq
    rw [hprocs, List.getElem?_set_ne (Ne.symm hq)]
  refine ⟨⟨?_, ?_, fun x => ?_⟩, ?_, ?_, ?_, ?_⟩
  · rw [hlive]
    refine h.books.counts.congr (fun limit type htype => ?_) ?_
    · rw [hk']
      exact (hgave.limits limit type htype).trans (by rw [← hk₁])
    · rw [hprocs]
      exact sameLimits_set hget rfl
  · rw [hlive]
    refine bytesOf_set h.books.bytes hget hprocs (fun _ _ => rfl) fun hexp => ?_
    exact absurd hexp (by simp [final, drained])
  · have h₁ := shares_set k'.memoryRegions hget final (liveObjects k) x
    have h₂ : freeShare k'.memoryRegions x ≤ freeShare k.memoryRegions x + processShare x process := by
      have := hgave.free x
      rw [hk']
      rw [← hk₁] at this
      exact this
    have h₃ : processShare x final = 0 := by
      show share x (empty : S) + share x (empty : S) = 0
      rw [share_empty]
    have h₄ := h.books.apart x
    rw [hlive, hprocs]
    simp only [shares_eq] at h₁ h₄ ⊢
    omega
  · rw [hlive]
    exact h.rest.holdsOwn
  · intro t ht
    rw [hlive] at ht
    rw [hother _ (hthreads t ht)]
    exact h.rest.threads t ht
  · intro q hq
    rw [hprocs] at hq
    rcases mem_set_cases hq with hold | rfl
    · exact h.rest.spaces q hold
    · exact h.rest.spaces process (List.mem_of_getElem? hget)
  · rw [hobj, hnext]
    exact h.rest.fresh

end ProcessEnd

/-! ## Runs -/

section Runs

variable [LawfulIntervalSet S]

variable {k k' : KernelSystem S} {p : ℕ}

omit [IntervalSet S] [LawfulIntervalSet S] in
theorem calledBy_ok {α : Type} {call : KernelM S α} {u : Unit}
    (h : calledBy p call k = .ok (u, k')) :
    ∃ process a, k.processes[p]? = some process ∧ process.expired = false ∧
      call k = .ok (a, k') := by
  obtain ⟨process, k₁, hproc, hrest⟩ := stateT_bind_eq_ok.mp h
  obtain ⟨rfl, hget⟩ := getProcess_ok hproc
  cases hexp : process.expired with
  | true =>
      rw [if_pos hexp] at hrest
      exact (stateT_throw_eq_ok.mp hrest).elim
  | false =>
      rw [if_neg (by simp [hexp])] at hrest
      obtain ⟨a, k₁, hcall, hrest⟩ := stateT_bind_eq_ok.mp hrest
      obtain ⟨-, rfl⟩ := stateT_pure_eq_ok.mp hrest
      exact ⟨process, a, hget, hexp, hcall⟩

omit [LawfulIntervalSet S] in
theorem Outcome.of_iff {condition condition' : Prop} (h : Outcome condition k)
    (hiff : condition' ↔ condition) : Outcome condition' k := by
  rcases h with ⟨hc, hs⟩ | ⟨hc, hs⟩
  · exact .inl ⟨hiff.mpr hc, hs⟩
  · exact .inr ⟨fun hc' => hc (hiff.mp hc'), hs⟩

omit [IntervalSet S] [LawfulIntervalSet S] in
/-- What is asked of the calling process is asked of the one there is. -/
theorem forall_process_iff {process : Process S} {condition : Process S → Prop}
    (hget : k.processes[p]? = some process) :
    (∀ process ∈ k.processes[p]?, condition process) ↔ condition process := by
  rw [hget]
  simp

/-- One call. -/
theorem accountingStep_outcome {call : AccountingCall} (h : Settled k)
    (hc : accountingStep k call = .ok k') : Outcome (call.Settles k) k' := by
  obtain ⟨⟨u, k₁⟩, hrun, heq⟩ := bind_eq_ok.mp hc
  obtain rfl := Except.ok.inj heq
  cases call with
  | createThread p entryPoint arg stackTop priority processorId =>
      obtain ⟨process, a, hget, hlive, hcall⟩ := calledBy_ok hrun
      exact (svcCreateThread_outcome h hget hlive hcall).of_iff (forall_process_iff hget)
  | createMutex p currentThread initialLocked =>
      obtain ⟨process, a, hget, hlive, hcall⟩ := calledBy_ok hrun
      refine (svcCreate_outcome h hget (by decide) (.mutex process.resourceLimit none)
        ⟨weightless_of_not_sharedMemory (by simp), rfl⟩ (fun o ho => ?_) hcall).of_iff ?_
      · cases ho
        exact ⟨by simp, by simp, rfl⟩
      · exact iff_of_true trivial ⟨_, rfl⟩
  | createSemaphore p initialCount maxCount =>
      obtain ⟨process, a, hget, hlive, hcall⟩ := calledBy_ok hrun
      refine (svcCreate_outcome h hget (by decide) (.semaphore process.resourceLimit 0 0)
        ⟨weightless_of_not_sharedMemory (by simp), rfl⟩ (fun o ho => ?_) hcall).of_iff ?_
      · unfold KernelSystem.createSemaphore at ho
        split at ho
        · cases ho
          exact ⟨by simp, by simp, rfl⟩
        · cases ho
      · show initialCount.toInt ≤ maxCount.toInt ↔ _
        unfold KernelSystem.createSemaphore
        split
        next hle => exact iff_of_true hle ⟨_, rfl⟩
        next hnot => exact iff_of_false hnot fun hex => by cases hex.choose_spec
  | createEvent p resetType =>
      obtain ⟨process, a, hget, hlive, hcall⟩ := calledBy_ok hrun
      refine (svcCreate_outcome h hget (by decide) (.event process.resourceLimit 0)
        ⟨weightless_of_not_sharedMemory (by simp), rfl⟩ (fun o ho => ?_) hcall).of_iff ?_
      · cases ho
        exact ⟨by simp, by simp, rfl⟩
      · exact iff_of_true trivial ⟨_, rfl⟩
  | createTimer p resetType =>
      obtain ⟨process, a, hget, hlive, hcall⟩ := calledBy_ok hrun
      refine (svcCreate_outcome h hget (by decide) (.timer process.resourceLimit 0)
        ⟨weightless_of_not_sharedMemory (by simp), rfl⟩ (fun o ho => ?_) hcall).of_iff ?_
      · cases ho
        exact ⟨by simp, by simp, rfl⟩
      · exact iff_of_true trivial ⟨_, rfl⟩
  | createAddressArbiter p =>
      obtain ⟨process, a, hget, hlive, hcall⟩ := calledBy_ok hrun
      refine (svcCreate_outcome h hget (by decide) (.addressArbiter process.resourceLimit)
        ⟨weightless_of_not_sharedMemory (by simp), rfl⟩ (fun o ho => ?_) hcall).of_iff ?_
      · cases ho
        exact ⟨by simp, by simp, rfl⟩
      · exact iff_of_true trivial ⟨_, rfl⟩
  | createMemoryBlock p addr size myPermission otherPermission =>
      obtain ⟨process, a, hget, hlive, hcall⟩ := calledBy_ok hrun
      exact (svcCreateMemoryBlock_outcome h hget hlive addr.toNat_lt size.toNat_lt hcall).of_iff
        (forall_process_iff hget)
  | destroyObject id =>
      obtain ⟨entry, hfind, houtcome⟩ := destroyObject_outcome h hrun
      refine houtcome.of_iff ?_
      show (∀ entry ∈ k.objects.find? _, _) ↔ _
      rw [hfind]
      simp only [Option.mem_def, Option.some.injEq, forall_eq']
      obtain ⟨i, o⟩ := entry
      cases o <;> exact Iff.rfl
  | destroyProcess p =>
      obtain ⟨_, _, hstate, hrest⟩ := stateT_bind_eq_ok.mp hrun
      obtain ⟨rfl, rfl⟩ := stateT_get_eq_ok.mp hstate
      split at hrest
      · exact (stateT_throw_eq_ok.mp hrest).elim
      next hnone =>
        obtain ⟨process, a, hget, hlive, hcall⟩ := calledBy_ok hrest
        refine .of_settled (destroyProcess_settled h hget (fun t ht hp => ?_) hcall) trivial
        obtain ⟨id, he⟩ := mem_liveObjects.mp ht
        exact hnone (List.any_eq_true.mpr ⟨_, he, by simp [isThreadOf, hp]⟩)

omit [LawfulIntervalSet S] in
theorem settled_of_started (h : Started k) : Settled k := by
  refine ⟨⟨h.accounted.counts, h.accounted.bytes, h.apart⟩, h.holdsOwn, h.threads,
    fun process hmem => ?_, h.fresh⟩
  obtain ⟨m, s₀, hreset, hreach⟩ := h.spaces process hmem
  exact consistent_invariant hreset hreach

/-- The books of the kernel are right in every state of a run exactly when every call of the run
settles. -/
theorem resources_accounted_iff (S : Type) [IntervalSet S] [LawfulIntervalSet S]
    (k : KernelSystem S) (h : Started k) (calls : List AccountingCall) :
    AllAlong accountingStep Accounted k calls ↔
      EachStep accountingStep (fun k call => call.Settles k) k calls := by
  refine allAlong_iff_eachStep (q := Settled) (fun s call t hs _ hc hacc => ?_)
    (fun s call t hs _ hc => ?_) (settled_of_started h) h.accounted calls
  · rcases accountingStep_outcome hs hc with ⟨-, ht⟩ | ⟨-, hnot⟩
    · exact ht
    · exact absurd hacc hnot
  · rcases accountingStep_outcome hs hc with ⟨hcond, ht⟩ | ⟨hcond, hnot⟩
    · exact iff_of_true ht.accounted hcond
    · exact iff_of_false hnot hcond

end Runs

/-! ## A kernel with one process -/

section Bare

variable {pt : PageTable}

/-- One process with an empty address space, no memory and no objects. -/
def bareKernel (pt : PageTable) : KernelSystem IntervalList where
  memoryRegions := fun _ => { base := 0, size := 0, used := 0, freeBlocks := empty }
  fcram := ⟨0x10000, 0x10000000⟩
  isCached := fun _ => false
  numCores := 2
  resourceLimits := fun _ => ⟨fun _ => 0, fun _ => 0⟩
  processes := [{
    resourceLimit := 0
    memoryRegion := .base
    vmManager := ⟨[(0, VMManager.initialVma)], pt, false⟩
    memoryUsed := 0
    holdingMemory := empty
    holdingTlsMemory := empty }]
  objects := []
  nextObject := 0

theorem bareKernel_started (hpt : VMManager.reset (fun _ => false) ⟨[], .clear, false⟩ =
    .ok ⟨[(0, VMManager.initialVma)], pt, false⟩) : Started (bareKernel pt) := by
  refine ⟨⟨fun _ _ _ => rfl, fun p process hget _ => ?_⟩, fun x => ?_, by simp [bareKernel, liveObjects],
    by simp [bareKernel, liveObjects], fun process hmem => ?_, by simp [bareKernel]⟩
  · obtain ⟨hlt, rfl⟩ := List.getElem?_eq_some_iff.mp hget
    obtain rfl : p = 0 := Nat.lt_one_iff.mp hlt
    rfl
  · have hshare : shares (bareKernel pt).memoryRegions (bareKernel pt).processes
        (liveObjects (bareKernel pt)) x = 0 := by
      simp [shares, bareKernel, liveObjects, processShare, share_empty]
    rw [hshare]
    exact Nat.zero_le _
  · obtain rfl := List.mem_singleton.mp hmem
    exact ⟨_, _, hpt, Reachable.refl _⟩

/-- The equivalence for a run that creates a mutex and destroys it. -/
theorem resources_accounted_iff_mutex : ∃ k : KernelSystem IntervalList, Started k ∧
    (AllAlong accountingStep Accounted k [.createMutex 0 0 0, .destroyObject 0] ↔
      EachStep accountingStep (fun k call => call.Settles k) k
        [.createMutex 0 0 0, .destroyObject 0]) := by
  obtain ⟨pt, hpt⟩ := reset_exists (fun _ => false) ⟨[], .clear, false⟩ rfl
  have h := bareKernel_started hpt
  exact ⟨_, h, resources_accounted_iff IntervalList _ h _⟩

/-- A semaphore that begins with more slots than it may have is refused, and stays counted; a
memory block of unmapped memory is refused, and its size is taken off the bytes of the process. -/
theorem resources_miscounted : ∃ k k₁ k₂ : KernelSystem IntervalList, Started k ∧
    run accountingStep k [.createSemaphore 0 2 1] = .ok k₁ ∧ ¬ Accounted k₁ ∧
    run accountingStep k [.createMemoryBlock 0 0x08000000 0x1000 3 3] = .ok k₂ ∧
      ¬ Accounted k₂ := by
  obtain ⟨pt, hpt⟩ := reset_exists (fun _ => false) ⟨[], .clear, false⟩ rfl
  have hsemaphore : (run accountingStep (bareKernel pt) [.createSemaphore 0 2 1]).toOption.map
      (fun k => ((k.resourceLimits 0).currentValues .semaphore, k.objects.length)) =
        some (1, 0) := rfl
  have hblock : (run accountingStep (bareKernel pt)
      [.createMemoryBlock 0 0x08000000 0x1000 3 3]).toOption.map
        (fun k => (k.processes.map (fun q => (q.memoryUsed, q.expired,
          intervals q.holdingMemory, intervals q.holdingTlsMemory)), k.objects.length)) =
        some ([(u32Sub 0 0x1000, false, [], [])], 0) := rfl
  obtain ⟨k₁, hk₁, hcount⟩ := Option.map_eq_some_iff.mp hsemaphore
  obtain ⟨k₂, hk₂, hused⟩ := Option.map_eq_some_iff.mp hblock
  refine ⟨bareKernel pt, k₁, k₂, bareKernel_started hpt, eq_ok_of_toOption hk₁, fun hacc => ?_,
    eq_ok_of_toOption hk₂, fun hacc => ?_⟩
  · obtain ⟨hvalue, hnone⟩ := Prod.mk.inj hcount
    have hcounts := hacc.counts 0 .semaphore (by decide)
    rw [hvalue, liveObjects, List.length_eq_zero_iff.mp hnone] at hcounts
    simp [countCharged] at hcounts
  · obtain ⟨hprocs, hnone⟩ := Prod.mk.inj hused
    obtain ⟨q, rest, hlist, hq, -⟩ := List.map_eq_cons_iff.mp hprocs
    simp only [Prod.mk.injEq] at hq
    have hbytes := hacc.bytes 0 q (by rw [hlist]; rfl) hq.2.1
    rw [hq.1, heldBytes, liveObjects, List.length_eq_zero_iff.mp hnone, total, hq.2.2.1, total,
      hq.2.2.2] at hbytes
    exact absurd hbytes (by decide)

end Bare

end Borked3DS.Analysis
