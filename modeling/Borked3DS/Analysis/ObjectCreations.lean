import Borked3DS.Analysis.ObjectEnds

/-!
# The creation of charged objects

How each of the `Create*` calls ends: the failing paths before `Reserve` change nothing, the full
handle table takes the new object back, and the failing paths after `Reserve` leave wrong books.
-/

set_option autoImplicit false

namespace Borked3DS.Analysis

open Borked3DS.Library Borked3DS.Model Borked3DS.Interface IntervalSet LawfulIntervalSet VMAMap

variable {S : Type} [IntervalSet S]

/-! ## Creation -/

section Creation

variable [LawfulIntervalSet S]

variable {k k' : KernelSystem S} {os : List (KernelObject S)} {o o' : KernelObject S} {p id : ℕ}
  {process : Process S}

omit [IntervalSet S] [LawfulIntervalSet S] in
theorem GoesInTime.keeps (h : GoesInTime k o) (hp : KeepsProcesses k k') : GoesInTime k' o := by
  cases o with
  | sharedMemory m =>
      intro owner howner process' hget'
      have hsame := hp.same owner
      rw [Option.mem_def.mp hget'] at hsame
      cases hget : k.processes[owner]? with
      | none =>
          rw [hget] at hsame
          cases hsame
      | some process =>
          rw [hget] at hsame
          have := congrArg Prod.snd (Option.some.inj hsame)
          exact Eq.trans this (h owner howner process hget)
  | _ => trivial

omit [LawfulIntervalSet S] in
/-- A pending object may be another one with the same charge. -/
theorem Books.swap (h : Books k (o :: os)) (hcharge : charge k.processes o' = charge k.processes o)
    (ho : Weightless o) (ho' : Weightless o') : Books k (o' :: os) := by
  refine ⟨fun limit type htype => ?_, (bytesOf_cons ho').mpr ((bytesOf_cons ho).mp h.bytes),
    (apartOf_cons ho').mpr ((apartOf_cons ho).mp h.apart)⟩
  rw [h.counts limit type htype, countCharged_cons, countCharged_cons, hcharge]

/-- An object that was just made gets a handle, or goes again. -/
theorem giveHandle_settled (h : Settled k) {entries : List (ℕ × KernelObject S)}
    (hobj : k.objects = entries ++ [(id, o)]) (hfresh : ∀ entry ∈ entries, entry.1 < id)
    (hgo : GoesInTime k o) {kept : Bool} {res : ResultVal ℕ}
    (hc : giveHandle p id kept k = .ok (res, k')) : Settled k' := by
  obtain ⟨made, k₁, hcreate, hrest⟩ := stateT_bind_eq_ok.mp hc
  obtain ⟨hb₁, hkeeps, hobj₁, hnext₁⟩ := createHandle_books h.books hcreate
  have hlive₁ : liveObjects k₁ = liveObjects k := congrArg (List.map Prod.snd) hobj₁
  have h₁ : Settled k₁ := ⟨hlive₁ ▸ hb₁, h.rest.same hkeeps hobj₁ hnext₁⟩
  cases made with
  | ok handle =>
      obtain ⟨-, rfl⟩ := stateT_pure_eq_ok.mp hrest
      exact h₁
  | error code =>
      cases kept with
      | true =>
          obtain ⟨-, rfl⟩ := stateT_pure_eq_ok.mp hrest
          exact h₁
      | false =>
          obtain ⟨u, k₂, hgone, hrest⟩ := stateT_bind_eq_ok.mp hrest
          obtain ⟨-, rfl⟩ := stateT_pure_eq_ok.mp hrest
          obtain ⟨entry, hfind, houtcome⟩ := destroyObject_outcome h₁ hgone
          have hnone : entries.find? (fun entry => entry.1 = id) = none := by
            rw [List.find?_eq_none]
            intro entry hentry
            have := hfresh entry hentry
            simp only [decide_eq_true_eq]
            omega
          rw [hobj₁, hobj, List.find?_append, hnone] at hfind
          obtain rfl : (id, o) = entry := by simpa using hfind
          rcases houtcome with ⟨-, hsettled⟩ | ⟨hnot, -⟩
          · exact hsettled
          · exact absurd (hgo.keeps hkeeps) hnot

omit [LawfulIntervalSet S] in
/-- An object that something else keeps stays, with a handle or without one. -/
theorem giveHandle_kept (h : Settled k) {res : ResultVal ℕ}
    (hc : giveHandle p id true k = .ok (res, k')) : Settled k' := by
  obtain ⟨made, k₁, hcreate, hrest⟩ := stateT_bind_eq_ok.mp hc
  obtain ⟨hb₁, hkeeps, hobj₁, hnext₁⟩ := createHandle_books h.books hcreate
  have hlive₁ : liveObjects k₁ = liveObjects k := congrArg (List.map Prod.snd) hobj₁
  have h₁ : Settled k₁ := ⟨hlive₁ ▸ hb₁, h.rest.same hkeeps hobj₁ hnext₁⟩
  cases made with
  | ok handle =>
      obtain ⟨-, rfl⟩ := stateT_pure_eq_ok.mp hrest
      exact h₁
  | error code =>
      obtain ⟨-, rfl⟩ := stateT_pure_eq_ok.mp hrest
      exact h₁

/-- A call that reserves and creates settles when the creation succeeds. `sample` is any object of
the type. -/
theorem svcCreate_outcome (h : Settled k) (hget : k.processes[p]? = some process)
    {type : ResourceLimitType} {outOf : Result} {create : ℕ → ResultVal (KernelObject S)}
    {kept : Bool} {res : ResultVal ℕ} (htype : CountsObjects type) (sample : KernelObject S)
    (hsample : Weightless sample ∧ charge k.processes sample = some (process.resourceLimit, type))
    (hmake : ∀ o, create process.resourceLimit = .ok o → (∀ m, o ≠ .sharedMemory m) ∧
      (∀ t, o ≠ .thread t) ∧ charge k.processes o = some (process.resourceLimit, type))
    (hc : svcCreate p type outOf create kept k = .ok (res, k')) :
    Outcome (∃ o, create process.resourceLimit = .ok o) k' := by
  obtain ⟨process', k₁, hproc, hrest⟩ := stateT_bind_eq_ok.mp hc
  obtain ⟨rfl, hget'⟩ := getProcess_ok hproc
  obtain rfl : process = process' := Option.some.inj (hget.symm.trans hget')
  obtain ⟨b, k₁, hreserve, hrest⟩ := stateT_bind_eq_ok.mp hrest
  obtain ⟨rfl, hb₁, hprocs, hobj, hnext⟩ :=
    reserve_books h.books hsample.1 hsample.2 htype hreserve
  have hlive : liveObjects k₁ = liveObjects k := congrArg (List.map Prod.snd) hobj
  have hr₁ : Rest k₁ := h.rest.same (.of_eq hprocs) hobj hnext
  rw [← hlive] at hb₁
  rw [if_pos rfl] at hrest
  cases hmade : create process.resourceLimit with
  | error code =>
      rw [hmade] at hrest
      obtain ⟨-, rfl⟩ := stateT_pure_eq_ok.mp hrest
      refine .inr ⟨by simp, fun hacc => ?_⟩
      exact countsOf_cons_unique (hprocs ▸ hsample.2) htype hb₁.counts hacc.counts
  | ok o =>
      rw [hmade] at hrest
      obtain ⟨hnotMemory, hnotThread, hcharge⟩ := hmake o hmade
      have hweightless := weightless_of_not_sharedMemory hnotMemory
      have hb₂ : Books k₁ (o :: liveObjects k₁) :=
        hb₁.swap (by rw [hprocs, hcharge, hsample.2]) hsample.1 hweightless
      obtain ⟨id, k₂, hmakeObject, hrest⟩ := stateT_bind_eq_ok.mp hrest
      obtain ⟨h₂, -, hobj₂, hfresh₂⟩ := makeObject_settled hb₂ hr₁
        (fun m hm => absurd hm (hnotMemory m)) (fun t ht => absurd ht (hnotThread t)) hmakeObject
      refine .of_settled (giveHandle_settled h₂ hobj₂ hfresh₂ ?_ hrest) ⟨o, rfl⟩
      cases o with
      | sharedMemory m => exact absurd rfl (hnotMemory m)
      | _ => trivial

/-! ### Threads -/

omit [IntervalSet S] [LawfulIntervalSet S] in
/-- What the checks of `SVC::CreateThread` leave for `KernelSystem::CreateThread` to check. -/
theorem threadProcessor_ok {maxPriority : ℤ} {priority : ℕ} {processorId core : ℤ}
    (h : threadProcessor process maxPriority priority processorId = .ok core) :
    priority ≤ ThreadPrioLowest ∧ core ≤ ThreadProcessorIdMax := by
  unfold threadProcessor at h
  have hmax : (0 : ℤ) ≤ ThreadProcessorIdMax := by decide
  split at h
  next => cases h
  next hprio =>
    refine ⟨by omega, ?_⟩
    split at h
    next => cases h
    next =>
      simp only at h
      generalize (if processorId = -2 then (process.idealProcessor : ℤ) else processorId) = c at h
      split at h
      next =>
        cases h
        exact hmax
      next =>
        split at h
        next hrange =>
          cases h
          omega
        next => cases h

/-- `KernelSystem::CreateThread`, once the charge was reserved: the thread is made unless its entry
point is not mapped.
SOURCE: thread.cpp:354-404 -/
theorem createThread_outcome {t : ThreadObject} (howner : t.ownerProcess = p)
    (hb : Books k (.thread t :: liveObjects k)) (hr : Rest k)
    (hget : k.processes[p]? = some process) (hlive : process.expired = false)
    {entryPoint priority arg stackTop : ℕ} {core : ℤ} {res : ResultVal ℕ}
    (hprio : priority ≤ ThreadPrioLowest) (hcore : core ≤ ThreadProcessorIdMax)
    (hc : KernelSystem.createThread entryPoint priority arg core stackTop p k = .ok (res, k')) :
    (isValidVirtualAddress process entryPoint = true ∧ Settled k') ∨
      (isValidVirtualAddress process entryPoint = false ∧ k' = k ∧ ∃ code, res = .error code) := by
  obtain ⟨process', k₁, hproc, hrest⟩ := stateT_bind_eq_ok.mp hc
  obtain ⟨rfl, hget'⟩ := getProcess_ok hproc
  obtain rfl : process = process' := Option.some.inj (hget.symm.trans hget')
  rw [if_neg (by omega), if_neg (by omega)] at hrest
  split at hrest
  next hinvalid =>
    obtain ⟨rfl, rfl⟩ := stateT_pure_eq_ok.mp hrest
    exact .inr ⟨hinvalid, rfl, _, rfl⟩
  next hvalid =>
    refine .inl ⟨by simpa using hvalid, ?_⟩
    obtain ⟨_, _, hstate, hrest⟩ := stateT_bind_eq_ok.mp hrest
    obtain ⟨rfl, rfl⟩ := stateT_get_eq_ok.mp hstate
    split at hrest
    · exact (stateT_throw_eq_ok.mp hrest).elim
    · obtain ⟨id, k₁, hmake, hrest⟩ := stateT_bind_eq_ok.mp hrest
      have hweightless : ∀ t, Weightless (.thread t : KernelObject S) := fun t =>
        weightless_of_not_sharedMemory fun m => by simp
      obtain ⟨h₁, hprocs₁, hobj₁, hfresh₁⟩ := makeObject_settled
        (hb.swap (by simp [charge, howner]) (hweightless t) (hweightless _)) hr (by simp)
        (fun t' ht' => by cases ht'; exact ⟨process, hget, hlive⟩) hmake
      obtain ⟨tls, k₂, hstorage, hrest⟩ := stateT_bind_eq_ok.mp hrest
      obtain ⟨hb₂, hkeeps₂, hobj₂, hnext₂⟩ := allocateThreadLocalStorage_books h₁.books
        (hprocs₁ ▸ hget) hlive hstorage
      have hlive₂ : liveObjects k₂ = liveObjects k₁ := congrArg (List.map Prod.snd) hobj₂
      have h₂ : Settled k₂ := ⟨hlive₂ ▸ hb₂, h₁.rest.same hkeeps₂ hobj₂ hnext₂⟩
      cases tls with
      | error code =>
          obtain ⟨-, rfl⟩ := stateT_pure_eq_ok.mp hrest
          exact h₂
      | ok address =>
          obtain ⟨_, k₃, hmod, hrest⟩ := stateT_bind_eq_ok.mp hrest
          obtain ⟨-, rfl⟩ := stateT_pure_eq_ok.mp hrest
          have hk₃ := stateT_modify_eq_ok.mp hmod
          -- the only object of that number is the thread just made
          have hown : ∀ e ∈ k₂.objects, e.1 = id →
              ∃ t, e.2 = .thread t ∧ t.ownerProcess = p := by
            intro e he heq
            rw [hobj₂, hobj₁] at he
            rcases List.mem_append.mp he with hold | hnew
            · have := hfresh₁ e hold
              omega
            · rw [List.mem_singleton.mp hnew]
              exact ⟨_, rfl, rfl⟩
          refine ⟨?_, ?_⟩
          · refine Books.map [] h₂.books (fun e he => ?_) hk₃.symm
            split
            next heq =>
              obtain ⟨t₀, ht₀, howner₀⟩ := hown e he heq
              rw [ht₀]
              refine ⟨?_, fun _ => rfl, fun _ => rfl⟩
              simp only [charge, howner₀]
            next => exact ⟨rfl, fun _ => rfl, fun _ => rfl⟩
          · rw [← hk₃]
            refine h₂.rest.map (fun e he => ?_) (fun e he m hm => ?_) fun e he t' ht' => ?_
            · split
              next heq => exact heq.symm
              next => rfl
            · split at hm
              next => cases hm
              next => exact hm
            · split at ht'
              next heq =>
                obtain ⟨t₀, ht₀, howner₀⟩ := hown e he heq
                cases ht'
                exact ⟨t₀, ht₀, howner₀.symm⟩
              next => exact ⟨t', ht', rfl⟩

/-- `SVC::CreateThread`.
SOURCE: svc.cpp:1236-1297 -/
theorem svcCreateThread_outcome (h : Settled k) (hget : k.processes[p]? = some process)
    (hlive : process.expired = false) {entryPoint arg stackTop priority : ℕ} {processorId : ℤ}
    {res : ResultVal ℕ}
    (hc : svcCreateThread p entryPoint arg stackTop priority processorId k = .ok (res, k')) :
    Outcome ((threadProcessor process
        ((k.resourceLimits process.resourceLimit).limitValues .priority) priority
        processorId).toOption.isSome → isValidVirtualAddress process entryPoint = true) k' := by
  obtain ⟨process', k₁, hproc, hrest⟩ := stateT_bind_eq_ok.mp hc
  obtain ⟨rfl, hget'⟩ := getProcess_ok hproc
  obtain rfl : process = process' := Option.some.inj (hget.symm.trans hget')
  obtain ⟨_, _, hstate, hrest⟩ := stateT_bind_eq_ok.mp hrest
  obtain ⟨rfl, rfl⟩ := stateT_get_eq_ok.mp hstate
  cases hcore : threadProcessor process
      ((k.resourceLimits process.resourceLimit).limitValues .priority) priority processorId with
  | error code =>
      simp only [hcore, stateT_pure_eq_ok] at hrest
      obtain ⟨-, rfl⟩ := hrest
      exact .of_settled h fun hsome => by cases hsome
  | ok core =>
      simp only [hcore] at hrest
      obtain ⟨hprio, hcoreMax⟩ := threadProcessor_ok hcore
      obtain ⟨b, k₁, hreserve, hrest⟩ := stateT_bind_eq_ok.mp hrest
      let t : ThreadObject := ⟨p, 0, 0, 0, 0, 0, 0, false⟩
      have hcharge : charge k.processes (.thread t : KernelObject S) =
          some (process.resourceLimit, .thread) := by
        show Option.map _ _ = _
        rw [hget]
        rfl
      obtain ⟨rfl, hb₁, hprocs, hobj, hnext⟩ := reserve_books h.books
        (weightless_of_not_sharedMemory (o := .thread t) fun m => by simp) hcharge (by decide)
        hreserve
      have hlive₁ : liveObjects k₁ = liveObjects k := congrArg (List.map Prod.snd) hobj
      rw [← hlive₁] at hb₁
      rw [if_pos rfl] at hrest
      obtain ⟨made, k₂, hthread, hrest⟩ := stateT_bind_eq_ok.mp hrest
      rcases createThread_outcome rfl hb₁ (h.rest.same (.of_eq hprocs) hobj hnext) (hprocs ▸ hget)
        hlive hprio hcoreMax hthread with ⟨hvalid, h₂⟩ | ⟨hinvalid, hk₂, code, rfl⟩
      · refine .of_settled ?_ fun _ => hvalid
        cases made with
        | error code =>
            obtain ⟨-, rfl⟩ := stateT_pure_eq_ok.mp hrest
            exact h₂
        | ok id => exact giveHandle_kept h₂ hrest
      · obtain ⟨-, rfl⟩ := stateT_pure_eq_ok.mp hrest
        refine .inr ⟨fun hcond => ?_, fun hacc => ?_⟩
        · rw [hcond rfl] at hinvalid
          cases hinvalid
        · rw [hk₂] at hacc
          exact countsOf_cons_unique (hprocs ▸ hcharge) (by decide) hb₁.counts hacc.counts

/-! ### Shared memory blocks -/

theorem total_empty : total (empty : S) = 0 := by
  rw [total_eq_ncard, toSet_empty, Set.ncard_empty]

/-- A block that holds no memory weighs nothing. -/
theorem weightless_of_empty {m : SharedMemory S} (h : m.holdingMemory = empty) :
    Weightless (.sharedMemory m) := by
  refine ⟨fun p => ?_, fun x => ?_⟩
  · simp only [objectBytes, h, total_empty, ite_self]
  · rw [objectShare, h, share_empty]

omit [IntervalSet S] [LawfulIntervalSet S] in
theorem charge_sharedMemory {m : SharedMemory S} (howner : m.ownerProcess = some p)
    (hget : k.processes[p]? = some process) :
    charge k.processes (.sharedMemory m) = some (process.resourceLimit, .sharedMemory) := by
  show Option.map _ (Option.bind _ _) = _
  rw [howner]
  show Option.map _ (k.processes[p]?) = _
  rw [hget]
  rfl

/-- A pending block gets its memory, and its owner pays for it.
SOURCE: shared_memory.cpp:56-72 -/
theorem allocateSharedMemory_books {m m' : SharedMemory S}
    (hb : Books k (.sharedMemory m :: os)) (howner : m.ownerProcess = some p)
    (hempty : m.holdingMemory = empty) (hget : k.processes[p]? = some process)
    (hlive : process.expired = false) (hc : allocateSharedMemory m p k = .ok (m', k')) :
    Books k' (.sharedMemory m' :: os) ∧ KeepsProcesses k k' ∧ k'.objects = k.objects ∧
      k'.nextObject = k.nextObject ∧ m'.ownerProcess = m.ownerProcess ∧ m'.size = m.size ∧
      m'.baseAddress = m.baseAddress ∧ total m'.holdingMemory = m.size := by
  obtain ⟨res, k₁, halloc, hrest⟩ := stateT_bind_eq_ok.mp hc
  rcases linearAllocate_ok hb.apart halloc with ⟨rfl, -⟩ | ⟨offset, rfl, htakes⟩
  · exact (stateT_throw_eq_ok.mp hrest).elim
  · obtain ⟨r, hk₁⟩ := htakes.regions
    simp only [fcramRef, setProcess, stateT_bind_eq_ok, stateT_get_eq_ok, stateT_lift_eq_ok,
      stateT_modify_eq_ok, stateT_pure_eq_ok] at hrest
    obtain ⟨memory, _, ⟨_, _, ⟨-, rfl⟩, _, _, ⟨rfl, rfl⟩, -, rfl⟩, process', k₂, hproc, _, k₃, hk', hm',
      hk₃⟩ := hrest
    rw [hk₃] at hk'
    obtain ⟨rfl, hget'⟩ := getProcess_ok hproc
    have hprocs₁ : k₁.processes = k.processes := by rw [hk₁]; rfl
    obtain rfl : process = process' := by
      rw [hprocs₁, hget] at hget'
      exact Option.some.inj hget'
    have hprocs : k'.processes = k.processes.set p { process with
        memoryUsed := u32 (process.memoryUsed + m.size) } := by rw [← hk', ← hprocs₁]
    have htotal : total (add m.holdingMemory (offset, offset + m.size)) = m.size := by
      rw [total_add _ _ _ (by rw [hempty, toSet_empty]; exact Set.empty_disjoint _), hempty,
        total_empty]
      omega
    have hshares : ∀ x, shares k'.memoryRegions k'.processes (.sharedMemory m' :: os) x ≤
        shares k.memoryRegions k.processes (.sharedMemory m :: os) x := by
      intro x
      have h₁ := shares_set k₁.memoryRegions hget { process with
        memoryUsed := u32 (process.memoryUsed + m.size) } os x
      have h₂ := share_add_le x offset (offset + m.size) m.holdingMemory
      have h₃ := htakes.taken x
      have h₄ : k'.memoryRegions = k₁.memoryRegions := by rw [← hk']
      rw [← hprocs] at h₁
      rw [shares_cons, shares_cons, h₄]
      simp only [processShare, shares_eq] at h₁ ⊢
      simp only [objectShare, ← hm']
      omega
    have hapart : ApartOf k' (.sharedMemory m' :: os) := fun x => (hshares x).trans (hb.apart x)
    have hget₂ : k'.processes[p]? = some { process with
        memoryUsed := u32 (process.memoryUsed + m.size) } := by
      rw [hprocs, List.getElem?_set_self (List.getElem?_eq_some_iff.mp hget).1]
    have hheld : heldBytes (.sharedMemory m' :: os) p { process with
        memoryUsed := u32 (process.memoryUsed + m.size) } =
        heldBytes (.sharedMemory m :: os) p process + m.size := by
      have h₁ : objectBytes p (.sharedMemory m') = m.size := by
        simp only [objectBytes, ← hm', howner, if_true, htotal]
      rw [heldBytes_cons, heldBytes_cons, h₁, (weightless_of_empty hempty).1]
      rfl
    have hbound := heldBytes_le hapart hget₂
    refine ⟨⟨?_, bytesOf_set hb.bytes hget hprocs (fun q hq => ?_) fun _ => ?_, hapart⟩,
      .of_set hget hprocs rfl rfl fun hs => hs, by rw [← hk', hk₁]; rfl, by rw [← hk', hk₁]; rfl,
      by rw [← hm'], by rw [← hm'], by rw [← hm'], by rw [← hm']; exact htotal⟩
    · have hcounts : CountsOf k (.sharedMemory m' :: os) := by
        intro limit type htype
        rw [hb.counts limit type htype, countCharged_cons, countCharged_cons,
          charge_sharedMemory howner hget, charge_sharedMemory (by rw [← hm']; exact howner) hget]
      refine hcounts.congr (fun limit type _ => by rw [← hk', hk₁]; rfl) ?_
      rw [hprocs]
      exact sameLimits_set hget rfl
    · have hne : ¬ (some p = some q) := fun h => hq (Option.some.inj h).symm
      simp only [List.map_cons, List.sum_cons, objectBytes, ← hm', howner, if_neg hne]
    · rw [hheld] at hbound ⊢
      rw [← hb.bytes p process hget hlive] at hbound ⊢
      exact u32_of_lt (by
        have : Memory.FCRAM_N3DS_SIZE < 2 ^ 32 := by decide
        omega)

omit [IntervalSet S] [LawfulIntervalSet S] in
/-- The condition on a memory block with an address, when it passed the checks. -/
theorem lockable_iff {addr size my other : ℕ} (hc : Consistent process.vmManager)
    (haddr : addr < 2 ^ 32) (hsize : size < 2 ^ 32)
    (hcheck : memoryBlockChecks addr size my other = .success) (hne : addr ≠ 0) (hpos : 0 < size)
    {isCached : ℕ → Bool} {newState : MemoryState} {newPerms : VMAPermission} {vm : VMManager}
    {res : Result} (hrun : process.vmManager.changeMemoryState isCached addr size .private_
      .readWrite newState newPerms = .ok (vm, res)) :
    Lockable process.vmManager.vmaMap addr size ↔ res = .success := by
  have hend : u32 (addr + size) ≤ Memory.SHARED_MEMORY_VADDR_END := by
    unfold memoryBlockChecks at hcheck
    split at hcheck
    · cases hcheck
    · split at hcheck
      · cases hcheck
      · split at hcheck
        · cases hcheck
        · split at hcheck
          · cases hcheck
          next hrange => exact not_lt.mp fun h => hrange ⟨.inr h, hne⟩
  rcases changeMemoryState_cases hc.areas hc.unlocked haddr hsize hrun with
    ⟨hres, hedited, hmeets⟩ | ⟨hres, -, hnot⟩
  · exact iff_of_true ⟨hedited.bound, hmeets⟩ hres
  · refine iff_of_false (fun hlock => ?_) hres
    have hmax : MAX_ADDRESS < 2 ^ 32 := by decide
    have hlimit : Memory.SHARED_MEMORY_VADDR_END < MAX_ADDRESS := by decide
    have hbound := hlock.1
    rw [u32_of_lt (by omega)] at hend
    exact hnot hpos (by omega) hlock.2

/-- `KernelSystem::CreateSharedMemory`, once the charge was reserved.
SOURCE: shared_memory.cpp:42-86 -/
theorem createSharedMemory_outcome (m₀ : SharedMemory S) (h₀ : m₀.ownerProcess = some p)
    (hempty₀ : m₀.holdingMemory = empty) (hb : Books k (.sharedMemory m₀ :: liveObjects k))
    (hr : Rest k) (hget : k.processes[p]? = some process) (hlive : process.expired = false)
    {addr size my other : ℕ} {region : MemoryRegion} (haddr : addr < 2 ^ 32)
    (hsize : size < 2 ^ 32) (hcheck : memoryBlockChecks addr size my other = .success)
    {res : ResultVal ℕ} (hc : KernelSystem.createSharedMemory p size my other addr region k = .ok (res, k')) :
    ((addr = 0 ∨ size = 0 ∨ Lockable process.vmManager.vmaMap addr size) ∧ Settled k' ∧
        ∀ id, res = .ok id → ∃ entries m, k'.objects = entries ++ [(id, .sharedMemory m)] ∧
          (∀ entry ∈ entries, entry.1 < id) ∧ GoesInTime k' (.sharedMemory m)) ∨
      (¬ (addr = 0 ∨ size = 0 ∨ Lockable process.vmManager.vmaMap addr size) ∧ ¬ Accounted k' ∧
        ∃ code, res = .error code) := by
  have hgoes : ∀ (k₁ : KernelSystem S) (m : SharedMemory S), KeepsProcesses k k₁ →
      m.ownerProcess = some p → GoesInTime k₁ (.sharedMemory m) := by
    intro k₁ m hkeeps hm
    refine GoesInTime.keeps (k := k) (fun owner howner process' hget' => ?_) hkeeps
    obtain rfl : p = owner := Option.some.inj (hm.symm.trans howner)
    obtain rfl : process = process' := Option.some.inj (hget.symm.trans hget')
    exact hlive
  let m₁ : SharedMemory S := ⟨some p, size, region, my, other, 0, 0, [], empty⟩
  have hb₁ : Books k (.sharedMemory m₁ :: liveObjects k) :=
    hb.swap (by rw [charge_sharedMemory h₀ hget, charge_sharedMemory rfl hget])
      (weightless_of_empty hempty₀) (weightless_of_empty rfl)
  simp only [KernelSystem.createSharedMemory] at hc
  split at hc
  next hzero =>
    obtain ⟨m, k₁, halloc, hrest⟩ := stateT_bind_eq_ok.mp hc
    obtain ⟨hb₂, hkeeps, hobj, hnext, howner, hm, hbase, htotal⟩ :=
      allocateSharedMemory_books hb₁ rfl rfl hget hlive halloc
    have hlive₁ : liveObjects k₁ = liveObjects k := congrArg (List.map Prod.snd) hobj
    rw [← hlive₁] at hb₂
    obtain ⟨id, k₂, hmake, hrest⟩ := stateT_bind_eq_ok.mp hrest
    obtain ⟨rfl, rfl⟩ := stateT_pure_eq_ok.mp hrest
    have hown : HoldsOwn m := by
      refine ⟨by rw [hm]; exact hsize, by rw [hbase]; exact Nat.two_pow_pos 32, fun _ => ?_⟩
      rw [htotal, hbase, hm]
      rfl
    obtain ⟨h₂, hprocs₂, hobj₂, hfresh₂⟩ := makeObject_settled hb₂ (hr.same hkeeps hobj hnext)
      (fun m' hm' => by cases hm'; exact hown) (fun t ht => by cases ht) hmake
    refine .inl ⟨.inl hzero, h₂, fun id' hid => ?_⟩
    obtain rfl := Except.ok.inj hid
    exact ⟨_, m, hobj₂, hfresh₂, hgoes _ m (hkeeps.trans (.of_eq hprocs₂)) howner⟩
  next hne =>
    simp only [setProcess, stateT_bind_eq_ok, stateT_get_eq_ok, stateT_lift_eq_ok,
      stateT_modify_eq_ok] at hc
    obtain ⟨process', k₁, hproc, _, _, ⟨rfl, rfl⟩, ⟨vm, result⟩, _, ⟨hchange, rfl⟩, _, k₂, hk₂, hc⟩ := hc
    obtain ⟨rfl, hget'⟩ := getProcess_ok hproc
    obtain rfl : process = process' := Option.some.inj (hget.symm.trans hget')
    have hconsistent := hr.spaces process (List.mem_of_getElem? hget)
    have hkeeps : KeepsProcesses k k₂ :=
      .of_set hget (congrArg KernelSystem.processes hk₂.symm) rfl rfl
      fun hs => changeMemoryState_consistent hs haddr hsize hchange
    have hb₂ : Books k₂ (.sharedMemory m₁ :: liveObjects k₂) := by
      have := hb₁.of_set hget hk₂.symm rfl rfl rfl rfl rfl
      rw [← hk₂] at this ⊢
      exact this
    have hr₂ : Rest k₂ := hr.same hkeeps (by rw [← hk₂]) (by rw [← hk₂])
    have hget₂ : k₂.processes[p]? = some { process with vmManager := vm } := by
      rw [← hk₂]
      exact List.getElem?_set_self (List.getElem?_eq_some_iff.mp hget).1
    have hlock : 0 < size → (Lockable process.vmManager.vmaMap addr size ↔ result = .success) :=
      fun hpos => lockable_iff hconsistent haddr hsize hcheck hne hpos hchange
    split at hc
    next hfailed =>
      obtain ⟨_, k₃, hdestroy, hrest⟩ := stateT_bind_eq_ok.mp hc
      obtain ⟨rfl, rfl⟩ := stateT_pure_eq_ok.mp hrest
      obtain ⟨hcounts, hapart, hkeeps₃, hobj₃, hnext₃, hbytes⟩ := sharedMemoryDestructor_alive
        hb₂.counts hb₂.bytes hb₂.apart (m := m₁) rfl hget₂ hlive hsize (Nat.two_pow_pos 32) hdestroy
      have hlive₃ : liveObjects k₃ = liveObjects k₂ := congrArg (List.map Prod.snd) hobj₃
      have hbound : process.memoryUsed < 2 ^ 32 := by
        have hle := heldBytes_le hb₂.apart hget₂
        have hheld := hb₂.bytes p _ hget₂ hlive
        have : Memory.FCRAM_N3DS_SIZE < 2 ^ 32 := by decide
        simp only at hheld
        omega
      have hsettles : BytesOf k₃ (liveObjects k₂) ↔ u32Sub process.memoryUsed size = process.memoryUsed := by
        rw [hbytes]
        show u32Sub process.memoryUsed (if (0 : ℕ) = 0 then size else 0) + total (empty : S) = _ ↔ _
        rw [if_pos rfl, total_empty, Nat.add_zero]
      rcases Nat.eq_zero_or_pos size with hzero | hpos
      · refine .inl ⟨.inr (.inl hzero), ⟨⟨hlive₃ ▸ hcounts, ?_, hlive₃ ▸ hapart⟩,
          hr₂.same hkeeps₃ hobj₃ hnext₃⟩, fun id hid => by cases hid⟩
        rw [hlive₃, hsettles, hzero, u32Sub_of_le (Nat.zero_le _) hbound, Nat.sub_zero]
      · refine .inr ⟨?_, fun hacc => ?_, _, rfl⟩
        · rintro (h | h | h)
          · exact hne h
          · omega
          · exact hfailed ((hlock hpos).mp h)
        · have hb₃ := hacc.bytes
          rw [show (∀ p process, _) = BytesOf k₃ (liveObjects k₃) from rfl, hlive₃, hsettles] at hb₃
          unfold u32Sub u32 at hb₃
          omega
    next hsuccess =>
      obtain ⟨blocks, k₃, hblocks, hrest⟩ := stateT_bind_eq_ok.mp hc
      obtain ⟨id, k₄, hmake, hrest⟩ := stateT_bind_eq_ok.mp hrest
      obtain ⟨rfl, rfl⟩ := stateT_pure_eq_ok.mp hrest
      have hk₃ : k₂ = k₃ := by
        simp only [backingBlocks, stateT_bind_eq_ok, stateT_lift_eq_ok] at hblocks
        obtain ⟨found, _, ⟨-, rfl⟩, hblocks⟩ := hblocks
        cases found with
        | ok found => exact (stateT_pure_eq_ok.mp hblocks).2
        | error code => exact (stateT_throw_eq_ok.mp hblocks).elim
      subst hk₃
      let m₂ : SharedMemory S := ⟨some p, size, region, my, other, addr, 0, blocks, empty⟩
      have hb₃ : Books k₂ (.sharedMemory m₂ :: liveObjects k₂) :=
        hb₂.swap (by rw [charge_sharedMemory rfl hget₂, charge_sharedMemory rfl hget₂])
          (weightless_of_empty rfl) (weightless_of_empty rfl)
      have hown : HoldsOwn m₂ := by
        refine ⟨hsize, haddr, fun _ => ?_⟩
        show total (empty : S) = if addr = 0 then size else 0
        rw [if_neg hne, total_empty]
      obtain ⟨h₄, hprocs₄, hobj₄, hfresh₄⟩ := makeObject_settled hb₃ hr₂
        (fun m' hm' => by cases hm'; exact hown) (fun t ht => by cases ht) hmake
      refine .inl ⟨?_, h₄, fun id' hid => ?_⟩
      · rcases Nat.eq_zero_or_pos size with hzero | hpos
        · exact .inr (.inl hzero)
        · exact .inr (.inr ((hlock hpos).mpr (not_not.mp hsuccess)))
      · obtain rfl := Except.ok.inj hid
        exact ⟨_, m₂, hobj₄, hfresh₄, hgoes _ m₂ (hkeeps.trans (.of_eq hprocs₄)) rfl⟩

/-- `SVC::CreateMemoryBlock`.
SOURCE: svc.cpp:1678-1733 -/
theorem svcCreateMemoryBlock_outcome (h : Settled k) (hget : k.processes[p]? = some process)
    (hlive : process.expired = false) {addr size my other : ℕ} (haddr : addr < 2 ^ 32)
    (hsize : size < 2 ^ 32) {res : ResultVal ℕ}
    (hc : svcCreateMemoryBlock p addr size my other k = .ok (res, k')) :
    Outcome (memoryBlockChecks addr size my other = .success →
      addr = 0 ∨ size = 0 ∨ Lockable process.vmManager.vmaMap addr size) k' := by
  simp only [svcCreateMemoryBlock] at hc
  split at hc
  next hfailed =>
    obtain ⟨-, rfl⟩ := stateT_pure_eq_ok.mp hc
    exact .of_settled h fun hok => absurd hok hfailed
  next hchecked =>
    have hcheck := not_not.mp hchecked
    obtain ⟨process', k₁, hproc, hrest⟩ := stateT_bind_eq_ok.mp hc
    obtain ⟨rfl, hget'⟩ := getProcess_ok hproc
    obtain rfl : process = process' := Option.some.inj (hget.symm.trans hget')
    obtain ⟨b, k₁, hreserve, hrest⟩ := stateT_bind_eq_ok.mp hrest
    let m₀ : SharedMemory S := ⟨some p, size, .base, my, other, 0, 0, [], empty⟩
    obtain ⟨rfl, hb₁, hprocs, hobj, hnext⟩ := reserve_books h.books
      (weightless_of_empty (m := m₀) rfl) (charge_sharedMemory rfl hget) (by decide) hreserve
    have hlive₁ : liveObjects k₁ = liveObjects k := congrArg (List.map Prod.snd) hobj
    rw [← hlive₁] at hb₁
    rw [if_pos rfl] at hrest
    obtain ⟨made, k₂, hcreate, hrest⟩ := stateT_bind_eq_ok.mp hrest
    rcases createSharedMemory_outcome m₀ rfl rfl hb₁ (h.rest.same (.of_eq hprocs) hobj hnext)
      (hprocs ▸ hget) hlive haddr hsize hcheck hcreate with
      ⟨hcond, h₂, hmade⟩ | ⟨hcond, hnot, code, rfl⟩
    · refine .of_settled ?_ fun _ => hcond
      cases made with
      | error code =>
          obtain ⟨-, rfl⟩ := stateT_pure_eq_ok.mp hrest
          exact h₂
      | ok id =>
          obtain ⟨entries, m, hobj₂, hfresh₂, hgo⟩ := hmade id rfl
          exact giveHandle_settled h₂ hobj₂ hfresh₂ hgo hrest
    · obtain ⟨-, rfl⟩ := stateT_pure_eq_ok.mp hrest
      exact .inr ⟨fun hcond' => hcond (hcond' hcheck), hnot⟩

end Creation

end Borked3DS.Analysis
