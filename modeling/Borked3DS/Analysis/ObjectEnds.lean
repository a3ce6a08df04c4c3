import Borked3DS.Analysis.ResourceCalls

/-!
# The ends of charged objects

What is known of the kernel between two calls (`Settled`), how a call can end (`Outcome`), and
what the destructors and `Thread::Stop` do to the books: all of them settle, but for a shared
memory block whose owner is gone.
-/

set_option autoImplicit false

namespace Borked3DS.Analysis

open Borked3DS.Library Borked3DS.Model Borked3DS.Interface IntervalSet LawfulIntervalSet VMAMap

variable {S : Type} [IntervalSet S]

/-- What is known of a kernel apart from its books. -/
structure Rest (k : KernelSystem S) : Prop where
  holdsOwn : ∀ m, .sharedMemory m ∈ liveObjects k → HoldsOwn m
  threads : ∀ t, .thread t ∈ liveObjects k →
    ∃ process, k.processes[t.ownerProcess]? = some process ∧ process.expired = false
  spaces : ∀ process ∈ k.processes, Consistent process.vmManager
  fresh : ∀ entry ∈ k.objects, entry.1 < k.nextObject

/-- Between two calls whose books were right. -/
structure Settled (k : KernelSystem S) : Prop where
  books : Books k (liveObjects k)
  rest : Rest k

/-- How a call ends: settled when it met its condition, and with wrong books when it did not. -/
def Outcome (condition : Prop) (k : KernelSystem S) : Prop :=
  (condition ∧ Settled k) ∨ (¬ condition ∧ ¬ Accounted k)

theorem Settled.accounted {k : KernelSystem S} (h : Settled k) : Accounted k :=
  accounted_iff.mpr ⟨h.books.counts, h.books.bytes⟩

theorem Outcome.of_settled {k : KernelSystem S} {condition : Prop} (h : Settled k)
    (hc : condition) : Outcome condition k := .inl ⟨hc, h⟩

section Rest

variable {k k' : KernelSystem S} {o : KernelObject S}

omit [IntervalSet S] in
theorem mem_liveObjects {o : KernelObject S} : o ∈ liveObjects k ↔ ∃ id, (id, o) ∈ k.objects := by
  simp [liveObjects]

/-- What is known survives when the processes are kept and no object is added. -/
theorem Rest.frame (h : Rest k) (hp : KeepsProcesses k k') (hobj : ∀ e ∈ k'.objects, e ∈ k.objects)
    (hnext : k.nextObject ≤ k'.nextObject) : Rest k' := by
  have hlive : ∀ o, o ∈ liveObjects k' → o ∈ liveObjects k := by
    intro o ho
    obtain ⟨id, he⟩ := mem_liveObjects.mp ho
    exact mem_liveObjects.mpr ⟨id, hobj _ he⟩
  refine ⟨fun m hm => h.holdsOwn m (hlive _ hm), fun t ht => ?_, hp.spaces h.spaces,
    fun e he => (h.fresh e (hobj e he)).trans_le hnext⟩
  obtain ⟨process, hget, hexp⟩ := h.threads t (hlive _ ht)
  exact hp.live hget hexp

theorem Rest.same (h : Rest k) (hp : KeepsProcesses k k') (hobj : k'.objects = k.objects)
    (hnext : k'.nextObject = k.nextObject) : Rest k' :=
  h.frame hp (by rw [hobj]; exact fun e he => he) hnext.ge

/-- What is known survives when each object is overwritten by one that is as well known. -/
theorem Rest.map (h : Rest k) {f : ℕ × KernelObject S → ℕ × KernelObject S}
    (hid : ∀ e ∈ k.objects, (f e).1 = e.1)
    (hm : ∀ e ∈ k.objects, ∀ m, (f e).2 = .sharedMemory m → e.2 = .sharedMemory m)
    (ht : ∀ e ∈ k.objects, ∀ t, (f e).2 = .thread t →
      ∃ t₀, e.2 = .thread t₀ ∧ t.ownerProcess = t₀.ownerProcess) :
    Rest { k with objects := k.objects.map f } := by
  refine ⟨fun m hmem => ?_, fun t hmem => ?_, h.spaces, fun e he => ?_⟩
  · obtain ⟨id, he⟩ := mem_liveObjects.mp hmem
    obtain ⟨e, he, heq⟩ := List.mem_map.mp he
    have hsame := hm e he m (congrArg Prod.snd heq)
    exact h.holdsOwn m (mem_liveObjects.mpr ⟨e.1, hsame ▸ he⟩)
  · obtain ⟨id, he⟩ := mem_liveObjects.mp hmem
    obtain ⟨e, he, heq⟩ := List.mem_map.mp he
    obtain ⟨t₀, hsame, howner⟩ := ht e he t (congrArg Prod.snd heq)
    rw [howner]
    exact h.threads t₀ (mem_liveObjects.mpr ⟨e.1, hsame ▸ he⟩)
  · obtain ⟨e₀, he₀, rfl⟩ := List.mem_map.mp he
    show (f e₀).1 < k.nextObject
    rw [hid e₀ he₀]
    exact h.fresh e₀ he₀

/-- Making an object that was pending. -/
theorem makeObject_settled {id : ℕ} (hb : Books k (o :: liveObjects k)) (hr : Rest k)
    (hm : ∀ m, o = .sharedMemory m → HoldsOwn m)
    (ht : ∀ t, o = .thread t →
      ∃ process, k.processes[t.ownerProcess]? = some process ∧ process.expired = false)
    (hc : makeObject o k = .ok (id, k')) :
    Settled k' ∧ k'.processes = k.processes ∧ k'.objects = k.objects ++ [(id, o)] ∧
      ∀ entry ∈ k.objects, entry.1 < id := by
  obtain ⟨rfl, rfl⟩ := makeObject_ok hc
  refine ⟨⟨?_, ?_, ?_, hr.spaces, ?_⟩, rfl, rfl, hr.fresh⟩
  · have hperm : (o :: liveObjects k).Perm
        ((k.objects ++ [(k.nextObject, o)]).map Prod.snd) := by
      rw [List.map_append]
      exact (List.perm_append_singleton o (liveObjects k)).symm
    exact ⟨hb.counts.perm hperm, hb.bytes.perm hperm, hb.apart.perm hperm⟩
  · intro m hmem
    obtain ⟨id, he⟩ := mem_liveObjects.mp hmem
    rcases List.mem_append.mp he with hold | hnew
    · exact hr.holdsOwn m (mem_liveObjects.mpr ⟨id, hold⟩)
    · exact hm m (congrArg Prod.snd (List.mem_singleton.mp hnew)).symm
  · intro t hmem
    obtain ⟨id, he⟩ := mem_liveObjects.mp hmem
    rcases List.mem_append.mp he with hold | hnew
    · exact hr.threads t (mem_liveObjects.mpr ⟨id, hold⟩)
    · exact ht t (congrArg Prod.snd (List.mem_singleton.mp hnew)).symm
  · intro e he
    rcases List.mem_append.mp he with hold | hnew
    · exact Nat.lt_succ_of_lt (hr.fresh e hold)
    · rw [List.mem_singleton.mp hnew]
      exact Nat.lt_succ_self _

end Rest

/-! ## Destruction -/

section Destruction

variable [LawfulIntervalSet S]

variable {k k' : KernelSystem S} {o : KernelObject S} {id : ℕ}

/-- The condition on the end of an object. -/
def GoesInTime (k : KernelSystem S) : KernelObject S → Prop
  | .sharedMemory m => ∀ owner ∈ m.ownerProcess, ∀ process ∈ k.processes[owner]?,
      process.expired = false
  | _ => True

omit [LawfulIntervalSet S] in
/-- A mutex that loses its holder is charged as it was. -/
theorem releasedBy_same (ps : List (Process S)) (e : ℕ × KernelObject S) :
    (releasedBy id e).1 = e.1 ∧ charge ps (releasedBy id e).2 = charge ps e.2 ∧
      (∀ p, objectBytes p (releasedBy id e).2 = objectBytes p e.2) ∧
      ∀ x, objectShare x (releasedBy id e).2 = objectShare x e.2 := by
  obtain ⟨i, o⟩ := e
  cases o <;> exact ⟨rfl, rfl, fun _ => rfl, fun _ => rfl⟩

omit [IntervalSet S] [LawfulIntervalSet S] in
theorem releasedBy_not_mutex {e : ℕ × KernelObject S} {o : KernelObject S}
    (h : (releasedBy id e).2 = o) (hm : ∀ limit holder, o ≠ .mutex limit holder) : e.2 = o := by
  obtain ⟨i, o'⟩ := e
  cases o' with
  | mutex limit holder => exact absurd h.symm (hm _ _)
  | _ => exact h

omit [LawfulIntervalSet S] in
/-- Stopping a thread releases its charge: its owner is alive.
SOURCE: thread.cpp:88-120 -/
theorem stopThread_settled {t : ThreadObject} {u : Unit}
    (hb : Books k (.thread t :: liveObjects k)) (hr : Rest k)
    (hlive : ∃ process, k.processes[t.ownerProcess]? = some process ∧ process.expired = false)
    (hc : stopThread id t k = .ok (u, k')) : Settled k' := by
  obtain ⟨_, k₁, hmod, hrest⟩ := stateT_bind_eq_ok.mp hc
  have hk₁ : { k with objects := k.objects.map (releasedBy id) } = k₁ :=
    stateT_modify_eq_ok.mp hmod
  have hb₁ : Books k₁ ([.thread t] ++ liveObjects k₁) :=
    Books.map [.thread t] hb (fun e _ => (releasedBy_same k.processes e).2) hk₁.symm
  have hr₁ : Rest k₁ := by
    rw [← hk₁]
    refine hr.map (fun e _ => (releasedBy_same k.processes e).1) (fun e _ m hm => ?_)
      fun e _ t' ht' => ⟨t', releasedBy_not_mutex ht' (by simp), rfl⟩
    exact releasedBy_not_mutex hm (by simp)
  obtain ⟨process, hget, halive⟩ := hlive
  obtain ⟨process', k₂, hproc, hrest⟩ := stateT_bind_eq_ok.mp hrest
  obtain ⟨rfl, hget'⟩ := getProcess_ok hproc
  have hget₁ : k₁.processes[t.ownerProcess]? = some process := by rw [← hk₁]; exact hget
  obtain rfl : process = process' := Option.some.inj (hget₁.symm.trans hget')
  rw [if_neg (by simp [halive])] at hrest
  split at hrest
  · obtain ⟨_, k₂, hset, hrelease⟩ := stateT_bind_eq_ok.mp hrest
    have hk₂ := stateT_modify_eq_ok.mp hset
    have hb₂ := Books.of_set hb₁ hget₁ hk₂.symm rfl rfl rfl rfl rfl
    have hp₂ : KeepsProcesses k₁ k₂ :=
      .of_set hget₁ (congrArg KernelSystem.processes hk₂.symm) rfl rfl fun hs => hs
    have hobj₂ : k₂.objects = k₁.objects := by rw [← hk₂]
    have hcharge : charge k₂.processes (.thread t : KernelObject S) =
        some (process.resourceLimit, .thread) := by
      rw [charge_congr hp₂.limits]
      show Option.map _ _ = _
      rw [hget₁]
      rfl
    have hlive₂ : liveObjects k₂ = liveObjects k₁ := congrArg (List.map Prod.snd) hobj₂
    rw [← hlive₂] at hb₂
    obtain ⟨hb₃, hp₃, hobj₃, hnext₃⟩ := release_books hb₂
      (weightless_of_not_sharedMemory fun m => by simp) hcharge (by decide) hrelease
    have hlive₃ : liveObjects k' = liveObjects k₂ := congrArg (List.map Prod.snd) hobj₃
    exact ⟨hlive₃ ▸ hb₃, hr₁.same (hp₂.trans hp₃) (hobj₃.trans hobj₂)
      (hnext₃.trans (by rw [← hk₂]))⟩
  · exact (stateT_throw_eq_ok.mp hrest).elim

omit [LawfulIntervalSet S] in
/-- What a block held is free again, and nobody holds it twice. -/
theorem apartOf_freed {m : SharedMemory S} {os : List (KernelObject S)}
    (ha : ApartOf k (.sharedMemory m :: os)) {regions : MemoryRegion → MemoryRegionInfo S}
    (hregions : ∀ x, freeShare regions x ≤ freeShare k.memoryRegions x + share x m.holdingMemory)
    (x : ℕ) : shares regions k.processes os x ≤ if x < Memory.FCRAM_N3DS_SIZE then 1 else 0 := by
  have h₁ := ha x
  have h₂ := hregions x
  rw [shares_cons] at h₁
  simp only [shares_eq, objectShare] at h₁ ⊢
  omega

/-- A shared memory block goes while its owner lives: what it was charged for is released, and
the owner no longer pays for what the block held. -/
theorem sharedMemoryDestructor_alive {m : SharedMemory S} {u : Unit} {owner : ℕ}
    {process : Process S} {os : List (KernelObject S)}
    (hcounts : CountsOf k (.sharedMemory m :: os)) (hbytes : BytesOf k (.sharedMemory m :: os))
    (ha : ApartOf k (.sharedMemory m :: os)) (howner : m.ownerProcess = some owner)
    (hget : k.processes[owner]? = some process) (hlive : process.expired = false)
    (hsize : m.size < 2 ^ 32) (hbase : m.baseAddress < 2 ^ 32)
    (hc : sharedMemoryDestructor m k = .ok (u, k')) :
    CountsOf k' os ∧ ApartOf k' os ∧ KeepsProcesses k k' ∧ k'.objects = k.objects ∧
      k'.nextObject = k.nextObject ∧ (BytesOf k' os ↔
        u32Sub process.memoryUsed (if m.baseAddress = 0 then m.size else 0) + total m.holdingMemory =
          process.memoryUsed) := by
  obtain ⟨regions, hregions, hcases⟩ := sharedMemoryDestructor_ok hc
  rw [howner] at hcases
  obtain ⟨process', hget', -, hcases⟩ := hcases
  obtain rfl : process = process' := Option.some.inj (hget.symm.trans hget')
  obtain ⟨k₁, u, vm, hvm, hrelease, hk'⟩ := hcases hlive
  have hk₁ := release_ok hrelease
  have hprocs : k'.processes = k.processes.set owner (ownerAfter m process vm) := by rw [hk']
  have hkeeps : KeepsProcesses k k' := by
    refine .of_set hget hprocs ?_ ?_ fun hs => ?_
    · unfold ownerAfter
      split <;> dsimp only
    · unfold ownerAfter
      split <;> dsimp only
    · unfold ownerAfter
      split
      · exact hvm hs hsize hbase
      · exact hs
  have hcharge : charge k.processes (.sharedMemory m) =
      some (process.resourceLimit, .sharedMemory) := by
    show Option.map _ (Option.bind _ _) = _
    rw [howner]
    show Option.map _ (k.processes[owner]?) = _
    rw [hget]
    rfl
  have hcounts₁ : CountsOf k₁ os := by
    refine (release_counts hrelease (o := .sharedMemory m) hcharge (by decide)).mpr ?_
    exact hcounts.congr (fun _ _ _ => rfl) fun i => rfl
  have hafter : ∀ x, processShare x (ownerAfter m process vm) = processShare x process := by
    intro x
    unfold ownerAfter processShare
    split <;> dsimp only
  refine ⟨?_, fun x => ?_, hkeeps, by rw [hk', hk₁]; rfl, by rw [hk', hk₁]; rfl, ?_⟩
  · refine hcounts₁.congr (fun _ _ _ => by rw [hk']) fun i => ?_
    have hsame := hkeeps.limits i
    rw [hk₁]
    exact hsame
  · have h₁ := shares_set regions hget (ownerAfter m process vm) os x
    have h₂ := apartOf_freed ha hregions x
    have h₃ : k'.memoryRegions = regions := by rw [hk', hk₁]; rfl
    rw [hprocs, h₃]
    rw [hafter] at h₁
    omega
  · have hown := hbytes owner process hget hlive
    rw [heldBytes_cons] at hown
    have hpart : objectBytes owner (.sharedMemory m) = total m.holdingMemory := by
      simp [objectBytes, howner]
    have hheld : heldBytes os owner (ownerAfter m process vm) = heldBytes os owner process := by
      unfold ownerAfter heldBytes
      split <;> dsimp only
    have hused : (ownerAfter m process vm).memoryUsed =
        u32Sub process.memoryUsed (if m.baseAddress = 0 then m.size else 0) := by
      have hbound : process.memoryUsed < 2 ^ 32 := by
        have hle := heldBytes_le ha hget
        rw [heldBytes_cons, ← hown] at hle
        have : Memory.FCRAM_N3DS_SIZE < 2 ^ 32 := by decide
        omega
      by_cases hzero : m.baseAddress = 0
      · simp only [ownerAfter, hzero, ne_eq, not_true_eq_false, if_false, if_true]
      · simp only [ownerAfter, hzero, ne_eq, not_false_eq_true, if_false, if_true]
        rw [u32Sub_of_le (Nat.zero_le _) hbound, Nat.sub_zero]
    have hafter' : (ownerAfter m process vm).expired = false := by
      unfold ownerAfter
      split <;> exact hlive
    constructor
    · intro hb
      have hget₁ : k'.processes[owner]? = some (ownerAfter m process vm) := by
        rw [hprocs, List.getElem?_set_self (List.getElem?_eq_some_iff.mp hget).1]
      have := hb owner _ hget₁ hafter'
      rw [hused, hheld] at this
      omega
    · intro heq
      refine bytesOf_set hbytes hget hprocs (fun q hq => ?_) fun _ => ?_
      · rw [List.map_cons, List.sum_cons]
        have : objectBytes q (.sharedMemory m) = 0 := by
          simp only [objectBytes, howner]
          exact if_neg fun h => hq (Option.some.inj h).symm
        omega
      · rw [hused, hheld]
        omega

/-- SOURCE: shared_memory.cpp:26-40 -/
theorem sharedMemoryDestructor_outcome {m : SharedMemory S} {u : Unit}
    (hb : Books k (.sharedMemory m :: liveObjects k)) (hr : Rest k) (hm : HoldsOwn m)
    (hc : sharedMemoryDestructor m k = .ok (u, k')) :
    Outcome (GoesInTime k (.sharedMemory m)) k' := by
  obtain ⟨hsize, hbase, hown⟩ := hm
  cases howner : m.ownerProcess with
  | none =>
      obtain ⟨regions, hregions, hcases⟩ := sharedMemoryDestructor_ok hc
      rw [howner] at hcases
      have hcharge : charge k.processes (.sharedMemory m) = none := by
        show Option.map _ (Option.bind _ _) = _
        rw [howner]
        rfl
      have hbytes : ∀ p, objectBytes p (.sharedMemory m) = 0 := fun p => by simp [objectBytes, howner]
      have hlive : liveObjects k' = liveObjects k := by rw [hcases]; rfl
      refine .inl ⟨fun owner ho => by simp [howner] at ho, ⟨⟨?_, ?_, fun x => ?_⟩,
        hr.same (.of_eq (by rw [hcases])) (by rw [hcases]) (by rw [hcases])⟩⟩
      · rw [hlive, hcases]
        intro limit type htype
        have := hb.counts limit type htype
        rw [countCharged_cons, hcharge] at this
        simpa using this
      · rw [hlive, hcases]
        intro p process hget halive
        have := hb.bytes p process hget halive
        rwa [heldBytes_cons, hbytes] at this
      · rw [hlive, hcases]
        exact apartOf_freed hb.apart hregions x
  | some owner =>
      cases hget : k.processes[owner]? with
      | none =>
          obtain ⟨regions, -, hcases⟩ := sharedMemoryDestructor_ok hc
          rw [howner] at hcases
          obtain ⟨process, hget', -⟩ := hcases
          rw [hget] at hget'
          cases hget'
      | some process =>
          cases hexp : process.expired with
          | false =>
              obtain ⟨hcounts, hapart, hkeeps, hobj, hnext, hbytes⟩ :=
                sharedMemoryDestructor_alive hb.counts hb.bytes hb.apart howner hget hexp hsize hbase hc
              have hlive : liveObjects k' = liveObjects k := congrArg (List.map Prod.snd) hobj
              refine .inl ⟨?_, ⟨⟨hlive ▸ hcounts, ?_, hlive ▸ hapart⟩, hr.same hkeeps hobj hnext⟩⟩
              · intro owner' ho process' hp
                obtain rfl : owner = owner' := Option.some.inj (howner.symm.trans ho)
                obtain rfl : process = process' := Option.some.inj (hget.symm.trans hp)
                exact hexp
              · rw [hlive]
                refine hbytes.mpr ?_
                have hheld := hb.bytes owner process hget hexp
                have hpart : objectBytes owner (.sharedMemory m) = total m.holdingMemory := by
                  simp [objectBytes, howner]
                have hle := heldBytes_le hb.apart hget
                rw [heldBytes_cons, hpart] at hheld
                rw [heldBytes_cons, hpart] at hle
                have htotal := hown (by simp [howner])
                rw [← htotal, u32Sub_of_le (by omega) (by
                  have : Memory.FCRAM_N3DS_SIZE < 2 ^ 32 := by decide
                  omega)]
                omega
          | true =>
              -- the weak pointer has expired, and the charge stays
              obtain ⟨regions, hregions, hcases⟩ := sharedMemoryDestructor_ok hc
              rw [howner] at hcases
              obtain ⟨process', hget', hcases, -⟩ := hcases
              obtain rfl : process = process' := Option.some.inj (hget.symm.trans hget')
              have hk' := hcases hexp
              refine .inr ⟨fun h => ?_, fun h => ?_⟩
              · have := h owner howner process hget
                rw [hexp] at this
                cases this
              · have hcharge : charge k'.processes (.sharedMemory m) =
                    some (process.resourceLimit, .sharedMemory) := by
                  rw [hk']
                  show Option.map _ (Option.bind _ _) = _
                  rw [howner]
                  show Option.map _ (k.processes[owner]?) = _
                  rw [hget]
                  rfl
                have hcounts : CountsOf k' (.sharedMemory m :: liveObjects k') := by
                  rw [hk']
                  exact hb.counts
                exact countsOf_cons_unique hcharge (by decide) hcounts h.counts

/-- What happens when an object goes that was taken out of the list. -/
theorem destructor_outcome {u : Unit} (hb : Books k (o :: liveObjects k)) (hr : Rest k)
    (hm : ∀ m, o = .sharedMemory m → HoldsOwn m)
    (ht : ∀ t, o = .thread t →
      ∃ process, k.processes[t.ownerProcess]? = some process ∧ process.expired = false)
    (hc : destructor id o k = .ok (u, k')) : Outcome (GoesInTime k o) k' := by
  have hrelease : ∀ (type : ResourceLimitType) (limit : Option ℕ), CountsObjects type →
      (∀ m, o ≠ .sharedMemory m) → charge k.processes o = limit.map (fun l => (l, type)) →
      releaseCharge type limit k = .ok (u, k') → Settled k' := by
    intro type limit htype hnot hcharge hrun
    obtain ⟨hb', hkeeps, hobj, hnext⟩ := releaseCharge_books hb
      (weightless_of_not_sharedMemory hnot) hcharge htype hrun
    have hlive : liveObjects k' = liveObjects k := congrArg (List.map Prod.snd) hobj
    exact ⟨hlive ▸ hb', hr.same hkeeps hobj hnext⟩
  cases o with
  | thread t => exact .of_settled (stopThread_settled hb hr (ht t rfl) hc) trivial
  | mutex limit holder => exact .of_settled (hrelease .mutex limit (by decide) (by simp) rfl hc) trivial
  | semaphore limit _ _ =>
      exact .of_settled (hrelease .semaphore limit (by decide) (by simp) rfl hc) trivial
  | event limit _ => exact .of_settled (hrelease .event limit (by decide) (by simp) rfl hc) trivial
  | timer limit _ => exact .of_settled (hrelease .timer limit (by decide) (by simp) rfl hc) trivial
  | addressArbiter limit =>
      exact .of_settled (hrelease .addressArbiter limit (by decide) (by simp) rfl hc) trivial
  | sharedMemory m => exact sharedMemoryDestructor_outcome hb hr (hm m rfl) hc

/-- Destroying an object of the kernel. -/
theorem destroyObject_outcome {u : Unit} (h : Settled k) (hc : destroyObject id k = .ok (u, k')) :
    ∃ entry, k.objects.find? (fun entry => entry.1 = id) = some entry ∧
      Outcome (GoesInTime k entry.2) k' := by
  obtain ⟨_, _, hget, hrest⟩ := stateT_bind_eq_ok.mp hc
  obtain ⟨rfl, rfl⟩ := stateT_get_eq_ok.mp hget
  cases hfind : k.objects.find? fun entry => entry.1 = id with
  | none =>
      rw [hfind] at hrest
      exact (stateT_throw_eq_ok.mp hrest).elim
  | some entry =>
      obtain ⟨i, o⟩ := entry
      rw [hfind] at hrest
      obtain ⟨_, k₁, hset, hrest⟩ := stateT_bind_eq_ok.mp hrest
      have hk₁ := stateT_set_eq_ok.mp hset
      have hperm := liveObjects_eraseP hfind
      have hmem : o ∈ liveObjects k := mem_liveObjects.mpr ⟨i, List.mem_of_find?_eq_some hfind⟩
      have hb₁ : Books k₁ (o :: liveObjects k₁) := by
        rw [← hk₁]
        exact ⟨h.books.counts.perm hperm, h.books.bytes.perm hperm, h.books.apart.perm hperm⟩
      have hr₁ : Rest k₁ := by
        refine h.rest.frame (.of_eq (by rw [← hk₁])) (fun e he => ?_) (by rw [← hk₁])
        rw [← hk₁] at he
        exact List.mem_of_mem_eraseP he
      refine ⟨(i, o), rfl, ?_⟩
      have hsame : GoesInTime k o = GoesInTime k₁ o := by rw [← hk₁]; rfl
      rw [hsame]
      refine destructor_outcome hb₁ hr₁ (fun m hm => h.rest.holdsOwn m (hm ▸ hmem)) (fun t ht => ?_)
        hrest
      rw [← hk₁]
      exact h.rest.threads t (ht ▸ hmem)

end Destruction

end Borked3DS.Analysis
