import Borked3DS.Interface.GspQueues

/-!
# When a relay queue loses an interrupt

An interrupt that is signalled goes to the queues of the threads that receive it, behind the ones
that wait there. A queue is not looked at before it is written, so it takes one that it has no slot
for over the oldest one that waits.
-/

set_option autoImplicit false

namespace Borked3DS.Analysis

open Borked3DS.Library Borked3DS.Model Borked3DS.Model.GSP Borked3DS.Interface

/-! ## One queue -/

section Queue

variable {q : InterruptRelayQueue} {signalled read : List InterruptId} {id : InterruptId}

theorem toNat_number_push (h : q.numberInterrupts.toNat ≤ 0x34) :
    (q.push id).numberInterrupts.toNat = q.numberInterrupts.toNat + 1 := by
  have hone : (1 : UInt8).toNat = 1 := rfl
  simp only [InterruptRelayQueue.push, UInt8.toNat_add, hone]
  omega

theorem next_eq (hindex : q.index.toNat < 0x34) (hnumber : q.numberInterrupts.toNat ≤ 0x34) :
    q.next.val = (q.index.toNat + q.numberInterrupts.toNat) % 0x34 := by
  simp only [InterruptRelayQueue.next, UInt8.toNat_add]
  omega

/-- An interrupt that has a free slot stands behind the ones that wait. -/
theorem unread_push (hindex : q.index.toNat < 0x34) (hroom : q.numberInterrupts.toNat < 0x34) :
    unread (q.push id) = unread q ++ [id] := by
  have hnext := next_eq hindex (Nat.le_of_lt hroom)
  unfold unread
  rw [toNat_number_push (Nat.le_of_lt hroom)]
  apply ringContents_push hroom
  · have hslot : Fin.ofNat 0x34 ((q.index.toNat + q.numberInterrupts.toNat) % 0x34) = q.next := by
      apply Fin.ext
      simp [hnext]
    simp only [InterruptRelayQueue.push, hslot, Function.update_self]
  · intro i hi hne
    have hslot : Fin.ofNat 0x34 i ≠ q.next := by
      intro heq
      have hval := congrArg Fin.val heq
      rw [hnext, Fin.val_ofNat, Nat.mod_eq_of_lt hi] at hval
      exact hne hval
    simp only [InterruptRelayQueue.push, Function.update_of_ne hslot]

/-- A queue that is right stays right exactly when it has room. -/
theorem relayed_push_iff (h : Relayed q signalled read) :
    Relayed (q.push id) (signalled ++ [id]) read ↔ q.numberInterrupts.toNat < 0x34 := by
  constructor
  · intro hpush
    have hnumber := hpush.number_le
    rw [toNat_number_push h.number_le] at hnumber
    omega
  · intro hroom
    refine ⟨h.index_lt, ?_, ?_⟩
    · rw [toNat_number_push h.number_le]
      exact hroom
    · rw [unread_push h.index_lt hroom, h.conserved, List.append_assoc]

/-- A thread reads the oldest interrupt that waits. -/
theorem relayed_pop {q' : InterruptRelayQueue} (h : Relayed q signalled read)
    (hpop : popInterrupt q = some (id, q')) : Relayed q' signalled (read ++ [id]) := by
  unfold popInterrupt at hpop
  split at hpop
  · cases hpop
  · next hne =>
    obtain ⟨rfl, rfl⟩ := Prod.mk.inj (Option.some.inj hpop)
    have hindex := h.index_lt
    have hnumber := h.number_le
    have hpos : 0 < q.numberInterrupts.toNat := by
      apply Nat.pos_of_ne_zero
      intro hzero
      exact hne (UInt8.toNat_inj.mp hzero)
    have hone : (1 : UInt8).toNat = 1 := rfl
    have hpred : (q.numberInterrupts - 1).toNat + 1 = q.numberInterrupts.toNat := by
      rw [UInt8.toNat_sub_of_le _ _ (UInt8.le_iff_toNat_le.mpr (by omega)), hone]
      omega
    have hnext : (UInt8.ofNat ((q.index.toNat + 1) % 0x34)).toNat =
        (q.index.toNat + 1) % 0x34 := by
      apply UInt8.toNat_ofNat_of_lt
      exact Nat.lt_of_lt_of_le (Nat.mod_lt _ (by decide : 0 < 0x34)) (by decide)
    refine ⟨?_, ?_, ?_⟩
    · rw [hnext]
      exact Nat.mod_lt _ (by decide)
    · dsimp only
      omega
    · have hunread : unread q = q.slot (Fin.ofNat 0x34 q.index.toNat) ::
          unread { q with
            index := UInt8.ofNat ((q.index.toNat + 1) % 0x34)
            numberInterrupts := q.numberInterrupts - 1 } := by
        unfold unread
        rw [← hpred, ringContents_pop, hnext, Nat.mod_eq_of_lt hindex]
      rw [h.conserved, hunread, List.append_assoc]
      rfl

end Queue

/-! ## Signals -/

section Signals

variable {s : GspGpu} {id : InterruptId} {t : Fin MaxGSPThreads} {threadId : ℕ}

theorem updateFrameBuffer_kept (screen : Fin 2) :
    (s.updateFrameBuffer t screen).memory.relayQueue = s.memory.relayQueue ∧
      (s.updateFrameBuffer t screen).connectedSessions = s.connectedSessions := by
  unfold GspGpu.updateFrameBuffer
  dsimp only
  split <;> exact ⟨rfl, rfl⟩

/-- What a signal for a thread changes. -/
theorem signalInterruptForThread_eq (s : GspGpu) (id : InterruptId) (t : Fin MaxGSPThreads)
    (threadId : ℕ) :
    (s.signalInterruptForThread id threadId).connectedSessions = s.connectedSessions ∧
      (s.signalInterruptForThread id threadId).memory.relayQueue t =
        if threadId = t ∧ Listens s t then (s.memory.relayQueue t).push id
        else s.memory.relayQueue t := by
  unfold GspGpu.signalInterruptForThread
  cases hfind : s.findRegisteredThreadData threadId with
  | none =>
    refine ⟨rfl, (if_neg ?_).symm⟩
    rintro ⟨rfl, data, hdata, -⟩
    rw [hfind] at hdata
    cases hdata
  | some data =>
    have hid : data.threadId = threadId := by
      have := List.find?_some hfind
      simp only [Bool.and_eq_true, decide_eq_true_eq] at this
      exact this.2
    cases hevent : data.interruptEvent with
    | none =>
      refine ⟨by simp only [hevent], ?_⟩
      simp only [hevent]
      refine (if_neg ?_).symm
      rintro ⟨rfl, data', hdata, hne⟩
      rw [hfind] at hdata
      cases hdata
      exact hne hevent
    | some event =>
      have hqueue : Function.update s.memory.relayQueue data.threadId
          ((s.memory.relayQueue data.threadId).push id) t =
          if threadId = t ∧ Listens s t then (s.memory.relayQueue t).push id
          else s.memory.relayQueue t := by
        by_cases ht : data.threadId = t
        · subst ht
          have hlistens : Listens s data.threadId := by
            refine ⟨data, ?_, ?_⟩
            · rw [hid]
              exact hfind
            · rw [hevent]
              exact Option.some_ne_none event
          rw [Function.update_self, if_pos ⟨hid.symm, hlistens⟩]
        · rw [Function.update_of_ne (Ne.symm ht), if_neg]
          rintro ⟨heq, -⟩
          exact ht (Fin.ext (hid.trans heq))
      simp only [hevent]
      cases id.screen with
      | none => exact ⟨rfl, hqueue⟩
      | some screen =>
        obtain ⟨hkept, hsessions⟩ := updateFrameBuffer_kept (s := { s with memory := { s.memory with
          relayQueue := Function.update s.memory.relayQueue data.threadId
            ((s.memory.relayQueue data.threadId).push id) } }) (t := data.threadId) screen
        exact ⟨hsessions, (congrFun hkept t).trans hqueue⟩

/-- Who listens is a matter of the sessions. -/
theorem listens_congr {s' : GspGpu} (h : s'.connectedSessions = s.connectedSessions) :
    Listens s' t ↔ Listens s t := by
  unfold Listens GspGpu.findRegisteredThreadData
  rw [h]

/-- A signal to some threads reaches each of them that listens, once. -/
theorem relayQueue_foldl {ids : List ℕ} (h : ids.Nodup) :
    (ids.foldl (fun s threadId => s.signalInterruptForThread id threadId) s).memory.relayQueue t =
      if (t : ℕ) ∈ ids ∧ Listens s t then (s.memory.relayQueue t).push id
      else s.memory.relayQueue t := by
  induction ids generalizing s with
  | nil => simp
  | cons threadId ids ih =>
    obtain ⟨hnot, hrest⟩ := List.nodup_cons.mp h
    obtain ⟨hsessions, hqueue⟩ := signalInterruptForThread_eq s id t threadId
    rw [List.foldl_cons, ih hrest, hqueue]
    simp only [listens_congr hsessions, List.mem_cons]
    by_cases heq : threadId = t
    · subst heq
      simp [hnot]
    · simp [heq, Ne.symm heq]

/-- A signal goes to the threads that receive it. -/
theorem relayQueue_signalInterrupt :
    (s.signalInterrupt id).memory.relayQueue t =
      if Receives s id t then (s.memory.relayQueue t).push id else s.memory.relayQueue t := by
  unfold GspGpu.signalInterrupt Receives
  by_cases hscreen : id = .pdc0 ∨ id = .pdc1
  · have hsome : id.screen ≠ none := by
      rcases hscreen with rfl | rfl <;> exact Option.some_ne_none _
    rw [if_pos hscreen, relayQueue_foldl List.nodup_range]
    simp [hsome, t.isLt]
  · have hnone : id.screen = none := by
      cases id with
      | pdc0 => exact absurd (Or.inl rfl) hscreen
      | pdc1 => exact absurd (Or.inr rfl) hscreen
      | _ => rfl
    rw [if_neg hscreen]
    by_cases hactive : s.activeThreadId = noThread
    · have hne : s.activeThreadId ≠ t := by
        have := t.isLt
        unfold noThread MaxGSPThreads at *
        omega
      simp [hactive, hnone, hactive ▸ hne]
    · rw [if_neg hactive, (signalInterruptForThread_eq _ _ t _).2]
      simp [hnone]

end Signals

/-! ## Runs -/

section Runs

variable {s s' : RelayState}

/-- The calls for sessions and for the right leave the shared memory alone. -/
theorem memory_connect {s s' : GspGpu} {session : ℕ} (h : s.connect session = .ok s') :
    s'.memory = s.memory := by
  unfold GspGpu.connect GspGpu.clientConnected at h
  split at h
  · obtain ⟨threadId, -, h⟩ := bind_eq_ok.mp h
    cases h
    rfl
  · cases h
    rfl

theorem memory_clientDisconnected {s s' : GspGpu} {session : ℕ}
    (h : s.clientDisconnected session = .ok s') : s'.memory = s.memory := by
  unfold GspGpu.clientDisconnected GspGpu.releaseRightOf at h
  obtain ⟨data, -, h⟩ := bind_eq_ok.mp h
  split at h
  · obtain ⟨t, ht, h⟩ := bind_eq_ok.mp h
    obtain ⟨-, -, ht⟩ := bind_eq_ok.mp ht
    cases ht
    cases h
    rfl
  · cases h
    rfl

theorem memory_acquireGpuRight {s : GspGpu} {session : ℕ} {blocking : Bool}
    {r : RightResult × GspGpu} (h : s.acquireGpuRight session blocking = .ok r) :
    r.2.memory = s.memory := by
  unfold GspGpu.acquireGpuRight at h
  obtain ⟨data, -, h⟩ := bind_eq_ok.mp h
  split at h
  · cases h
    rfl
  · split at h
    · obtain ⟨-, -, h⟩ := bind_eq_ok.mp h
      cases h
      rfl
    · split at h
      · cases h
        rfl
      · cases h
        rfl

theorem memory_releaseRight {s s' : GspGpu} {session : ℕ} (h : s.releaseRight session = .ok s') :
    s'.memory = s.memory := by
  unfold GspGpu.releaseRight GspGpu.releaseRightOf at h
  obtain ⟨data, -, h⟩ := bind_eq_ok.mp h
  obtain ⟨-, -, h⟩ := bind_eq_ok.mp h
  cases h
  rfl

theorem nothingLost_of_memory {gsp : GspGpu} (h : gsp.memory = s.gsp.memory) :
    NothingLost { s with gsp } ↔ NothingLost s := by
  unfold NothingLost
  dsimp only
  rw [h]

/-- A step keeps the queues right exactly when it fits. -/
theorem relayStep_iff {e : RelayEvent} (h : NothingLost s) (hstep : relayStep s e = .ok s') :
    NothingLost s' ↔ SignalFits s e := by
  cases e with
  | connect session =>
    obtain ⟨gsp, hgsp, hs⟩ := bind_eq_ok.mp hstep
    cases hs
    exact iff_of_true ((nothingLost_of_memory (memory_connect hgsp)).mpr h) trivial
  | disconnect session =>
    obtain ⟨gsp, hgsp, hs⟩ := bind_eq_ok.mp hstep
    cases hs
    exact iff_of_true ((nothingLost_of_memory (memory_clientDisconnected hgsp)).mpr h) trivial
  | register session event =>
    obtain ⟨⟨r, gsp⟩, hgsp, hs⟩ := bind_eq_ok.mp hstep
    obtain ⟨data, -, hr⟩ := bind_eq_ok.mp hgsp
    cases hs
    cases hr
    exact iff_of_true ((nothingLost_of_memory rfl).mpr h) trivial
  | unregister session =>
    obtain ⟨gsp, hgsp, hs⟩ := bind_eq_ok.mp hstep
    obtain ⟨data, -, hr⟩ := bind_eq_ok.mp hgsp
    cases hs
    cases hr
    exact iff_of_true ((nothingLost_of_memory rfl).mpr h) trivial
  | tryAcquireRight session =>
    obtain ⟨r, hgsp, hs⟩ := bind_eq_ok.mp hstep
    cases hs
    exact iff_of_true ((nothingLost_of_memory (memory_acquireGpuRight hgsp)).mpr h) trivial
  | acquireRight session =>
    obtain ⟨r, hgsp, hs⟩ := bind_eq_ok.mp hstep
    cases hs
    exact iff_of_true ((nothingLost_of_memory (memory_acquireGpuRight hgsp)).mpr h) trivial
  | releaseRight session =>
    obtain ⟨gsp, hgsp, hs⟩ := bind_eq_ok.mp hstep
    cases hs
    exact iff_of_true ((nothingLost_of_memory (memory_releaseRight hgsp)).mpr h) trivial
  | signal id =>
    cases hstep
    apply forall_congr'
    intro t
    dsimp only
    rw [relayQueue_signalInterrupt]
    by_cases hreceives : Receives s.gsp id t
    · rw [if_pos hreceives, if_pos hreceives, relayed_push_iff (h t)]
      simp [hreceives]
    · rw [if_neg hreceives, if_neg hreceives]
      simp [hreceives, h t]
  | pop t =>
    refine iff_of_true ?_ trivial
    dsimp only [relayStep] at hstep
    cases hpop : popInterrupt (s.gsp.memory.relayQueue t) with
    | none =>
      rw [hpop] at hstep
      cases hstep
      exact h
    | some r =>
      rw [hpop] at hstep
      cases hstep
      intro t'
      by_cases ht : t' = t
      · subst ht
        simp only [Function.update_self]
        exact relayed_pop (h t') hpop
      · simp only [Function.update_of_ne ht]
        exact h t'

theorem nothingLost_of_start (h : RelayStart s) : NothingLost s := by
  intro t
  refine ⟨h.index_lt t, ?_, ?_⟩
  · rw [h.number_eq t]
    decide
  · rw [h.signalled_eq t, h.read_eq t]
    unfold unread
    rw [h.number_eq t]
    rfl

end Runs

/-- Threads read exactly what was signalled to them, in order, and no queue holds more than it has
slots for, as long as every interrupt finds a free slot in the queues it goes to. -/
theorem interruptRelay_iff {s : RelayState} (h : RelayStart s) (is : List RelayEvent) :
    AllAlong relayStep NothingLost s is ↔ EachStep relayStep SignalFits s is :=
  allAlong_iff_eachStep (q := fun _ => True) (fun _ _ _ _ _ _ _ => trivial)
    (fun _ _ _ _ hp ht => relayStep_iff hp ht) trivial (nothingLost_of_start h) is

/-- The service as it is made. -/
def newRelayState : RelayState where
  gsp := { memory := .zeroed }

theorem relayStart_new : RelayStart newRelayState :=
  ⟨fun _ => Nat.lt_of_sub_eq_succ rfl, fun _ => rfl, fun _ => rfl, fun _ => rfl⟩

theorem interruptRelay_iff_twoScreens :
    AllAlong relayStep NothingLost newRelayState
      [.connect 0, .register 0 7, .signal .pdc0, .signal .pdc1, .pop 0, .signal .p3d, .pop 0] :=
  (interruptRelay_iff relayStart_new _).mpr (by decide)

/-- A thread that does not read its queue for 53 frames has more in it than there are slots. -/
theorem interruptRelay_overflows :
    ¬ ∀ (s : RelayState) (is : List RelayEvent), RelayStart s →
      AllAlong relayStep NothingLost s is := by
  intro hall
  have hrun : ∃ s', run relayStep newRelayState
      (.connect 0 :: .register 0 7 :: List.replicate 0x35 (.signal .pdc0)) = .ok s' ∧
      (s'.gsp.memory.relayQueue 0).numberInterrupts = 0x35 := by
    have hnumber : ((run relayStep newRelayState
        (.connect 0 :: .register 0 7 :: List.replicate 0x35 (.signal .pdc0))).toOption.map
          fun s => (s.gsp.memory.relayQueue 0).numberInterrupts) = some 0x35 := by
      decide +kernel
    obtain ⟨s', hs', hvalue⟩ := Option.map_eq_some_iff.mp hnumber
    exact ⟨s', eq_ok_of_toOption hs', hvalue⟩
  obtain ⟨s', hs', hnumber⟩ := hrun
  have hlost := (hall newRelayState _ relayStart_new).last hs' 0
  have hle := hlost.number_le
  rw [hnumber] at hle
  exact absurd hle (by decide)

end Borked3DS.Analysis
