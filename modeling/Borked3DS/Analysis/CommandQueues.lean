import Mathlib.Data.List.Nodup
import Borked3DS.Interface.GspQueues

/-!
# What is executed when the queue is triggered

Whose the right is follows from the sessions alone, whatever is in the shared memory. What a call
executes does not: the index, the count and the stop bytes are the game's, and nobody has to hold
the right.
-/

set_option autoImplicit false

namespace Borked3DS.Analysis

open Borked3DS.Library Borked3DS.Model Borked3DS.Model.GSP Borked3DS.Interface

/-! ## The loop over the commands -/

section Loop

variable {e : Execution} {offset : ℕ} {l : TriggerLoop} {b : CommandBuffer}

theorem toNat_number_advance (h : b.numberCommands ≠ 0) :
    b.advance.numberCommands.toNat + 1 = b.numberCommands.toNat := by
  have hone : (1 : UInt8).toNat = 1 := rfl
  have hpos : b.numberCommands.toNat ≠ 0 := fun hzero => h (UInt8.toNat_inj.mp hzero)
  unfold CommandBuffer.advance
  dsimp only
  rw [UInt8.toNat_sub_of_le _ _ (UInt8.le_iff_toNat_le.mpr (by omega)), hone]
  omega

theorem toNat_index_advance : b.advance.index.toNat = (b.index.toNat + 1) % 0xF := by
  have hlt := Nat.mod_lt (b.index.toNat + 1) (show 0 < 0xF by decide)
  exact UInt8.toNat_ofNat_of_lt (Nat.lt_of_lt_of_le hlt (by decide))

/-- The next command, and the ones behind it. -/
theorem ringCommands_cons (hnumber : b.numberCommands ≠ 0) (hindex : b.index.toNat < 0xF) :
    ringCommands b = b.commands ⟨b.index.toNat, hindex⟩ :: ringCommands b.advance := by
  unfold ringCommands
  rw [← toNat_number_advance hnumber, ringContents_pop, toNat_index_advance]
  congr 2
  exact Fin.ext (Nat.mod_eq_of_lt (Nat.mod_lt _ (by decide)) |>.trans (Nat.mod_eq_of_lt hindex))

theorem round_empty (h : (l.memory.commandBuffer offset).numberCommands = 0) :
    l.round e offset = .ok (l, false) := if_pos h

/-- Behind a command that stops the ring there is no other one. -/
theorem round_stopped (e : Execution) {offset : ℕ} {l : TriggerLoop}
    (h : (l.memory.commandBuffer offset).shouldStop ≠ 0) :
    ∃ l', l.round e offset = .ok (l', false) ∧ l'.executed = l.executed := by
  by_cases hnumber : (l.memory.commandBuffer offset).numberCommands = 0
  · exact ⟨l, round_empty hnumber, rfl⟩
  · refine ⟨{ l with
      memory := l.memory.setCommandBuffer offset
        { l.memory.commandBuffer offset with status := STATUS_STOPPED } }, ?_, rfl⟩
    unfold TriggerLoop.round
    dsimp only
    rw [if_neg hnumber, if_pos h]
    rfl

theorem round_status (e : Execution) {offset : ℕ} {l : TriggerLoop}
    (h : (l.memory.commandBuffer offset).status = STATUS_STOPPED) :
    ∃ l', l.round e offset = .ok (l', false) ∧ l'.executed = l.executed := by
  by_cases hstop : (l.memory.commandBuffer offset).shouldStop ≠ 0
  · exact round_stopped e hstop
  · refine ⟨l, ?_, rfl⟩
    unfold TriggerLoop.round
    dsimp only
    rw [if_neg hstop, if_pos h]
    split <;> rfl

/-- A round that executes a command, which leaves the ring alone. -/
theorem round_execute (hb : l.memory.commandBuffer offset = b) (hnumber : b.numberCommands ≠ 0)
    (hstop : b.shouldStop = 0) (hstatus : b.status ≠ STATUS_STOPPED)
    (hindex : b.index.toNat < 0xF)
    (hquiet : ∀ memory, (e.execute l.executed.length (b.commands ⟨b.index.toNat, hindex⟩)
      memory).commandBuffer offset = memory.commandBuffer offset) :
    ∃ l', l.round e offset = .ok (l', true) ∧
      l'.executed = l.executed ++ [b.commands ⟨b.index.toNat, hindex⟩] ∧
      l'.memory.commandBuffer offset =
        if (b.commands ⟨b.index.toNat, hindex⟩).stop ≠ 0 then { b.advance with shouldStop := 1 }
        else b.advance := by
  have hcommand : b.command = .ok (b.commands ⟨b.index.toNat, hindex⟩) := dif_pos hindex
  unfold TriggerLoop.round
  simp only [hb]
  rw [if_neg hnumber, if_neg (not_not_intro hstop), if_neg hstatus, hcommand, ok_bind]
  refine ⟨_, rfl, rfl, ?_⟩
  dsimp only
  have hadvanced := hquiet (l.memory.setCommandBuffer offset b.advance)
  have hset : (l.memory.setCommandBuffer offset b.advance).commandBuffer offset = b.advance :=
    Function.update_self _ _ _
  split
  · unfold SharedMemory.setCommandBuffer at hadvanced ⊢
    dsimp only at hadvanced ⊢
    rw [Function.update_self, hadvanced, Function.update_self]
  · rw [hadvanced, hset]

theorem run_of_end {rounds : ℕ} {l' : TriggerLoop} (h : l.round e offset = .ok (l', false))
    (hrounds : 1 ≤ rounds) : TriggerLoop.run e offset rounds l = .ok l' := by
  obtain ⟨n, rfl⟩ := Nat.exists_eq_add_of_le' hrounds
  unfold TriggerLoop.run
  rw [h, ok_bind]
  rfl

theorem run_of_again {rounds : ℕ} {l' : TriggerLoop} (h : l.round e offset = .ok (l', true)) :
    TriggerLoop.run e offset (rounds + 1) l = TriggerLoop.run e offset rounds l' := by
  rw [TriggerLoop.run, h, ok_bind]
  rfl

/-- The loop executes what is in the ring, up to the first command that stops it. -/
theorem run_executes {k : ℕ} (hb : l.memory.commandBuffer offset = b)
    (hk : b.numberCommands.toNat = k) (hstop : b.shouldStop = 0)
    (hstatus : b.status ≠ STATUS_STOPPED) (hindex : b.index.toNat < 0xF)
    (hquiet : ∀ n c, (throughStop (ringCommands b))[n]? = some c → ∀ memory,
      (e.execute (l.executed.length + n) c memory).commandBuffer offset =
        memory.commandBuffer offset) :
    ∃ l', (∀ rounds, k + 1 ≤ rounds → TriggerLoop.run e offset rounds l = .ok l') ∧
      l'.executed = l.executed ++ throughStop (ringCommands b) := by
  induction k generalizing l b with
  | zero =>
    have hnumber : b.numberCommands = 0 := UInt8.toNat_inj.mp hk
    refine ⟨l, fun rounds hrounds => run_of_end (round_empty (hb ▸ hnumber)) hrounds, ?_⟩
    have hring : ringCommands b = [] := by
      unfold ringCommands
      rw [hk]
      rfl
    rw [hring]
    simp [throughStop]
  | succ k ih =>
    have hnumber : b.numberCommands ≠ 0 := by
      intro hzero
      rw [hzero] at hk
      exact absurd hk (Nat.succ_ne_zero k).symm
    have hadvance := toNat_number_advance hnumber
    rw [ringCommands_cons hnumber hindex] at hquiet ⊢
    generalize hc : b.commands ⟨b.index.toNat, hindex⟩ = c at hquiet ⊢
    have hfirst : (throughStop (c :: ringCommands b.advance))[0]? = some c := by
      unfold throughStop
      split <;> rfl
    obtain ⟨l₁, hround, hexecuted, hmemory⟩ := round_execute hb hnumber hstop hstatus hindex
      (by rw [hc]; exact hquiet 0 c hfirst)
    rw [hc] at hexecuted hmemory
    by_cases hcstop : c.stop ≠ 0
    · rw [if_pos hcstop] at hmemory
      obtain ⟨l₂, hend, hsame⟩ := round_stopped e (l := l₁)
        (by rw [hmemory]; exact (by decide : (1 : UInt8) ≠ 0))
      refine ⟨l₂, ?_, ?_⟩
      · intro rounds hrounds
        obtain ⟨n, rfl⟩ : ∃ n, rounds = n + 1 := ⟨rounds - 1, by omega⟩
        rw [run_of_again hround]
        exact run_of_end hend (by omega)
      · rw [hsame, hexecuted, throughStop, if_pos hcstop]
    · rw [if_neg hcstop] at hmemory
      rw [throughStop, if_neg hcstop] at hquiet ⊢
      obtain ⟨l₂, hrun, hmore⟩ := ih hmemory (by omega) hstop hstatus
        (by rw [toNat_index_advance]; exact Nat.mod_lt _ (by decide)) (by
          intro n c' hc' memory
          have := hquiet (n + 1) c' hc' memory
          rwa [hexecuted, List.length_append, List.length_singleton, Nat.add_assoc,
            Nat.add_comm 1 n])
      refine ⟨l₂, ?_, ?_⟩
      · intro rounds hrounds
        obtain ⟨n, rfl⟩ : ∃ n, rounds = n + 1 := ⟨rounds - 1, by omega⟩
        rw [run_of_again hround]
        exact hrun n (by omega)
      · rw [hmore, hexecuted, List.append_assoc]
        rfl

theorem length_throughStop_le (cs : List Command) : (throughStop cs).length ≤ cs.length := by
  induction cs with
  | nil => exact Nat.le_refl 0
  | cons c cs ih =>
    rw [throughStop]
    split
    · simp
    · exact Nat.succ_le_succ ih

/-- Nothing is executed behind a command that stops the ring. -/
theorem length_throughStop_of_stop {cs : List Command} {j : ℕ} {c : Command}
    (h : cs[j]? = some c) (hstop : c.stop ≠ 0) : (throughStop cs).length ≤ j + 1 := by
  induction cs generalizing j with
  | nil => cases h
  | cons c' cs ih =>
    rw [throughStop]
    split
    · simp
    · next hnot =>
      cases j with
      | zero =>
        cases h
        exact absurd hstop hnot
      | succ j => exact Nat.succ_le_succ (ih h)

/-- In a ring that fits no slot is executed twice. -/
theorem length_pending_le (h : RingFits b) : (pendingCommands b).length ≤ 0xF := by
  unfold pendingCommands
  by_cases hstopped : b.shouldStop ≠ 0 ∨ b.status = STATUS_STOPPED
  · rw [if_pos hstopped]
    exact Nat.zero_le _
  · rw [if_neg hstopped]
    obtain ⟨hstop, hstatus⟩ := not_or.mp hstopped
    have hlength : (ringCommands b).length = b.numberCommands.toNat := length_ringContents
    have hle := length_throughStop_le (ringCommands b)
    rcases h with hnumber | h | h | ⟨hindex, hfew | ⟨i, hi⟩⟩
    · rw [hnumber] at hlength
      have hzero : (0 : UInt8).toNat = 0 := rfl
      omega
    · exact absurd h hstop
    · exact absurd h hstatus
    · omega
    · -- The slot that stops the ring is met before the ring has come round.
      by_cases hshort : b.numberCommands.toNat ≤ 0xF
      · omega
      · have hplace : (ringCommands b)[(i + 0xF - b.index.toNat) % 0xF]? = some (b.commands i) := by
          have hlt := Nat.mod_lt (i + 0xF - b.index.toNat) (show 0 < 0xF by decide)
          rw [ringCommands, getElem?_ringContents (by omega)]
          apply congrArg
          apply congrArg
          apply Fin.ext
          have := i.isLt
          rw [Fin.val_ofNat]
          omega
        have hbound := length_throughStop_of_stop hplace hi
        have hlt := Nat.mod_lt (i + 0xF - b.index.toNat) (show 0 < 0xF by decide)
        omega

end Loop

/-! ## Sessions -/

/-- The sessions and the thread ids agree, and the right is that of a session. -/
structure GspInvariant (s : GspGpu) : Prop where
  right : RightOfSession s
  sessions : (s.connectedSessions.map (·.session)).Nodup
  used : ∀ id, s.usedThreadIds id = true ↔ id ∈ s.connectedSessions.map (·.threadId)

section Sessions

variable {s s' : GspGpu} {session : ℕ}

theorem mem_of_getSessionData {data : SessionData} (h : s.getSessionData session = .ok data) :
    data ∈ s.connectedSessions ∧ data.session = session := by
  unfold GspGpu.getSessionData at h
  cases hfind : s.connectedSessions.find? fun data => data.session = session with
  | none =>
    rw [hfind] at h
    cases h
  | some data' =>
    rw [hfind] at h
    cases h
    exact ⟨List.mem_of_find?_eq_some hfind, by simpa using List.find?_some hfind⟩

/-- What keeps who is connected under which thread id, and the right, keeps the invariant. -/
theorem GspInvariant.congr (h : GspInvariant s) (hactive : s'.activeThreadId = s.activeThreadId)
    (hused : s'.usedThreadIds = s.usedThreadIds)
    (hsessions : s'.connectedSessions.map (·.session) = s.connectedSessions.map (·.session))
    (hthreads : s'.connectedSessions.map (·.threadId) = s.connectedSessions.map (·.threadId)) :
    GspInvariant s' := by
  refine ⟨⟨?_, ?_⟩, ?_, ?_⟩
  · rw [hactive]
    apply h.right.active.imp_right
    rintro ⟨data, hdata, heq⟩
    have hmem : data.threadId ∈ s'.connectedSessions.map (·.threadId) := by
      rw [hthreads]
      exact List.mem_map_of_mem hdata
    obtain ⟨data', hdata', hid⟩ := List.mem_map.mp hmem
    exact ⟨data', hdata', by rw [heq, hid]⟩
  · rw [hthreads]
    exact h.right.distinct
  · rw [hsessions]
    exact h.sessions
  · rw [hused, hthreads]
    exact h.used

theorem GspInvariant.connect (h : GspInvariant s)
    (hnew : session ∉ s.connectedSessions.map (·.session)) (hs : s.connect session = .ok s') :
    GspInvariant s' := by
  unfold GspGpu.connect GspGpu.clientConnected GspGpu.getUnusedThreadId at hs
  split at hs
  · obtain ⟨threadId, hid, hs⟩ := bind_eq_ok.mp hs
    split at hid
    · next id hfind =>
      cases hid
      cases hs
      have hunused : s.usedThreadIds threadId = false := by simpa using List.find?_some hfind
      have hfresh : threadId ∉ s.connectedSessions.map (·.threadId) := by
        rw [← h.used threadId, hunused]
        exact Bool.false_ne_true
      refine ⟨⟨?_, ?_⟩, ?_, ?_⟩
      · apply h.right.active.imp_right
        rintro ⟨data, hdata, heq⟩
        exact ⟨data, List.mem_append_left _ hdata, heq⟩
      · rw [List.map_append]
        exact h.right.distinct.append (List.nodup_singleton _) (by simpa using hfresh)
      · rw [List.map_append]
        exact h.sessions.append (List.nodup_singleton _) (by simpa using hnew)
      · intro id'
        rw [List.map_append, List.mem_append, ← h.used id']
        by_cases heq : id' = threadId
        · subst heq
          simp
        · simp [heq]
    · cases hid
  · cases hs
    exact h

/-- A session that is the only one with its thread id takes it along. -/
theorem GspInvariant.eraseSession {data : SessionData} (h : GspInvariant s)
    (hdata : data ∈ s.connectedSessions) (hsession : data.session = session)
    (hactive : s.activeThreadId ≠ data.threadId) : GspInvariant (s.eraseSession session) := by
  have hkept : ∀ other ∈ s.connectedSessions, other.threadId ≠ data.threadId →
      other.session ≠ session := by
    intro other hother hne heq
    have hsame := List.inj_on_of_nodup_map h.sessions hother hdata (heq.trans hsession.symm)
    exact hne (congrArg SessionData.threadId hsame)
  refine ⟨⟨?_, ?_⟩, ?_, ?_⟩
  · apply h.right.active.imp_right
    rintro ⟨other, hother, heq⟩
    refine ⟨other, List.mem_filter.mpr ⟨hother, ?_⟩, heq⟩
    apply decide_eq_true
    apply hkept other hother
    intro hid
    exact hactive (heq.trans (congrArg Fin.val hid))
  · exact h.right.distinct.sublist (List.filter_sublist.map _)
  · exact h.sessions.sublist (List.filter_sublist.map _)
  · intro id
    have hgone : (s.connectedSessions.filter fun data => data.session = session).any
        (fun data => data.threadId = id) = true ↔ data.threadId = id := by
      rw [List.any_eq_true]
      constructor
      · rintro ⟨other, hother, heq⟩
        obtain ⟨hmem, hsame⟩ := List.mem_filter.mp hother
        have hother : other = data := List.inj_on_of_nodup_map h.sessions hmem hdata
          ((of_decide_eq_true hsame).trans hsession.symm)
        rw [← hother]
        exact of_decide_eq_true heq
      · intro heq
        exact ⟨data, List.mem_filter.mpr ⟨hdata, decide_eq_true hsession⟩, decide_eq_true heq⟩
    unfold GspGpu.eraseSession
    dsimp only
    rw [Bool.and_eq_true, h.used id, Bool.not_eq_true', Bool.eq_false_iff, ne_eq, hgone]
    constructor
    · rintro ⟨hmem, hne⟩
      obtain ⟨other, hother, rfl⟩ := List.mem_map.mp hmem
      apply List.mem_map_of_mem
      exact List.mem_filter.mpr ⟨hother, decide_eq_true (hkept other hother (Ne.symm hne))⟩
    · intro hmem
      obtain ⟨other, hother, rfl⟩ := List.mem_map.mp hmem
      obtain ⟨hconnected, hne⟩ := List.mem_filter.mp hother
      refine ⟨List.mem_map_of_mem hconnected, ?_⟩
      intro hid
      have hsame := List.inj_on_of_nodup_map h.right.distinct hdata hconnected hid
      exact of_decide_eq_true hne (hsame ▸ hsession)

theorem GspInvariant.withActive (h : GspInvariant s) {active : ℕ}
    (hactive : active = noThread ∨ ∃ data ∈ s.connectedSessions, active = data.threadId) :
    GspInvariant { s with activeThreadId := active } :=
  ⟨⟨hactive, h.right.distinct⟩, h.sessions, h.used⟩

theorem noThread_ne (t : Fin MaxGSPThreads) : noThread ≠ t := by
  have := t.isLt
  unfold noThread MaxGSPThreads at *
  omega

theorem GspInvariant.clientDisconnected (h : GspInvariant s)
    (hs : s.clientDisconnected session = .ok s') : GspInvariant s' := by
  unfold GspGpu.clientDisconnected GspGpu.releaseRightOf at hs
  obtain ⟨data, hdata, hs⟩ := bind_eq_ok.mp hs
  obtain ⟨hmem, hsession⟩ := mem_of_getSessionData hdata
  split at hs
  · obtain ⟨t, ht, hs⟩ := bind_eq_ok.mp hs
    obtain ⟨-, -, ht⟩ := bind_eq_ok.mp ht
    cases ht
    cases hs
    exact (h.withActive (Or.inl rfl)).eraseSession hmem hsession (noThread_ne _)
  · next hne =>
    cases hs
    exact h.eraseSession hmem hsession hne

theorem GspInvariant.acquireGpuRight (h : GspInvariant s) {blocking : Bool}
    {r : RightResult × GspGpu} (hr : s.acquireGpuRight session blocking = .ok r) :
    GspInvariant r.2 := by
  unfold GspGpu.acquireGpuRight at hr
  obtain ⟨data, hdata, hr⟩ := bind_eq_ok.mp hr
  obtain ⟨hmem, -⟩ := mem_of_getSessionData hdata
  have hacquired := h.withActive (Or.inr ⟨data, hmem, rfl⟩)
  split at hr
  · cases hr
    exact h
  · split at hr
    · obtain ⟨-, -, hr⟩ := bind_eq_ok.mp hr
      cases hr
      exact hacquired
    · split at hr
      · cases hr
        exact h
      · cases hr
        exact hacquired

theorem GspInvariant.releaseRight (h : GspInvariant s) (hs : s.releaseRight session = .ok s') :
    GspInvariant s' := by
  unfold GspGpu.releaseRight GspGpu.releaseRightOf at hs
  obtain ⟨data, -, hs⟩ := bind_eq_ok.mp hs
  obtain ⟨-, -, hs⟩ := bind_eq_ok.mp hs
  cases hs
  exact h.withActive (Or.inl rfl)

/-- The queue of a session is registered or not, and the session stays what it is. -/
theorem map_modifySession {β : Type} (f : SessionData → SessionData) (g : SessionData → β)
    (hf : ∀ data, g (f data) = g data) (sessions : List SessionData) :
    (sessions.map fun other => if other.session = session then f other else other).map g =
      sessions.map g := by
  rw [List.map_map]
  apply List.map_congr_left
  intro other _
  dsimp only [Function.comp]
  split
  · exact hf other
  · rfl

theorem signalInterruptForThread_sessions (id : InterruptId) (threadId : ℕ) :
    (s.signalInterruptForThread id threadId).connectedSessions = s.connectedSessions ∧
      (s.signalInterruptForThread id threadId).activeThreadId = s.activeThreadId ∧
      (s.signalInterruptForThread id threadId).usedThreadIds = s.usedThreadIds := by
  unfold GspGpu.signalInterruptForThread GspGpu.updateFrameBuffer
  split
  · exact ⟨rfl, rfl, rfl⟩
  · split
    · exact ⟨rfl, rfl, rfl⟩
    · dsimp only
      split
      · split <;> exact ⟨rfl, rfl, rfl⟩
      · exact ⟨rfl, rfl, rfl⟩

theorem GspInvariant.signalInterruptForThread (h : GspInvariant s) (id : InterruptId)
    (threadId : ℕ) : GspInvariant (s.signalInterruptForThread id threadId) := by
  obtain ⟨hsessions, hactive, hused⟩ := signalInterruptForThread_sessions (s := s) id threadId
  exact h.congr hactive hused (by rw [hsessions]) (by rw [hsessions])

theorem GspInvariant.signalInterrupt (h : GspInvariant s) (id : InterruptId) :
    GspInvariant (s.signalInterrupt id) := by
  unfold GspGpu.signalInterrupt
  split
  · generalize List.range MaxGSPThreads = ids
    induction ids generalizing s with
    | nil => exact h
    | cons threadId ids ih => exact ih (h.signalInterruptForThread id threadId)
  · split
    · exact h
    · exact h.signalInterruptForThread id _

/-- Every step keeps the sessions and the right in agreement. -/
theorem GspInvariant.step {e : GspEvent} (h : GspInvariant s) (hs : gspStep s e = .ok s') :
    GspInvariant s' := by
  cases e with
  | connect session =>
    dsimp only [gspStep] at hs
    split at hs
    · cases hs
      exact h
    · next hnew => exact h.connect hnew hs
  | disconnect session => exact h.clientDisconnected hs
  | register session event =>
    obtain ⟨⟨r, t⟩, ht, hs⟩ := bind_eq_ok.mp hs
    obtain ⟨data, -, ht⟩ := bind_eq_ok.mp ht
    cases hs
    cases ht
    exact h.congr rfl rfl
      (map_modifySession (fun data => { data with interruptEvent := some event, registered := true })
        _ (fun _ => rfl) _)
      (map_modifySession (fun data => { data with interruptEvent := some event, registered := true })
        _ (fun _ => rfl) _)
  | unregister session =>
    obtain ⟨data, -, hs⟩ := bind_eq_ok.mp hs
    cases hs
    exact h.congr rfl rfl
      (map_modifySession (fun data => { data with interruptEvent := none, registered := false })
        _ (fun _ => rfl) _)
      (map_modifySession (fun data => { data with interruptEvent := none, registered := false })
        _ (fun _ => rfl) _)
  | tryAcquireRight session =>
    obtain ⟨r, hr, hs⟩ := bind_eq_ok.mp hs
    cases hs
    exact h.acquireGpuRight hr
  | acquireRight session =>
    obtain ⟨r, hr, hs⟩ := bind_eq_ok.mp hs
    cases hs
    exact h.acquireGpuRight hr
  | releaseRight session => exact h.releaseRight hs
  | signal id =>
    cases hs
    exact h.signalInterrupt id
  | write memory =>
    cases hs
    exact h.congr rfl rfl rfl rfl
  | trigger e rounds =>
    obtain ⟨r, hr, hs⟩ := bind_eq_ok.mp hs
    obtain ⟨l, -, hr⟩ := bind_eq_ok.mp hr
    cases hr
    cases hs
    exact h.congr rfl rfl rfl rfl

end Sessions

/-! ## Calls -/

section Calls

variable {s : GspGpu} {e : Execution}

theorem getCommandBuffer_eq (t : Fin MaxGSPThreads) : getCommandBuffer t = 0x800 + 0x200 * t := by
  have := t.isLt
  unfold getCommandBuffer
  unfold MaxGSPThreads at this
  rw [u32_of_lt (by omega), Nat.mul_comm]

/-- A call that fits does what it should. -/
theorem triggerRight_of_fits (h : GspInvariant s) (hfits : TriggerFits s e) : TriggerRight s e := by
  obtain ⟨hholder, hring, hquiet⟩ := hfits
  obtain ⟨data, hdata, hactive⟩ := h.right.active.resolve_left hholder
  have hoffset := getCommandBuffer_eq data.threadId
  refine ⟨data, hdata, hactive, by rw [hactive, hoffset], ?_, length_pending_le hring, ?_⟩
  · rw [hactive, hoffset]
    have := data.threadId.isLt
    unfold SHARED_MEMORY_SIZE
    unfold MaxGSPThreads at this
    omega
  · generalize getCommandBuffer s.activeThreadId = offset at hring hquiet ⊢
    have hends : ∀ l', TriggerLoop.round e offset { memory := s.memory } = .ok (l', false) →
        l'.executed = [] → pendingCommands (s.memory.commandBuffer offset) = [] →
        ∃ n l, (∀ rounds, n ≤ rounds →
            TriggerLoop.run e offset rounds { memory := s.memory } = .ok l) ∧
          l.executed = pendingCommands (s.memory.commandBuffer offset) := by
      intro l' hround hnone hpending
      exact ⟨1, l', fun rounds hrounds => run_of_end hround hrounds, by rw [hnone, hpending]⟩
    by_cases hstop : (s.memory.commandBuffer offset).shouldStop ≠ 0
    · obtain ⟨l', hround, hnone⟩ := round_stopped e
        (l := { memory := s.memory }) hstop
      exact hends l' hround hnone (if_pos (Or.inl hstop))
    by_cases hstatus : (s.memory.commandBuffer offset).status = STATUS_STOPPED
    · obtain ⟨l', hround, hnone⟩ := round_status e
        (l := { memory := s.memory }) hstatus
      exact hends l' hround hnone (if_pos (Or.inr hstatus))
    have hpending : pendingCommands (s.memory.commandBuffer offset) =
        throughStop (ringCommands (s.memory.commandBuffer offset)) :=
      if_neg (not_or.mpr ⟨hstop, hstatus⟩)
    by_cases hnumber : (s.memory.commandBuffer offset).numberCommands = 0
    · refine hends _ (round_empty hnumber) rfl ?_
      rw [hpending, ringCommands, hnumber]
      rfl
    · have hindex : (s.memory.commandBuffer offset).index.toNat < 0xF := by
        rcases hring with hzero | hset | hset | ⟨hlt, -⟩
        · exact absurd hzero hnumber
        · exact absurd hset hstop
        · exact absurd hset hstatus
        · exact hlt
      obtain ⟨l, hrun, hexecuted⟩ := run_executes (e := e) (l := { memory := s.memory }) rfl rfl
        (not_not.mp hstop) hstatus hindex (by
          intro n c hc memory
          rw [hpending] at hquiet
          simpa using hquiet n c hc memory)
      refine ⟨_, l, hrun, ?_⟩
      rw [hexecuted, hpending]
      rfl

end Calls

/-- In every run the right is nobody's or that of a connected session, and no two sessions have one
thread id. A call executes exactly the commands that are to be executed, in the order of the ring
and each once, in every run whose calls are made while somebody holds the right, with an index of a
slot, a count that is no larger than the ring unless a command in it stops it, and commands that do
not write to the ring. -/
theorem commandQueue_right (memory : SharedMemory) (is : List GspEvent) :
    AllAlong gspStep RightOfSession { memory } is ∧
      (EveryStep gspStep (OnTrigger TriggerFits) { memory } is →
        EveryStep gspStep (OnTrigger TriggerRight) { memory } is) := by
  have hstart : GspInvariant { memory } :=
    ⟨⟨Or.inl rfl, List.nodup_nil⟩, List.nodup_nil, fun id => by simp⟩
  generalize ({ memory } : GspGpu) = s at hstart
  induction is generalizing s with
  | nil => exact ⟨hstart.right, fun _ => trivial⟩
  | cons i is ih =>
    refine ⟨⟨hstart.right, fun t ht => (ih t (hstart.step ht)).1⟩, ?_⟩
    rintro ⟨hfits, hrest⟩
    refine ⟨?_, fun t ht => (ih t (hstart.step ht)).2 (hrest t ht)⟩
    cases i with
    | trigger e rounds => exact triggerRight_of_fits hstart hfits
    | _ => trivial

/-- Commands that do nothing to the shared memory. -/
def quietExecution : Execution where
  execute _ _ memory := memory
  delayGameRenderThread := 0

/-- Memory in which the ring of the first thread has so many commands from an index on, of which the
last slot's stops the ring. -/
def ringMemory (index numberCommands : UInt8) : SharedMemory :=
  SharedMemory.zeroed.setCommandBuffer 0x800
    ⟨index, numberCommands, 0, 0, fun i => ⟨0, if i.val = 14 then 1 else 0, []⟩⟩

theorem commandQueue_right_roundTheRing :
    EveryStep gspStep (OnTrigger TriggerRight) { memory := ringMemory 13 9 }
      [.connect 0, .acquireRight 0, .trigger quietExecution 3] := by
  apply (commandQueue_right _ _).2
  refine ⟨trivial, fun s₁ h₁ => ⟨trivial, fun s₂ h₂ => ⟨?_, fun _ _ => trivial⟩⟩⟩
  cases Except.ok.inj ((rfl : gspStep _ _ = .ok _).symm.trans h₁)
  cases Except.ok.inj ((rfl : gspStep _ _ = .ok _).symm.trans h₂)
  refine ⟨by decide, ?_, fun _ _ _ _ => rfl⟩
  exact Or.inr (Or.inr (Or.inr ⟨by decide, Or.inl (by decide)⟩))

/-- An index behind the last slot is used as it is. -/
theorem commandQueue_wrongIndex :
    ¬ ∀ (memory : SharedMemory) (is : List GspEvent),
      EveryStep gspStep (OnTrigger TriggerRight) { memory } is := by
  intro hall
  have h := hall (ringMemory 15 1) [.connect 0, .acquireRight 0, .trigger quietExecution 3]
  obtain ⟨_, -, -, -, -, -, n, l, hrun, -⟩ := ((h.2 _ rfl).2 _ rfl).1
  have hround : TriggerLoop.round quietExecution 0x800 { memory := ringMemory 15 1 } =
      .error .undefined := rfl
  have herror : TriggerLoop.run quietExecution 0x800 (n + 1) { memory := ringMemory 15 1 } =
      .error .undefined := by
    rw [TriggerLoop.run, hround, error_bind]
  cases herror.symm.trans (hrun (n + 1) (Nat.le_succ n))

end Borked3DS.Analysis
