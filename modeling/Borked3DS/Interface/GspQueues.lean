import Borked3DS.Library.RingBuffer
import Borked3DS.Model.GspGpu

/-!
# What the queues in the shared memory of GSP promise

The interrupts that threads are told of, and the commands that they leave for execution.
-/

set_option autoImplicit false

namespace Borked3DS.Interface

open Borked3DS.Library Borked3DS.Model Borked3DS.Model.GSP

/-!
## What the relay queues owe to the threads

Interrupts are signalled while sessions come and go, and the threads take interrupts off their
queues whenever they get to it. The logs keep what was signalled to each thread and what it has
read.
-/

/-- The interrupts that wait in a queue, the oldest first. -/
def unread (q : InterruptRelayQueue) : List InterruptId :=
  ringContents 0x34 (fun i => q.slot (Fin.ofNat 0x34 i)) q.index.toNat q.numberInterrupts.toNat

/-- A thread takes the oldest interrupt off its queue, if there is one. -/
def popInterrupt (q : InterruptRelayQueue) : Option (InterruptId × InterruptRelayQueue) :=
  if q.numberInterrupts = 0 then none
  else some (q.slot (Fin.ofNat 0x34 q.index.toNat), { q with
    index := UInt8.ofNat ((q.index.toNat + 1) % 0x34)
    numberInterrupts := q.numberInterrupts - 1 })

/-- The service, with what was signalled to each thread and what it has read. -/
structure RelayState where
  gsp : GspGpu
  signalled : Table MaxGSPThreads (List InterruptId) := fun _ => []
  read : Table MaxGSPThreads (List InterruptId) := fun _ => []

/-- What happens to the relay queues. -/
inductive RelayEvent
  | connect (session : ℕ)
  | disconnect (session : ℕ)
  | register (session event : ℕ)
  | unregister (session : ℕ)
  | tryAcquireRight (session : ℕ)
  | acquireRight (session : ℕ)
  | releaseRight (session : ℕ)
  | signal (interruptId : InterruptId)
  | pop (threadId : Fin MaxGSPThreads)

/-- A session of the thread has registered a queue, and an event for it. -/
def Listens (s : GspGpu) (t : Fin MaxGSPThreads) : Prop :=
  ∃ data, s.findRegisteredThreadData t = some data ∧ data.interruptEvent ≠ none

instance (s : GspGpu) (t : Fin MaxGSPThreads) : Decidable (Listens s t) :=
  match h : s.findRegisteredThreadData t with
  | none => isFalse fun ⟨data, hdata, _⟩ => by
      rw [h] at hdata
      cases hdata
  | some data => decidable_of_iff (data.interruptEvent ≠ none)
      ⟨fun hevent => ⟨data, h, hevent⟩, fun ⟨data', hdata, hevent⟩ => by
        rw [h] at hdata
        cases hdata
        exact hevent⟩

/-- An interrupt of a screen is for every thread that listens, another one for the thread that
holds the right. -/
def Receives (s : GspGpu) (id : InterruptId) (t : Fin MaxGSPThreads) : Prop :=
  (id.screen ≠ none ∨ s.activeThreadId = t) ∧ Listens s t

instance (s : GspGpu) (id : InterruptId) (t : Fin MaxGSPThreads) : Decidable (Receives s id t) :=
  inferInstanceAs (Decidable (_ ∧ _))

def relayStep (s : RelayState) : RelayEvent → Exec RelayState
  | .connect session => do
      let gsp ← s.gsp.connect session
      pure { s with gsp }
  | .disconnect session => do
      let gsp ← s.gsp.clientDisconnected session
      pure { s with gsp }
  | .register session event => do
      let (_, gsp) ← s.gsp.registerInterruptRelayQueue session event
      pure { s with gsp }
  | .unregister session => do
      let gsp ← s.gsp.unregisterInterruptRelayQueue session
      pure { s with gsp }
  | .tryAcquireRight session => do
      let (_, gsp) ← s.gsp.tryAcquireRight session
      pure { s with gsp }
  | .acquireRight session => do
      let (_, gsp) ← s.gsp.acquireRight session
      pure { s with gsp }
  | .releaseRight session => do
      let gsp ← s.gsp.releaseRight session
      pure { s with gsp }
  | .signal id => .ok { s with
      gsp := s.gsp.signalInterrupt id
      signalled := fun t =>
        if Receives s.gsp id t then s.signalled t ++ [id] else s.signalled t }
  | .pop t =>
      match popInterrupt (s.gsp.memory.relayQueue t) with
      | none => .ok s
      | some (id, queue) => .ok { s with
          gsp := { s.gsp with memory := { s.gsp.memory with
            relayQueue := Function.update s.gsp.memory.relayQueue t queue } }
          read := Function.update s.read t (s.read t ++ [id]) }

/-- A queue has room for what is in it, and nothing that was signalled to its thread is lost or out
of order: what has been read, and behind it what waits. -/
structure Relayed (q : InterruptRelayQueue) (signalled read : List InterruptId) : Prop where
  index_lt : q.index.toNat < 0x34
  number_le : q.numberInterrupts.toNat ≤ 0x34
  conserved : signalled = read ++ unread q

/-- The queues of all threads. -/
def NothingLost (s : RelayState) : Prop :=
  ∀ t, Relayed (s.gsp.memory.relayQueue t) (s.signalled t) (s.read t)

/-- The queues are as at the start: no interrupt waits and none has been signalled. -/
structure RelayStart (s : RelayState) : Prop where
  index_lt : ∀ t, (s.gsp.memory.relayQueue t).index.toNat < 0x34
  number_eq : ∀ t, (s.gsp.memory.relayQueue t).numberInterrupts = 0
  signalled_eq : ∀ t, s.signalled t = []
  read_eq : ∀ t, s.read t = []

/-- A thread that gets an interrupt has a free slot for it. -/
def SignalFits (s : RelayState) : RelayEvent → Prop
  | .signal id => ∀ t, Receives s.gsp id t →
      (s.gsp.memory.relayQueue t).numberInterrupts.toNat < 0x34
  | _ => True

instance (s : RelayState) (e : RelayEvent) : Decidable (SignalFits s e) := by
  cases e <;> unfold SignalFits <;> infer_instance

/-!
## What a thread may leave to the service to execute

Sessions come and go, acquire and release the right to the GPU, write what they like to the shared
memory, and have the service execute the commands in the ring of the one that holds the right.
-/

/-! ### Runs -/

/-- What happens to the service. A game may write anything to the shared memory. -/
inductive GspEvent
  | connect (session : ℕ)
  | disconnect (session : ℕ)
  | register (session event : ℕ)
  | unregister (session : ℕ)
  | tryAcquireRight (session : ℕ)
  | acquireRight (session : ℕ)
  | releaseRight (session : ℕ)
  | signal (interruptId : InterruptId)
  | write (memory : SharedMemory)
  | trigger (e : Execution) (rounds : ℕ)

def gspStep (s : GspGpu) : GspEvent → Exec GspGpu
  | .connect session =>
      -- A session connects when it is made, and not again.
      if session ∈ s.connectedSessions.map (·.session) then .ok s else s.connect session
  | .disconnect session => s.clientDisconnected session
  | .register session event => do
      let (_, s) ← s.registerInterruptRelayQueue session event
      pure s
  | .unregister session => s.unregisterInterruptRelayQueue session
  | .tryAcquireRight session => do
      let (_, s) ← s.tryAcquireRight session
      pure s
  | .acquireRight session => do
      let (_, s) ← s.acquireRight session
      pure s
  | .releaseRight session => s.releaseRight session
  | .signal id => .ok (s.signalInterrupt id)
  | .write memory => .ok { s with memory }
  | .trigger e rounds => do
      let (_, s) ← s.triggerCmdReqQueue e rounds
      pure s

/-- The right is nobody's or that of a session that is connected, and no two sessions have one
thread id. -/
structure RightOfSession (s : GspGpu) : Prop where
  active : s.activeThreadId = noThread ∨
    ∃ data ∈ s.connectedSessions, s.activeThreadId = data.threadId
  distinct : (s.connectedSessions.map (·.threadId)).Nodup

/-! ### Commands -/

/-- The commands in the ring, the next one first. -/
def ringCommands (b : CommandBuffer) : List Command :=
  ringContents 0xF (fun i => b.commands (Fin.ofNat 0xF i)) b.index.toNat b.numberCommands.toNat

/-- The commands up to the first one with its stop byte set. -/
def throughStop : List Command → List Command
  | [] => []
  | c :: cs => if c.stop ≠ 0 then [c] else c :: throughStop cs

/-- The commands that are to be executed: none while the ring is stopped. -/
def pendingCommands (b : CommandBuffer) : List Command :=
  if b.shouldStop ≠ 0 ∨ b.status = STATUS_STOPPED then [] else throughStop (ringCommands b)

/-- The call takes the commands from the buffer of a session that holds the right, which lies in the
shared memory. It executes those that are to be executed in their order, none of the slots twice,
and ends. -/
def TriggerRight (s : GspGpu) (e : Execution) : Prop :=
  ∃ data ∈ s.connectedSessions, s.activeThreadId = data.threadId ∧
    getCommandBuffer s.activeThreadId = 0x800 + 0x200 * data.threadId ∧
    getCommandBuffer s.activeThreadId + 0x200 ≤ SHARED_MEMORY_SIZE ∧
    (pendingCommands (s.memory.commandBuffer (getCommandBuffer s.activeThreadId))).length ≤ 0xF ∧
    ∃ n l, (∀ rounds, n ≤ rounds →
        TriggerLoop.run e (getCommandBuffer s.activeThreadId) rounds { memory := s.memory } =
          .ok l) ∧
      l.executed = pendingCommands (s.memory.commandBuffer (getCommandBuffer s.activeThreadId))

/-- There is nothing to execute, or the index is one of a slot, and the ring does not come round to
a slot again before it is empty or stopped. -/
def RingFits (b : CommandBuffer) : Prop :=
  b.numberCommands = 0 ∨ b.shouldStop ≠ 0 ∨ b.status = STATUS_STOPPED ∨
    b.index.toNat < 0xF ∧ (b.numberCommands.toNat ≤ 0xF ∨ ∃ i, (b.commands i).stop ≠ 0)

/-- Commands do not write to the ring that they are in. -/
def LeavesRing (e : Execution) (offset : ℕ) (commands : List Command) : Prop :=
  ∀ n c, commands[n]? = some c → ∀ memory,
    (e.execute n c memory).commandBuffer offset = memory.commandBuffer offset

/-- Somebody holds the right, and the ring and what is in it are as they should be. -/
def TriggerFits (s : GspGpu) (e : Execution) : Prop :=
  let offset := getCommandBuffer s.activeThreadId
  s.activeThreadId ≠ noThread ∧ RingFits (s.memory.commandBuffer offset) ∧
    LeavesRing e offset (pendingCommands (s.memory.commandBuffer offset))

/-- What a step has to do with a trigger. -/
def OnTrigger (p : GspGpu → Execution → Prop) (s : GspGpu) : GspEvent → Prop
  | .trigger e _ => p s e
  | _ => True

end Borked3DS.Interface
