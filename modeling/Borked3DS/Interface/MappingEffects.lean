import Borked3DS.Interface.AddressSpace
import Borked3DS.Model.ObjectCreation
import Borked3DS.Model.ProcessMemory

/-!
# What mapping does to the memory around it

Mapping new memory is meant to leave the permissions of everything else alone. A new mapping is
first mapped for reading and writing, then fused with the areas that it continues, and only then
protected; what it was fused with is protected along with it.
-/

set_option autoImplicit false

namespace Borked3DS.Interface

open Borked3DS.Library Borked3DS.Model IntervalSet

/-- The address spaces that the calls of the memory manager lead to, whatever the rasterizer has
marked in between. -/
inductive ReachableSpace : VMManager → Prop
  | reset {isCached : ℕ → Bool} {m s : VMManager} (h : m.reset isCached = .ok s) : ReachableSpace s
  | call {isCached : ℕ → Bool} {s s' : VMManager} {call : VMCall} (hs : ReachableSpace s)
      (h : call.step isCached s = .ok s') : ReachableSpace s'

/-- The permissions of an address. -/
def permissionsAt (vm : VMManager) (p : ℕ) : Option VMAPermission :=
  (vm.vmaMap.view p).map PageView.permissions

/-- Every address outside of a set keeps its permissions. -/
def KeepsPermissions (vm vm' : VMManager) (changed : Set ℕ) : Prop :=
  ∀ p ∉ changed, permissionsAt vm' p = permissionsAt vm p

/-- The view of an address that is mapped in a state, for reading and writing, at a host byte. -/
def readWriteView (state : MemoryState) (host : ℕ) : PageView where
  type := .backingMemory
  permissions := .readWrite
  meminfoState := state
  backing := some host

/-- Memory mapped in `state` at `t`, with the host byte `host` behind it, would continue the memory
before it. -/
def JoinsBefore (f : PageMap) (state : MemoryState) (t host : ℕ) : Prop :=
  ∃ before, 0 < t ∧ before + 1 = host ∧ f (t - 1) = some (readWriteView state before)

/-- Memory that ends before the address `u` and the host byte `host` would be continued there. -/
def JoinsAfter (f : PageMap) (state : MemoryState) (u host : ℕ) : Prop :=
  f u = some (readWriteView state host)

/-- The length of a list of blocks. -/
def blocksSize (blocks : List (MemoryRef × ℕ)) : ℕ := (blocks.map Prod.snd).sum

/-- The host byte behind an offset into blocks that are mapped one after the other. -/
def hostAt : List (MemoryRef × ℕ) → ℕ → Option ℕ
  | [], _ => none
  | block :: blocks, i =>
      if i < block.2 then some (block.1.getPtr + i) else hostAt blocks (i - block.2)

/-- Blocks mapped one after the other from `t` on would be fused with no memory outside: the first
one continues nothing, and nothing continues the last one. -/
def StandsApart (f : PageMap) (state : MemoryState) (t : ℕ) (blocks : List (MemoryRef × ℕ)) :
    Prop :=
  (∀ first ∈ blocks.head?, ¬ JoinsBefore f state t first.1.getPtr) ∧
    ∀ last ∈ blocks.getLast?,
      ¬ JoinsAfter f state (t + blocksSize blocks) (last.1.getPtr + last.2)

/-- An alias of `[source, source + n)` at `target` would be fused with no memory outside. -/
def AliasStandsApart (f : PageMap) (state : MemoryState) (target source n : ℕ) : Prop :=
  (∀ v host, f source = some v → v.backing = some host → ¬ JoinsBefore f state target host) ∧
    ∀ v host, f (source + n - 1) = some v → v.backing = some host →
      ¬ JoinsAfter f state (target + n) (host + 1)

section Calls

variable {S : Type} [IntervalSet S]

/-- The memory behind the intervals of an allocation. -/
def fcramBlocks (k : KernelSystem S) (allocated : List (ℕ × ℕ)) : List (MemoryRef × ℕ) :=
  allocated.map fun i => ({ backingMem := some k.fcram, offset := i.1 }, i.2 - i.1)

/-- The memory that the region of a process gives to a heap allocation. -/
def heapBlocks (k : KernelSystem S) (process : Process S) (size : ℕ) : List (MemoryRef × ℕ) :=
  match (k.memoryRegions process.memoryRegion).heapAllocate size with
  | .ok (_, allocated) => fcramBlocks k (intervals allocated)
  | .error _ => []

/-- Where a linear allocation at `target` goes: at `target`, or where the region has room. -/
def linearTarget (k : KernelSystem S) (process : Process S) (kernelVersion target size : ℕ) : ℕ :=
  if target = 0 then
    match (k.memoryRegions process.memoryRegion).linearAllocate size with
    | .ok (_, some offset) => u32 (offset + linearHeapAreaAddress kernelVersion)
    | _ => 0
  else target

/-- The memory behind a linear allocation. -/
def linearBlock (k : KernelSystem S) (kernelVersion target size : ℕ) : MemoryRef × ℕ :=
  ({ backingMem := some k.fcram
     offset := u32Sub target (linearHeapAreaAddress kernelVersion) }, size)

/-- The shared memory that the kernel makes: for an owner, without one, and for an applet. -/
inductive CreatedSharedMemory (m : SharedMemory S) : Prop
  | owned {k k' : KernelSystem S} {owner permissions otherPermissions id : ℕ}
      {size address : UInt32} {region : MemoryRegion}
      (hs : ∀ process, k.processes[owner]? = some process → ReachableSpace process.vmManager)
      (h : KernelSystem.createSharedMemory owner size.toNat permissions otherPermissions
        address.toNat region k = .ok (.ok id, k'))
      (hm : k'.objects.getLast? = some (id, .sharedMemory m))
  | unowned {k k' : KernelSystem S} {permissions otherPermissions : ℕ} {size : UInt32}
      {region : MemoryRegion}
      (h : KernelSystem.createUnownedSharedMemory size.toNat permissions otherPermissions region k =
        .ok (m, k'))
  | forApplet {k k' : KernelSystem S} {offset permissions otherPermissions : ℕ} {size : UInt32}
      (h : KernelSystem.createSharedMemoryForApplet offset size.toNat permissions
        otherPermissions k = .ok (m, k'))

/-- A process keeps the permissions of every address outside of a set. -/
def KeepsOthers (k' : KernelSystem S) (p : ℕ) (process : Process S) (changed : Set ℕ) : Prop :=
  ∀ process', k'.processes[p]? = some process' →
    KeepsPermissions process.vmManager process'.vmManager changed

end Calls

end Borked3DS.Interface
