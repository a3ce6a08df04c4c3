import Borked3DS.Library.Run

/-!
# Faults, result codes and memory references

What every part of the kernel model shares: how a call ends when it does not return, the
result codes it returns, 32-bit arithmetic, the address map, and references to host memory
(`memory_ref.h`).
-/

set_option autoImplicit false

namespace Borked3DS.Model

open Borked3DS.Library

/-- The `ASSERT`s of the modelled functions. -/
inductive AssertSite
  | vmLocked | nullBacking | carveUnaligned | carveRange | carvedSize | splitOffset
  | splitMergeable | notAdjacent | refOutOfRange | pageUnaligned | pageOutOfRange
  | unmapMerged | regionLocked | freeIntersects | invalidPriority | objectUnavailable
  | wakingWhileWaiting | wakeupCallbackSet | inconsistentWaiter | readyToRun | ownerProcess
  | timingCore | fcramOffset | idealProcessor | sharedMemorySpace | backingBlocks
  | romfsHeaderLength | directoryTableSize | fileTableSize | readOutOfBound | relocationType
  | networkOui | networkOuiType | applicationDataSize | networkNodes | secondTagLength
  | beaconOui | beaconTagId | hostMaxNodes | networkFull | connectionSlots | managementFrame
  | associationStatus | channelBound | sendBufferSize | commandSize | handleCount | handleCreated
  | missingObject | incomingHandle | staticBufferSize | mappedPages | unsolicitedBuffer | guardPages
  | bufferUnmapped | guardState | unwrappedError | mappingSucceeded | unmappingSucceeded
  | tileAligned | lutIndex | intUniform | pendingRequest
  | gspThreads | sessionData | gpuRight | wrongGpuRight | movieSampleLeft | dequeueWithData
  | rateMultiplier | fillInterval | regionOwnerType | regionOwnerRange | regionOwnerStride
  | regionOwnerValid | configFileOpened | applicationAttributes | registeredApplet
  | appStartParameters | activeSlot | inconsistentArbiter | singleLevel | levelStride | oneRow
  | surfaceLevel | mipLevels
  deriving DecidableEq, Repr

/-- How a call ends without returning: an `ASSERT` stops the emulator, the call does what the
language leaves undefined (dereferencing or stepping past `end()`, indexing an array out of its
bounds), it throws `std::out_of_range`, or it is still running when it has used up the rounds that
it was given. -/
inductive Fault
  | assertion (site : AssertSite)
  | undefined
  | outOfRange
  | unfinished
  deriving DecidableEq, Repr

/-- A computation that may fault. -/
abbrev Exec := Except Fault

/-- `ASSERT(c)`. -/
def assert (c : Prop) [Decidable c] (site : AssertSite) : Exec Unit :=
  if c then .ok () else .error (.assertion site)

@[simp] theorem assert_eq_ok {c : Prop} [Decidable c] {site : AssertSite} {u : Unit} :
    assert c site = .ok u ↔ c := by
  unfold assert; split <;> simp_all

/-- The result codes of `errors.h` that the modelled functions return. -/
inductive Result
  | success
  | outOfHandles | wrongPermission | invalidCombination | invalidCombinationKernel
  | misalignedAddress | misalignedSize
  | outOfMemory | outOfHeapMemory | invalidAddress | invalidAddressState | invalidHandle
  | outOfRange | outOfRangeKernel | wrongLockingThread | invalidResultValue | commandTooLarge
  | notAuthorized | outOfThreads | outOfMutexes | outOfSemaphores | outOfEvents | outOfTimers
  | outOfSharedMems | outOfAddressArbiters | timeout | invalidEnumValueFnd
  deriving DecidableEq, Repr

/-- `ResultVal<T>`: a value, or the code of the failure. -/
abbrev ResultVal := Except Result

/-- A 32-bit machine word holds values modulo `2 ^ 32`. -/
def u32 (x : ℕ) : ℕ := x % 2 ^ 32

theorem u32_of_lt {x : ℕ} (h : x < 2 ^ 32) : u32 x = x := Nat.mod_eq_of_lt h

theorem u32_lt (x : ℕ) : u32 x < 2 ^ 32 := Nat.mod_lt _ (by decide)

theorem u32_le (x : ℕ) : u32 x ≤ x := Nat.mod_le _ _

/-- Subtraction of 32-bit words. -/
def u32Sub (x y : ℕ) : ℕ := u32 (x + 2 ^ 32 - y)

theorem u32Sub_of_le {x y : ℕ} (h : y ≤ x) (hx : x < 2 ^ 32) : u32Sub x y = x - y := by
  unfold u32Sub u32
  omega

namespace Memory

/-! ## The constants of `memory.h` -/

def PAGE_SIZE : ℕ := 0x1000
def PAGE_TABLE_NUM_ENTRIES : ℕ := 2 ^ 20
def FCRAM_N3DS_SIZE : ℕ := 0x10000000
def IPC_MAPPING_VADDR : ℕ := 0x04000000
def IPC_MAPPING_SIZE : ℕ := 0x04000000
def HEAP_VADDR : ℕ := 0x08000000
def HEAP_VADDR_END : ℕ := 0x10000000
def PROCESS_IMAGE_VADDR : ℕ := 0x00100000
def SHARED_MEMORY_VADDR_END : ℕ := 0x14000000
def TLS_AREA_VADDR : ℕ := 0x1FF82000
def TLS_ENTRY_SIZE : ℕ := 0x200
def LINEAR_HEAP_VADDR : ℕ := 0x14000000
def NEW_LINEAR_HEAP_VADDR : ℕ := 0x30000000

end Memory

/-- An address or size is a multiple of the page size: `(x & BORKED3DS_PAGE_MASK) == 0`. -/
def pageAligned (x : ℕ) : Prop := x % Memory.PAGE_SIZE = 0

instance (x : ℕ) : Decidable (pageAligned x) := inferInstanceAs (Decidable (_ = _))

theorem pageAligned_zero : pageAligned 0 := rfl

theorem pageAligned_add {x y : ℕ} (hx : pageAligned x) (hy : pageAligned y) :
    pageAligned (x + y) := by
  unfold pageAligned Memory.PAGE_SIZE at *
  omega

theorem pageAligned_sub {x y : ℕ} (hx : pageAligned x) (hy : pageAligned y) :
    pageAligned (x - y) := by
  unfold pageAligned Memory.PAGE_SIZE at *
  omega

/-- Host-side memory: where the allocation lies and how long it is. -/
structure BackingMem where
  ptr : ℕ
  size : ℕ
  deriving DecidableEq, Repr

/-- A managed reference to host-side memory (`MemoryRef`). The cached pointer and size of the
source are the functions `getPtr` and `getSize`. -/
structure MemoryRef where
  backingMem : Option BackingMem := none
  offset : ℕ := 0
  deriving DecidableEq, Repr

namespace MemoryRef

/-- The reference made from `nullptr`. -/
def null : MemoryRef := {}

/-- `cptr`: the host pointer, zero for the null reference. -/
def getPtr (r : MemoryRef) : ℕ :=
  match r.backingMem with
  | some mem => mem.ptr + r.offset
  | none => 0

/-- `csize`: how much of the allocation lies at and after the pointer. -/
def getSize (r : MemoryRef) : ℕ :=
  match r.backingMem with
  | some mem => mem.size - r.offset
  | none => 0

/-- `operator+` and `operator+=`. -/
def advance (r : MemoryRef) (offsetBy : ℕ) : Exec MemoryRef := do
  assert (offsetBy < r.getSize) .refOutOfRange
  pure { r with offset := r.offset + offsetBy }

/-- Advancing a reference moves its pointer. -/
theorem advance_eq_ok {r s : MemoryRef} {n : ℕ} :
    r.advance n = .ok s ↔ n < r.getSize ∧ s = { r with offset := r.offset + n } := by
  simp only [advance, bind_eq_ok, assert_eq_ok, pure_eq_ok, Except.ok.injEq]
  constructor
  · rintro ⟨-, hlt, rfl⟩
    exact ⟨hlt, rfl⟩
  · rintro ⟨hlt, rfl⟩
    exact ⟨(), hlt, rfl⟩

theorem advance_getPtr {r s : MemoryRef} {n : ℕ} (h : r.advance n = .ok s) :
    s.getPtr = r.getPtr + n := by
  obtain ⟨hlt, rfl⟩ := advance_eq_ok.mp h
  cases hr : r.backingMem with
  | none => simp [getSize, hr] at hlt
  | some mem => simp [getPtr, hr, Nat.add_assoc]

end MemoryRef

end Borked3DS.Model
