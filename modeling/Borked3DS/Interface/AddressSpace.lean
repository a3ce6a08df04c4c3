import Mathlib.Order.Bounds.Defs
import Borked3DS.Library.Run
import Borked3DS.Library.Tiling
import Borked3DS.Model.VMManager

/-!
# What an address space means

An address space is meant to be a flat map from addresses to page attributes (`PageMap`), and
`vma_map` is one representation of it: a partition of the managed space into areas
(`Partition`), as coarse as possible (`Maximal`). `VMAMap.view` reads the flat map off the areas.
-/

set_option autoImplicit false

namespace Borked3DS.Interface

open Borked3DS.Library Borked3DS.Model

/-- What is known of one address: its area's attributes, and the host pointer behind it when
the area is backed. -/
structure PageView where
  type : VMAType
  permissions : VMAPermission
  meminfoState : MemoryState
  backing : Option ℕ
  deriving DecidableEq, Repr

/-- The view of an unmapped address. -/
def PageView.free : PageView :=
  { type := .free, permissions := .none, meminfoState := .free, backing := none }

/-- The view `w` of an address continues the view `v` of the address before it: equal attributes
and, when backed, consecutive host bytes. -/
def PageView.Continues (v w : PageView) : Prop :=
  v.permissions = w.permissions ∧ v.meminfoState = w.meminfoState ∧ v.type = w.type ∧
    v.backing.map (· + 1) = w.backing

instance (v w : PageView) : Decidable (v.Continues w) := inferInstanceAs (Decidable (_ ∧ _))

/-- A flat map of the address space: what is known of every managed address. -/
abbrev PageMap := ℕ → Option PageView

/-- The map `f` with the addresses of `[t, t + n)` rewritten by `g`. -/
def PageMap.updateRange (f : PageMap) (t n : ℕ) (g : ℕ → PageView → PageView) : PageMap :=
  fun p => if t ≤ p ∧ p < t + n then (f p).map (g p) else f p

/-- The map runs on unchanged from the address before `k` to `k`. -/
def PageMap.ContinuesAt (f : PageMap) (k : ℕ) : Prop :=
  ∃ v w, f (k - 1) = some v ∧ f k = some w ∧ v.Continues w

end Borked3DS.Interface

namespace Borked3DS.Model

open Borked3DS.Library Borked3DS.Interface

/-- What an area says of an address inside it. -/
def VirtualMemoryArea.viewAt (vma : VirtualMemoryArea) (p : ℕ) : PageView where
  type := vma.type
  permissions := vma.permissions
  meminfoState := vma.meminfoState
  backing :=
    match vma.type with
    | .free => none
    | .backingMemory => some (vma.backingMemory.getPtr + (p - vma.base))

/-- The size of a map entry's area. -/
def VMAMap.entrySize (e : ℕ × VirtualMemoryArea) : ℕ := e.2.size

/-- The flat map an area map denotes. -/
def VMAMap.view (m : VMAMap) : PageMap :=
  denote Prod.fst entrySize (fun e p => e.2.viewAt p) m

/-- The addresses the areas begin at. -/
def VMAMap.keys (m : VMAMap) : List ℕ := m.map Prod.fst

/-- The areas cut the managed address space into consecutive intervals of positive size, each
under its own base. -/
structure VMAMap.Partition (m : VMAMap) : Prop where
  keys : ∀ e ∈ m, e.1 = e.2.base
  tiles : Tiles Prod.fst entrySize 0 MAX_ADDRESS m

/-- Every area of the range `[t, t + n)` meets `q`. -/
def VMAMap.RangeMeets (q : VirtualMemoryArea → Prop) (m : VMAMap) (t n : ℕ) : Prop :=
  ∀ e ∈ m, t < e.1 + e.2.size → e.1 < t + n → q e.2

/-- No two neighbouring areas can be merged. -/
def VMAMap.Maximal (m : VMAMap) : Prop :=
  m.IsChain fun a b => a.2.mergeable b.2 = false

/-- The representation invariant documented at `vma_map`. -/
structure VMAMap.RepInvariant (m : VMAMap) : Prop where
  partition : m.Partition
  maximal : m.Maximal

end Borked3DS.Model

/-!
## Runs of the memory manager

The public calls that change an address space, with the 32-bit arguments the source gives them,
as the inputs of a machine (`VMCall`), and the calls after which two mergeable areas stay
neighbours (`VMCall.Strands`).
-/

namespace Borked3DS.Interface

open Borked3DS.Library Borked3DS.Model VMAMap

/-- The calls of `VMManager` that change its areas. -/
inductive VMCall
  | mapBackingMemory (target : UInt32) (memory : MemoryRef) (size : UInt32) (state : MemoryState)
  | mapBackingMemoryToBase (base regionSize : UInt32) (memory : MemoryRef) (size : UInt32)
      (state : MemoryState)
  | unmapRange (target size : UInt32)
  | reprotect (vma : ℕ) (newPerms : VMAPermission)
  | reprotectRange (target size : UInt32) (newPerms : VMAPermission)
  | changeMemoryState (target size : UInt32) (expectedState : MemoryState)
      (expectedPerms : VMAPermission) (newState : MemoryState) (newPerms : VMAPermission)
  deriving DecidableEq, Repr

/-- The address space after a call, whether it succeeds or returns an error. -/
def VMCall.step (isCached : ℕ → Bool) (m : VMManager) : VMCall → Exec VMManager
  | .mapBackingMemory target memory size state => do
      let (m, _) ← m.mapBackingMemory isCached target.toNat memory size.toNat state
      pure m
  | .mapBackingMemoryToBase base regionSize memory size state => do
      let (m, _) ← m.mapBackingMemoryToBase isCached base.toNat regionSize.toNat memory size.toNat
        state
      pure m
  | .unmapRange target size => do
      let (m, _) ← m.unmapRange isCached target.toNat size.toNat
      pure m
  | .reprotect vma newPerms => do
      let (m, _) ← m.reprotect isCached vma newPerms
      pure m
  | .reprotectRange target size newPerms => do
      let (m, _) ← m.reprotectRange isCached target.toNat size.toNat newPerms
      pure m
  | .changeMemoryState target size expectedState expectedPerms newState newPerms => do
      let (m, _) ← m.changeMemoryState isCached target.toNat size.toNat expectedState expectedPerms
        newState newPerms
      pure m

/-- An area begins inside `[t, t + n)` and reaches past its end, and once the range is rewritten
by `g` the flat map runs on from the address before that area to the area as it was. -/
def StrandsTail (g : PageView → PageView) (m : VMAMap) (t n : ℕ) : Prop :=
  ∃ e ∈ m, t < e.1 ∧ e.1 < t + n ∧ t + n < e.1 + e.2.size ∧
    ∃ v w, view m (e.1 - 1) = some v ∧ view m e.1 = some w ∧ (g v).Continues w

/-- The call rewrites a range that ends inside an area, where that area, cut off at the end of
the range, is absorbed by the area before it and so never visited: it stays apart from its own
other half. -/
def VMCall.Strands (m : VMAMap) : VMCall → Prop
  | .reprotectRange target size newPerms =>
      RangeMeets (fun a => a.type ≠ .free) m target.toNat size.toNat ∧
        StrandsTail (fun v => { v with permissions := newPerms }) m target.toNat size.toNat
  | .changeMemoryState target size expectedState expectedPerms newState newPerms =>
      RangeMeets (fun a => a.type ≠ .free ∧ a.meminfoState = expectedState ∧
          a.permissions.includes expectedPerms = true) m target.toNat size.toNat ∧
        StrandsTail (fun v => { v with permissions := newPerms, meminfoState := newState }) m
          target.toNat size.toNat
  | _ => False

/-- The view of an address `p` of a range mapped at `t`. -/
def mappedView (t : ℕ) (memory : MemoryRef) (state : MemoryState) (p : ℕ) : PageView where
  type := .backingMemory
  permissions := .readWrite
  meminfoState := state
  backing := some (memory.getPtr + (p - t))

/-- A call on flat maps: when it succeeded it rewrote `[t, t + n)`, a range of the managed space,
by `g`, and when it returned an error it changed nothing. -/
def RewritesRange (m m' : VMManager) (succeeded : Prop) (t n : ℕ)
    (g : ℕ → PageView → PageView) : Prop :=
  (succeeded → t + n ≤ MAX_ADDRESS ∧
      m'.vmaMap.view = PageMap.updateRange m.vmaMap.view t n g) ∧
    (¬ succeeded → m'.vmaMap.view = m.vmaMap.view)

/-!
## Mapping at the first gap that fits

`MapBackingMemoryToBase` is meant to find the lowest part of a free area, inside a region of the
address space, that has room for the memory.
-/

/-- From `t` on, `size` bytes of one free area lie inside the region. -/
def FreeGap (m : VMAMap) (base regionSize size t : ℕ) : Prop :=
  ∃ e ∈ m, e.2.type = .free ∧ e.1 ≤ t ∧ t + size ≤ e.1 + e.2.size ∧
    base ≤ t ∧ t + size ≤ base + regionSize

/-- The area that the search stops at. If it does not stop, the source reads `end()`. -/
def searchedArea (m : VMAMap) (base size : ℕ) : Option (ℕ × VirtualMemoryArea) :=
  m.find? fun e =>
    decide (e.2.type = .free) &&
      (let vmaEnd := u32 (e.2.base + e.2.size)
       decide (base < vmaEnd) && decide (u32 (base + size) ≤ vmaEnd))

/-- The search stops in front of the end; the memory is mapped at the lowest gap and nowhere else,
and if there is none the call says so. -/
structure FirstFitRight (isCached : ℕ → Bool) (m : VMManager) (base regionSize : ℕ)
    (memory : MemoryRef) (size : ℕ) (state : MemoryState) : Prop where
  stops : (searchedArea m.vmaMap base size).isSome
  maps : ∀ t, IsLeast {t | FreeGap m.vmaMap base regionSize size t} t → ∃ m',
    m.mapBackingMemoryToBase isCached base regionSize memory size state = .ok (m', .ok t) ∧
      m'.vmaMap.view =
        PageMap.updateRange m.vmaMap.view t size fun p _ => mappedView t memory state p
  full : (∀ t, ¬ FreeGap m.vmaMap base regionSize size t) → ∃ m',
    m.mapBackingMemoryToBase isCached base regionSize memory size state =
      .ok (m', .error .outOfMemory)

/-- The area that the search stops at has room inside the region, for memory that is there and
begins with a page, and the region does not end before that in 32 bits; or it has none, and the
region ends too early for it in 32 bits as well. -/
def SearchFits (m : VMAMap) (base regionSize : ℕ) (memory : MemoryRef) (size : ℕ) : Prop :=
  ∃ e, searchedArea m base size = some e ∧
    if max base e.1 + size ≤ e.1 + e.2.size ∧ max base e.1 + size ≤ base + regionSize then
      pageAligned (max base e.1) ∧ memory.getPtr ≠ 0 ∧
        max base e.1 + size ≤ u32 (base + regionSize)
    else
      u32 (base + regionSize) < u32 (max base e.1 + size) ∧
        (2 ^ 32 ≤ base + regionSize → ∀ t, ¬ FreeGap m base regionSize size t)

end Borked3DS.Interface

/-!
## What a query of the address space promises

A query names the largest range around an address whose pages have one permission and one state.
-/

namespace Borked3DS.Interface

open Borked3DS.Library Borked3DS.Model

/-- An address has the permission and the state that are reported. -/
def MemoryInfo.Reports (info : MemoryInfo) (f : PageMap) (p : ℕ) : Prop :=
  ∃ v, f p = some v ∧ v.permissions = info.permission ∧ v.meminfoState = info.state

/-- The range that is reported consists of whole pages of the address space and contains the
address; what is reported holds all over it, and nowhere in the page before it or behind it. -/
structure MaximalRun (f : PageMap) (info : MemoryInfo) (addr : ℕ) : Prop where
  aligned : pageAligned info.baseAddress ∧ pageAligned info.size
  inside : info.baseAddress + info.size ≤ VMAMap.MAX_ADDRESS
  contains : info.baseAddress ≤ addr ∧ addr < info.baseAddress + info.size
  same : ∀ p, info.baseAddress ≤ p → p < info.baseAddress + info.size → MemoryInfo.Reports info f p
  before : ∀ p, p < info.baseAddress → info.baseAddress ≤ p + Memory.PAGE_SIZE →
    ¬ MemoryInfo.Reports info f p
  behind : ∀ p, info.baseAddress + info.size ≤ p →
    p < info.baseAddress + info.size + Memory.PAGE_SIZE → ¬ MemoryInfo.Reports info f p

/-- A query answers with the largest run, wherever in the run it is asked. -/
def QueryRight (vm : VMManager) (addr : ℕ) : Prop :=
  ∃ info page, queryMemory vm addr = .ok (.ok (info, page)) ∧
    MaximalRun vm.vmaMap.view info addr ∧
    ∀ other, info.baseAddress ≤ other → other < info.baseAddress + info.size →
      queryMemory vm other = .ok (.ok (info, page))

end Borked3DS.Interface
