import Borked3DS.Library.ByteOrder
import Borked3DS.Library.Span
import Borked3DS.Model.Basic

/-!
# Memory fills

A memory fill of the GPU writes one value over a range of the physical memory: at once
(`sw_blitter.cpp`), or as a surface of the cache that is written back when the range is flushed
(`rasterizer_cache.h`).
-/

set_option autoImplicit false

namespace Borked3DS.Model.VideoCore

open Borked3DS.Library

/-! ## Physical memory -/

/-- SOURCE: memory.h:131-156, memory.cpp:684-689 -/
inductive MemoryArea
  | vram | dspRam | fcram | n3dsExtraRam
  deriving DecidableEq, Repr

namespace MemoryArea

def paddr : MemoryArea → ℕ
  | vram => 0x18000000
  | dspRam => 0x1FF00000
  | fcram => 0x20000000
  | n3dsExtraRam => 0x1F000000

def size : MemoryArea → ℕ
  | vram => 0x00600000
  | dspRam => 0x00080000
  | fcram => 0x10000000
  | n3dsExtraRam => 0x00400000

end MemoryArea

def memoryAreas : List MemoryArea := [.vram, .dspRam, .fcram, .n3dsExtraRam]

/-- The area of an address. The end of an area is of it, since an address may be an open right
bound.
SOURCE: memory.cpp:691-702 -/
def findArea (address : ℕ) : Option MemoryArea :=
  memoryAreas.find? fun area => area.paddr ≤ address ∧ address ≤ area.paddr + area.size

/-- The bytes of the areas. -/
structure GuestMemory where
  bytes : MemoryArea → Span
  size_eq : ∀ area, (bytes area).size = area.size

namespace GuestMemory

variable (memory : GuestMemory)

/-- The memory with other bytes in an area. -/
def set (area : MemoryArea) (span : Span) (h : span.size = area.size) : GuestMemory where
  bytes := Function.update memory.bytes area span
  size_eq := fun other => by
    by_cases heq : other = area
    · subst heq
      rw [Function.update_self, h]
    · rw [Function.update_of_ne heq, memory.size_eq]

/-- `std::memcpy` to a place of an area. -/
def write (area : MemoryArea) (offset : ℕ) (bytes : List UInt8) : Exec GuestMemory :=
  if offset + bytes.length ≤ area.size then
    .ok (memory.set area ((memory.bytes area).write offset bytes) (memory.size_eq area))
  else .error .undefined

/-- `std::memcpy` from a place of an area. -/
def read (area : MemoryArea) (offset n : ℕ) : Exec (List UInt8) :=
  if offset + n ≤ area.size then .ok ((memory.bytes area).read offset n) else .error .undefined

/-- A loop that writes one block after the other, `step` bytes apart. -/
def writeLoop (area : MemoryArea) (offset step : ℕ) (block : ℕ → List UInt8) (rounds : List ℕ) :
    Exec GuestMemory :=
  rounds.foldlM (fun memory i => memory.write area (offset + step * i) (block i)) memory

end GuestMemory

/-! ## The software -/

/-- SOURCE: regs_external.h:51-79 -/
structure MemoryFillConfig where
  addressStart : UInt32
  addressEnd : UInt32
  value32bit : UInt32
  fill24bit : Bool
  fill32bit : Bool
  deriving DecidableEq, Repr

/-- SOURCE: regs_external.h:21-23 -/
def decodeAddressRegister (registerValue : UInt32) : UInt32 := registerValue * 8

namespace MemoryFillConfig

variable (config : MemoryFillConfig)

def getStartAddress : ℕ := (decodeAddressRegister config.addressStart).toNat

def getEndAddress : ℕ := (decodeAddressRegister config.addressEnd).toNat

/-- The bytes of the value, of which the 16-bit value is the first two and the 24-bit value the
first three. -/
def valueBytes : List UInt8 := toLittleEndian 4 config.value32bit.toNat

end MemoryFillConfig

/-- Pointers to different areas must not be compared.
SOURCE: sw_blitter.cpp:296-345 -/
def swMemoryFill (memory : GuestMemory) (config : MemoryFillConfig) : Exec GuestMemory :=
  match findArea config.getStartAddress, findArea config.getEndAddress with
  | some startArea, some endArea =>
      if config.getEndAddress ≤ config.getStartAddress then .ok memory
      else if startArea ≠ endArea then .error .undefined
      else
        let start := config.getStartAddress - startArea.paddr
        let length := config.getEndAddress - config.getStartAddress
        if config.fill24bit then
          memory.writeLoop startArea start 3 (fun _ => config.valueBytes.take 3)
            (List.range ((length + 2) / 3))
        else if config.fill32bit then
          memory.writeLoop startArea start 4 (fun _ => config.valueBytes) (List.range (length / 4))
        else
          memory.writeLoop startArea start 2 (fun _ => config.valueBytes.take 2)
            (List.range ((length + 1) / 2))
  | _, _ => .ok memory

/-! ## The cache -/

/-- `boost::icl::right_open`. -/
structure SurfaceInterval where
  lower : ℕ
  upper : ℕ
  deriving DecidableEq, Repr

namespace SurfaceInterval

def meet (a b : SurfaceInterval) : SurfaceInterval := ⟨max a.lower b.lower, min a.upper b.upper⟩

def overlaps (a b : SurfaceInterval) : Bool := max a.lower b.lower < min a.upper b.upper

/-- What is left of an interval without another. -/
def minus (a b : SurfaceInterval) : List SurfaceInterval :=
  [⟨a.lower, min a.upper b.lower⟩, ⟨max a.lower b.upper, a.upper⟩].filter fun c =>
    c.lower < c.upper

def addresses (a : SurfaceInterval) : List ℕ := List.range' a.lower (a.upper - a.lower)

end SurfaceInterval

/-- SOURCE: pixel_format.h:42-49 -/
inductive SurfaceType
  | Color | Texture | Depth | DepthStencil | Fill | Invalid
  deriving DecidableEq, Repr

/-- What fills, flushes and invalidations need of a surface. The invalid regions are given by the
addresses in them.
SOURCE: surface_params.h:82-99, surface_base.h:88-98 -/
structure Surface where
  addr : ℕ
  upper : ℕ
  size : ℕ
  width : ℕ := 0
  stride : ℕ := 0
  type : SurfaceType
  fillData : List UInt8 := []
  fillSize : ℕ := 0
  registered : Bool := false
  invalidRegions : ℕ → Bool := fun _ => false

namespace Surface

variable (surface : Surface)

def getInterval : SurfaceInterval := ⟨surface.addr, surface.upper⟩

/-- SOURCE: surface_base.h:64-66 -/
def isRegionValid (interval : SurfaceInterval) : Bool :=
  interval.addresses.all fun a => !surface.invalidRegions a

/-- SOURCE: surface_base.h:68-71 -/
def markValid (interval : SurfaceInterval) : Surface :=
  { surface with invalidRegions := fun a =>
      surface.invalidRegions a && !decide (interval.lower ≤ a ∧ a < interval.upper) }

/-- SOURCE: surface_base.h:73-76 -/
def markInvalid (interval : SurfaceInterval) : Surface :=
  { surface with invalidRegions := fun a =>
      surface.invalidRegions a || decide (interval.lower ≤ a ∧ a < interval.upper) }

/-- SOURCE: surface_base.h:78-81 -/
def isFullyInvalid : Bool := surface.getInterval.addresses.all surface.invalidRegions

end Surface

/-- A surface is known by its place among the surfaces. -/
abbrev SurfaceId := ℕ

/-- A part of the memory whose bytes are in a surface. -/
structure DirtyRegion where
  interval : SurfaceInterval
  owner : SurfaceId
  deriving DecidableEq, Repr

/-- The dirty regions belong to surfaces that there are. They have no order here; the source keeps
them by address.
SOURCE: rasterizer_cache_base.h:72, 226 -/
structure RasterizerCache where
  surfaces : List Surface := []
  dirtyRegions : List DirtyRegion := []
  owned : ∀ region ∈ dirtyRegions, region.owner < surfaces.length := by simp

/-- `boost::icl::interval_map`: regions of one owner that touch are one. -/
def setRegion (regions : List DirtyRegion) (interval : SurfaceInterval) (owner : SurfaceId) :
    List DirtyRegion :=
  let kept := regions.flatMap fun region =>
    (region.interval.minus interval).map fun rest => ⟨rest, region.owner⟩
  let touches := fun region : DirtyRegion => decide (region.owner = owner ∧
    (region.interval.upper = interval.lower ∨ region.interval.lower = interval.upper))
  let joined := (kept.filter touches).foldl (fun (joined : SurfaceInterval) region =>
    ⟨min joined.lower region.interval.lower, max joined.upper region.interval.upper⟩) interval
  ⟨joined, owner⟩ :: kept.filter fun region => !touches region

/-- `dirty_regions -= intervals`. -/
def eraseRegions (regions : List DirtyRegion) (intervals : List SurfaceInterval) :
    List DirtyRegion :=
  intervals.foldl (fun regions interval => regions.flatMap fun region =>
    (region.interval.minus interval).map fun rest => ⟨rest, region.owner⟩) regions

/-- The owners of what is left were owners before. -/
theorem owner_of_mem_minus {regions : List DirtyRegion} {interval : SurfaceInterval} {n : ℕ}
    (h : ∀ region ∈ regions, region.owner < n) :
    ∀ region ∈ regions.flatMap fun region : DirtyRegion =>
      (region.interval.minus interval).map fun rest => DirtyRegion.mk rest region.owner,
        region.owner < n := by
  intro region hmem
  obtain ⟨before, hbefore, hrest⟩ := List.mem_flatMap.mp hmem
  obtain ⟨rest, -, rfl⟩ := List.mem_map.mp hrest
  exact h before hbefore

theorem owner_of_mem_setRegion {regions : List DirtyRegion} {interval : SurfaceInterval}
    {owner n : ℕ} (h : ∀ region ∈ regions, region.owner < n) (howner : owner < n) :
    ∀ region ∈ setRegion regions interval owner, region.owner < n := by
  intro region hmem
  rcases List.mem_cons.mp hmem with rfl | hmem
  · exact howner
  · exact owner_of_mem_minus h region (List.mem_filter.mp hmem).1

theorem owner_of_mem_eraseRegions {regions : List DirtyRegion} {intervals : List SurfaceInterval}
    {n : ℕ} (h : ∀ region ∈ regions, region.owner < n) :
    ∀ region ∈ eraseRegions regions intervals, region.owner < n := by
  induction intervals generalizing regions with
  | nil => exact h
  | cons interval intervals ih => exact ih (owner_of_mem_minus h)

namespace RasterizerCache

variable (cache : RasterizerCache)

/-- A new surface behind the others. -/
def insertSurface (surface : Surface) : RasterizerCache where
  surfaces := cache.surfaces ++ [surface]
  dirtyRegions := cache.dirtyRegions
  owned := fun region hmem => by
    rw [List.length_append]
    exact Nat.lt_add_right _ (cache.owned region hmem)

/-- What an invalidation leaves of a surface that is not the owner of the region. -/
def invalidateSurface (interval : SurfaceInterval) (surface : Surface) : Surface :=
  if surface.registered && surface.getInterval.overlaps interval then
    let surface := surface.markInvalid (surface.getInterval.meet interval)
    if surface.isFullyInvalid then { surface with registered := false } else surface
  else surface

/-- With an owner, of which the region is written.
SOURCE: rasterizer_cache.h:1500-1549 -/
def invalidateRegion (addr size : ℕ) (owner : SurfaceId) : Exec RasterizerCache :=
  if size = 0 then .ok cache
  else
    let interval : SurfaceInterval := ⟨addr, addr + size⟩
    match hsurface : cache.surfaces[owner]? with
    | none => .error .undefined
    | some regionOwner => do
        assert (regionOwner.type ≠ .Texture) .regionOwnerType
        assert (regionOwner.addr ≤ addr ∧ addr + size ≤ regionOwner.upper) .regionOwnerRange
        assert (regionOwner.width = regionOwner.stride) .regionOwnerStride
        .ok {
          surfaces := cache.surfaces.mapIdx fun id surface =>
            if id = owner then surface.markValid interval else invalidateSurface interval surface
          dirtyRegions := setRegion cache.dirtyRegions interval owner
          owned := by
            rw [List.length_mapIdx]
            exact owner_of_mem_setRegion cache.owned (List.getElem?_eq_some_iff.mp hsurface).1 }

/-- SOURCE: rasterizer_cache.h:506-533 -/
def accelerateFill (config : MemoryFillConfig) : Exec RasterizerCache :=
  let surface : Surface := {
    addr := config.getStartAddress
    upper := config.getEndAddress
    size := (decodeAddressRegister config.addressEnd -
      decodeAddressRegister config.addressStart).toNat
    type := .Fill
    fillData := config.valueBytes
    fillSize := if config.fill32bit then 4 else if config.fill24bit then 3 else 2
    registered := true }
  (cache.insertSurface surface).invalidateRegion surface.addr surface.size cache.surfaces.length

end RasterizerCache

/-- SOURCE: rasterizer_cache.h:1348-1378 -/
def downloadFillSurface (surface : Surface) (interval : SurfaceInterval) (memory : GuestMemory) :
    Exec GuestMemory := do
  let flushStart := interval.lower
  let flushEnd := interval.upper
  assert (surface.addr ≤ flushStart ∧ flushEnd ≤ surface.upper) .fillInterval
  match findArea flushStart with
  | none => .ok memory
  | some area =>
      let dest := flushStart - area.paddr
      let startOffset := flushStart - surface.addr
      let downloadSize := min (flushEnd - flushStart) (area.size - dest)
      let coarseStartOffset := startOffset - startOffset % surface.fillSize
      let backupBytes := startOffset % surface.fillSize
      let fill := fun memory : GuestMemory =>
        memory.writeLoop area (dest + coarseStartOffset) surface.fillSize
          (fun i => (surface.fillData.take surface.fillSize).take
            (downloadSize - coarseStartOffset - surface.fillSize * i))
          (Span.blocks surface.fillSize (downloadSize - coarseStartOffset))
      if backupBytes = 0 then fill memory
      else do
        let backupData ← memory.read area (dest + coarseStartOffset) backupBytes
        let memory ← fill memory
        memory.write area (dest + coarseStartOffset) backupData

section Flush

-- What the download of a surface that is no fill writes to the memory.
variable (downloadSurface : Surface → SurfaceInterval → GuestMemory → Exec GuestMemory)

/-- One region of a flush. -/
def flushOne (surfaces : List Surface) (interval : SurfaceInterval) (owner : SurfaceId)
    (memory : GuestMemory) : Exec GuestMemory :=
  match surfaces[owner]? with
  | none => .error .undefined
  | some surface => do
      assert (surface.isRegionValid interval = true) .regionOwnerValid
      if surface.type = .Fill then downloadFillSurface surface interval memory
      else downloadSurface surface interval memory

/-- The regions that a flush of a range writes, by address, with the part that it writes of each.
A flush of a few bytes writes whole regions.
SOURCE: rasterizer_cache.h:1457-1466 -/
def flushedRegions (regions : List DirtyRegion) (addr size : ℕ) : List DirtyRegion :=
  let flushInterval : SurfaceInterval := ⟨addr, addr + size⟩
  let found := regions.filter fun region => region.interval.overlaps flushInterval
  let found := found.mergeSort fun a b => a.interval.lower ≤ b.interval.lower
  found.map fun region =>
    ⟨if size ≤ 8 then region.interval else region.interval.meet flushInterval, region.owner⟩

/-- Of all surfaces.
SOURCE: rasterizer_cache.h:1448-1493 -/
def RasterizerCache.flushRegion (cache : RasterizerCache) (addr size : ℕ) (memory : GuestMemory) :
    Exec (RasterizerCache × GuestMemory) :=
  if size = 0 then .ok (cache, memory)
  else do
    let flushed := flushedRegions cache.dirtyRegions addr size
    let memory ← flushed.foldlM (fun memory region =>
      flushOne downloadSurface cache.surfaces region.interval region.owner memory) memory
    .ok ({ cache with
      dirtyRegions := eraseRegions cache.dirtyRegions (flushed.map DirtyRegion.interval)
      owned := owner_of_mem_eraseRegions cache.owned }, memory)

end Flush

end Borked3DS.Model.VideoCore
