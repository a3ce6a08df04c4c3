import Borked3DS.Library.ByteOrder
import Borked3DS.Library.Triple
import Borked3DS.Model.VMManager

/-!
# Accesses to guest memory

`memory.cpp`: the block accesses, which go through a page table page by page. The host's memory is
a byte for each host address, the bytes behind a page pointer among them.
-/

set_option autoImplicit false

namespace Borked3DS.Model

open Borked3DS.Library

namespace Memory

def FCRAM_PADDR : ℕ := 0x20000000
def VRAM_PADDR : ℕ := 0x18000000
def IO_AREA_PADDR : ℕ := 0x10100000
def LINEAR_HEAP_VADDR_END : ℕ := 0x1C000000
def NEW_LINEAR_HEAP_VADDR_END : ℕ := 0x40000000
def VRAM_VADDR : ℕ := 0x1F000000
def VRAM_VADDR_END : ℕ := 0x1F600000
def PLUGIN_3GX_FB_VADDR : ℕ := 0x06000000
def PLUGIN_3GX_FB_VADDR_END : ℕ := 0x060A9000

end Memory

open Memory

/-- What accesses to guest memory read and write: the host's memory, and what the rasterizer keeps
of it. -/
structure HostState (ρ : Type) where
  host : ℕ → UInt8
  rasterizer : ρ

/-- What `MemorySystem` is connected to: where FCRAM and VRAM lie, the framebuffer address of the
plugin loader if there is one, the rasterizer, and the GPU's registers. -/
structure MemoryImpl (ρ : Type) where
  fcram : ℕ
  vram : ℕ
  pluginFBAddr : Option ℕ
  flushRegion : ℕ → ℕ → HostState ρ → HostState ρ
  invalidateRegion : ℕ → ℕ → HostState ρ → HostState ρ
  readReg : ℕ → HostState ρ → ℕ × HostState ρ
  writeReg : ℕ → ℕ → HostState ρ → HostState ρ

/-- `FlushMode`, of which the accesses use two. -/
inductive FlushMode
  | flush
  | invalidate
  deriving DecidableEq, Repr

/-- A turn of the loop of a block access: the page, the offset in it, the number of bytes there, and
the number of those before. -/
structure BlockTurn where
  pageIndex : ℕ
  pageOffset : ℕ
  copyAmount : ℕ
  done : ℕ
  deriving DecidableEq, Repr

/-- `current_vaddr`. -/
def BlockTurn.currentVaddr (turn : BlockTurn) : ℕ :=
  u32 (turn.pageIndex * PAGE_SIZE + turn.pageOffset)

/-- The turns that are left. Each of them takes a byte at least. -/
def blockTurns : ℕ → ℕ → ℕ → ℕ → ℕ → List BlockTurn
  | 0, _, _, _, _ => []
  | fuel + 1, pageIndex, pageOffset, done, remainingSize =>
      if remainingSize = 0 then []
      else
        let copyAmount := min (PAGE_SIZE - pageOffset) remainingSize
        { pageIndex, pageOffset, copyAmount, done } ::
          blockTurns fuel (pageIndex + 1) 0 (done + copyAmount) (remainingSize - copyAmount)

/-- The turns of a block access. -/
def turnsOf (addr size : ℕ) : List BlockTurn :=
  blockTurns size (addr / PAGE_SIZE) (addr % PAGE_SIZE) 0 size

/-- A computation on guest memory. -/
abbrev MemoryM (ρ : Type) := StateT (HostState ρ) Exec

section Accesses

variable {ρ : Type} (impl : MemoryImpl ρ)

/-- `page_table.attributes[page_index]`. -/
def PageTable.attributeAt (pt : PageTable) (pageIndex : ℕ) : Exec PageType :=
  if pageIndex < PAGE_TABLE_NUM_ENTRIES then .ok (pt.attributes pageIndex) else .error .undefined

/-- `page_table.pointers[page_index]`, of a page that has one. -/
def PageTable.pointerAt (pt : PageTable) (pageIndex : ℕ) : Exec ℕ :=
  if pageIndex < PAGE_TABLE_NUM_ENTRIES ∧ pt.pointers pageIndex ≠ 0 then
    .ok (pt.pointers pageIndex)
  else .error .undefined

/-- `GetRawPointerForRasterizerCache`, and `GetPointerForRasterizerCache` with the pointer taken.
SOURCE: memory.cpp:271-311 -/
def getPointerForRasterizerCache (addr : ℕ) : Exec ℕ :=
  if LINEAR_HEAP_VADDR ≤ addr ∧ addr < LINEAR_HEAP_VADDR_END then
    .ok (impl.fcram + (addr - LINEAR_HEAP_VADDR))
  else if NEW_LINEAR_HEAP_VADDR ≤ addr ∧ addr < NEW_LINEAR_HEAP_VADDR_END then
    .ok (impl.fcram + (addr - NEW_LINEAR_HEAP_VADDR))
  else if VRAM_VADDR ≤ addr ∧ addr < VRAM_VADDR_END then
    .ok (impl.vram + (addr - VRAM_VADDR))
  else
    match impl.pluginFBAddr with
    | some fbAddr =>
        if PLUGIN_3GX_FB_VADDR ≤ addr ∧ addr < PLUGIN_3GX_FB_VADDR_END then
          .ok (impl.fcram + u32Sub (u32 (addr - PLUGIN_3GX_FB_VADDR + fbAddr)) FCRAM_PADDR)
        else .error .undefined
    | none => .error .undefined

/-- `CheckRegion` of `RasterizerFlushVirtualRegion`. -/
def checkRegion (mode : FlushMode) (start stop regionStart regionEnd paddrRegionStart : ℕ)
    (m : HostState ρ) : HostState ρ :=
  if regionEnd ≤ start ∨ stop ≤ regionStart then m
  else
    let overlapStart := max start regionStart
    let overlapEnd := min stop regionEnd
    let physicalStart := u32 (paddrRegionStart + (overlapStart - regionStart))
    let overlapSize := u32Sub overlapEnd overlapStart
    match mode with
    | .flush => impl.flushRegion physicalStart overlapSize m
    | .invalidate => impl.invalidateRegion physicalStart overlapSize m

/-- SOURCE: memory.cpp:313-348 -/
def rasterizerFlushVirtualRegion (start size : ℕ) (mode : FlushMode) (m : HostState ρ) :
    HostState ρ :=
  let stop := u32 (start + size)
  let m := checkRegion impl mode start stop LINEAR_HEAP_VADDR LINEAR_HEAP_VADDR_END FCRAM_PADDR m
  let m :=
    checkRegion impl mode start stop NEW_LINEAR_HEAP_VADDR NEW_LINEAR_HEAP_VADDR_END FCRAM_PADDR m
  let m := checkRegion impl mode start stop VRAM_VADDR VRAM_VADDR_END VRAM_PADDR m
  match impl.pluginFBAddr with
  | some fbAddr =>
      if fbAddr ≠ 0 then
        checkRegion impl mode start stop PLUGIN_3GX_FB_VADDR PLUGIN_3GX_FB_VADDR_END fbAddr m
      else m
  | none => m

/-- `memcpy` from the host's memory. -/
def hostRead (pointer size : ℕ) : MemoryM ρ (List UInt8) := do
  let m ← get
  pure ((List.range size).map fun i => m.host (pointer + i))

/-- `memcpy` to the host's memory. -/
def hostWrite (pointer : ℕ) (bytes : List UInt8) : MemoryM ρ Unit :=
  modify fun m => { m with host := fun a =>
    if pointer ≤ a then bytes.getD (a - pointer) (m.host a) else m.host a }

/-- Where the bytes of a turn lie in the host's memory, none for an unmapped page. The rasterizer is
told first where it may hold them.
SOURCE: memory.cpp:188-217 -/
def locateTurn (pt : PageTable) (mode : FlushMode) (turn : BlockTurn) :
    MemoryM ρ (Option ℕ) := do
  match ← pt.attributeAt turn.pageIndex with
  | .unmapped => pure none
  | .memory => do
      let pointer ← pt.pointerAt turn.pageIndex
      pure (some (pointer + turn.pageOffset))
  | .rasterizerCachedMemory => do
      modify (rasterizerFlushVirtualRegion impl turn.currentVaddr turn.copyAmount mode)
      let pointer ← getPointerForRasterizerCache impl turn.currentVaddr
      pure (some pointer)

/-- SOURCE: memory.cpp:176-224 -/
def readBlock (pt : PageTable) (srcAddr size : ℕ) : MemoryM ρ (List UInt8) :=
  (turnsOf srcAddr size).foldlM (fun (destBuffer : List UInt8) turn => do
    match ← locateTurn impl pt .flush turn with
    | none => pure (destBuffer ++ List.replicate turn.copyAmount 0)
    | some srcPtr => do
        let bytes ← hostRead srcPtr turn.copyAmount
        pure (destBuffer ++ bytes)) []

/-- `WriteBlockImpl` of bytes that are taken from a source as they are written.
SOURCE: memory.cpp:226-269 -/
def writeBlockFrom (pt : PageTable) (destAddr size : ℕ)
    (source : ℕ → ℕ → MemoryM ρ (List UInt8)) : MemoryM ρ Unit :=
  (turnsOf destAddr size).forM fun turn => do
    match ← locateTurn impl pt .invalidate turn with
    | none => pure ()
    | some destPtr => do
        let bytes ← source turn.done turn.copyAmount
        hostWrite destPtr bytes

/-- `WriteBlock` of a buffer. -/
def writeBlock (pt : PageTable) (destAddr : ℕ) (srcBuffer : List UInt8) : MemoryM ρ Unit :=
  writeBlockFrom impl pt destAddr srcBuffer.length fun done copyAmount =>
    pure ((srcBuffer.drop done).take copyAmount)

/-- SOURCE: memory.cpp:881-922 -/
def zeroBlock (pt : PageTable) (destAddr size : ℕ) : MemoryM ρ Unit :=
  writeBlockFrom impl pt destAddr size fun _ copyAmount => pure (List.replicate copyAmount 0)

/-- SOURCE: memory.cpp:929-970 -/
def copyBlock (destTable srcTable : PageTable) (destAddr srcAddr size : ℕ) : MemoryM ρ Unit :=
  (turnsOf srcAddr size).forM fun turn => do
    let destAddr := u32 (destAddr + turn.done)
    match ← locateTurn impl srcTable .flush turn with
    | none => zeroBlock impl destTable destAddr turn.copyAmount
    | some srcPtr =>
        writeBlockFrom impl destTable destAddr turn.copyAmount fun done copyAmount =>
          hostRead (srcPtr + done) copyAmount

end Accesses

end Borked3DS.Model
