import Borked3DS.Library.Run
import Borked3DS.Model.ConfigSave

/-!
# What the config savegame owes to its blocks

Blocks are created, set and read in any order. `blocks` keeps those that were created, with what was
last set.
-/

set_option autoImplicit false

namespace Borked3DS.Interface

open Borked3DS.Library Borked3DS.Model Borked3DS.Model.CFG

/-! ## The blocks -/

/-- The savegame, with its blocks in the order of their creation. -/
structure ConfigStore where
  buffer : ConfigBuffer
  blocks : List ConfigBlock

inductive ConfigCall
  | create (block : ConfigBlock)
  | set (opened : Bool) (blockId : UInt32) (accessFlag : AccessFlag)
      (input : { input : List UInt8 // input.length < 2 ^ 32 })
  | get (opened : Bool) (artic : Option ArticAnswer) (blockId size : UInt32)
      (accessFlag : AccessFlag)

/-- The blocks, with one from the defaults that is missing. -/
def withDefault (blocks : List ConfigBlock) (blockId : UInt32) : List ConfigBlock :=
  if ∃ block ∈ blocks, block.blockId = blockId then blocks
  else if blocks.length < CONFIG_FILE_MAX_BLOCK_ENTRIES then
    blocks ++ (getDefaultConfigBlock blockId).toList
  else blocks

/-- The blocks with other data in one of them. -/
def setBlock (blocks : List ConfigBlock) (blockId : UInt32) (input : List UInt8) :
    List ConfigBlock :=
  if h : input.length < 2 ^ 16 then
    blocks.map fun block => if block.blockId = blockId then { block with data := ⟨input, h⟩ }
      else block
  else blocks

def configStep (s : ConfigStore) : ConfigCall → Exec ConfigStore
  | .create block => do
      let (result, buffer) ← createConfigBlock s.buffer block
      .ok ⟨buffer, if result = .success then s.blocks ++ [block] else s.blocks⟩
  | .set opened blockId accessFlag input => do
      let (result, buffer) ← setConfigBlock s.buffer opened blockId accessFlag input
      let blocks := withDefault s.blocks blockId
      .ok ⟨buffer, if result = .success then setBlock blocks blockId input.val else blocks⟩
  | .get opened artic blockId size accessFlag => do
      let (buffer, _) ← getConfigBlock s.buffer opened artic blockId size accessFlag
      .ok ⟨buffer, if (getFromArtic blockId accessFlag && artic.isSome) = true then s.blocks
        else withDefault s.blocks blockId⟩

/-- The entries in use are of different blocks, and the data outside of them lies behind the header
and inside the buffer, that of one entry apart from that of another. -/
structure WellFormed (buffer : ConfigBuffer) : Prop where
  distinct : ∀ i j, i < j → j < buffer.totalEntries →
    (buffer.entry i).blockId ≠ (buffer.entry j).blockId
  apart : ∀ i j, i < j → j < buffer.totalEntries →
    4 < (buffer.entry i).size.toNat → 4 < (buffer.entry j).size.toNat →
      (buffer.entry i).offsetOrData.toNat + (buffer.entry i).size.toNat ≤
          (buffer.entry j).offsetOrData.toNat ∨
        (buffer.entry j).offsetOrData.toNat + (buffer.entry j).size.toNat ≤
          (buffer.entry i).offsetOrData.toNat
  inside : ∀ i, i < buffer.totalEntries → 4 < (buffer.entry i).size.toNat →
    buffer.dataEntriesOffset ≤ (buffer.entry i).offsetOrData.toNat ∧
      (buffer.entry i).offsetOrData.toNat + (buffer.entry i).size.toNat ≤ CONFIG_SAVEFILE_SIZE

/-- A call that may read a block gets its data, and no call gets anything else. -/
structure ReadsBlock (blocks : List ConfigBlock) (blockId size : UInt32) (accessFlag : AccessFlag)
    (outcome : Except CfgResult (List UInt8)) : Prop where
  reads : ∀ block ∈ blocks, block.blockId = blockId → block.accessFlags &&& accessFlag ≠ 0 →
    block.data.val.length = size.toNat → outcome = .ok block.data.val
  onlyReads : ∀ bytes, outcome = .ok bytes →
    ∃ block ∈ blocks, block.blockId = blockId ∧ block.data.val = bytes

def ConfigCallRight (s : ConfigStore) : ConfigCall → Prop
  | .get opened artic blockId size accessFlag => ∀ buffer outcome,
      getConfigBlock s.buffer opened artic blockId size accessFlag = .ok (buffer, outcome) →
        ReadsBlock (withDefault s.blocks blockId) blockId size accessFlag outcome
  | _ => True

/-- Every call returns, the savegame is well formed all along, and blocks are read as they were
set. -/
def ConfigStoreRight (s : ConfigStore) (calls : List ConfigCall) : Prop :=
  Completes configStep (fun s => WellFormed s.buffer) s calls ∧
    EachStep configStep ConfigCallRight s calls

/-- The bytes of a block outside of its entry. -/
def outsideSize (block : ConfigBlock) : ℕ :=
  if 4 < block.data.val.length then block.data.val.length else 0

/-- The end of the data of blocks that were created one after the other. -/
def blocksEnd (blocks : List ConfigBlock) : ℕ := 0x455C + (blocks.map outsideSize).sum

/-- While there are entries left, a block is created once, with room for its data; and a server that
is asked for a block answers with its data. -/
def ConfigCallFits (s : ConfigStore) : ConfigCall → Prop
  | .create block => s.blocks.length < CONFIG_FILE_MAX_BLOCK_ENTRIES →
      (∀ other ∈ s.blocks, other.blockId ≠ block.blockId) ∧
        (4 < block.data.val.length →
          blocksEnd s.blocks + block.data.val.length ≤ CONFIG_SAVEFILE_SIZE)
  | .set .. => True
  | .get _ artic blockId size accessFlag => getFromArtic blockId accessFlag = true →
      ∀ answer, artic = some answer →
        ReadsBlock s.blocks blockId size accessFlag (answer.outcome size)

/-- The blocks of a formatted savegame. -/
def formattedBlocks (defaultBlocks : List ConfigBlock) (randomNumber : UInt32)
    (consoleId : UInt64) : List ConfigBlock :=
  setBlock (setBlock (setBlock defaultBlocks
    ConsoleUniqueID1BlockID (toLittleEndian 8 consoleId.toNat))
    ConsoleUniqueID2BlockID (toLittleEndian 8 consoleId.toNat))
    ConsoleUniqueID3BlockID (toLittleEndian 4 randomNumber.toNat)

/-! ## Files -/

/-- The calls that use a savegame. -/
inductive ConfigAccess
  | set (opened : Bool) (blockId : UInt32) (accessFlag : AccessFlag)
      (input : { input : List UInt8 // input.length < 2 ^ 32 })
  | get (opened : Bool) (artic : Option ArticAnswer) (blockId size : UInt32)
      (accessFlag : AccessFlag)

def accessStep (buffer : ConfigBuffer) : ConfigAccess → Exec ConfigBuffer
  | .set opened blockId accessFlag input => do
      let (_, buffer) ← setConfigBlock buffer opened blockId accessFlag input
      .ok buffer
  | .get opened artic blockId size accessFlag => do
      let (buffer, _) ← getConfigBlock buffer opened artic blockId size accessFlag
      .ok buffer

/-- No call reads or writes outside of the buffer. -/
def StaysInBuffer (buffer : ConfigBuffer) (accesses : List ConfigAccess) : Prop :=
  run accessStep buffer accesses ≠ .error .undefined

/-- If an entry is accessed, its data lies inside the buffer. -/
def EntryInside (buffer : ConfigBuffer) (i : ℕ) (size : UInt32) (accessFlag : AccessFlag) : Prop :=
  (buffer.entry i).accessFlags &&& accessFlag ≠ 0 → (buffer.entry i).size.toUInt32 = size →
    4 < (buffer.entry i).size → (buffer.entry i).offsetOrData.toNat + size.toNat ≤
      CONFIG_SAVEFILE_SIZE

/-- The entry of a block is inside the buffer; if it has none, but a default for which there is an
entry left, so is the data of the default, and the entry that is found then. -/
def PointerInside (buffer : ConfigBuffer) (opened : Bool) (blockId size : UInt32)
    (accessFlag : AccessFlag) : Prop :=
  match buffer.findEntry blockId with
  | some i => EntryInside buffer i size accessFlag
  | none => ∀ block, getDefaultConfigBlock blockId = some block →
      buffer.totalEntries < CONFIG_FILE_MAX_BLOCK_ENTRIES →
        (4 < block.data.val.length →
          (nextOffset buffer).toNat + block.data.val.length ≤ CONFIG_SAVEFILE_SIZE) ∧
        (opened = true → ∀ buffer', createConfigBlock buffer block = .ok (.success, buffer') →
          ∃ i, buffer'.findEntry blockId = some i ∧ EntryInside buffer' i size accessFlag)

def AccessInside (buffer : ConfigBuffer) : ConfigAccess → Prop
  | .set opened blockId accessFlag input =>
      PointerInside buffer opened blockId (UInt32.ofNat input.val.length) accessFlag
  | .get opened artic blockId size accessFlag =>
      (getFromArtic blockId accessFlag && artic.isSome) = false →
        PointerInside buffer opened blockId size accessFlag

end Borked3DS.Interface
