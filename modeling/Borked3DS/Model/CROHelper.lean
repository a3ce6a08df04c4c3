import Borked3DS.Library.ByteOrder
import Borked3DS.Library.WhileLoop
import Borked3DS.Model.Basic

/-!
# The header of a module, and the tree of its exports

What `CROHelper` of `cro_helper.cpp` and `cro_helper.h` does with the header of a relocatable module
(CRO) in the memory of a process, and how it looks an exported symbol up by its name. The memory is
mapped where a module lies, so that every access succeeds.
-/

set_option autoImplicit false

namespace Borked3DS.Model.LDR

open Borked3DS.Library

/-- The results of the `ro` service that the modelled functions return. -/
inductive ROResult
  | success
  | croFormatError (description : ℕ)
  deriving DecidableEq, Repr

def croHeaderSize : UInt32 := 0x138
def croHashSize : UInt32 := 0x80
def magicCRO0 : UInt32 := 0x304F5243

/-- The words of a header, from the hash on.
SOURCE: cro_helper.h:139-205 -/
inductive HeaderField
  | magic | nameOffset | nextCRO | previousCRO | fileSize | bssSize | fixedSize | unknownZero
  | unkSegmentTag | onLoadSegmentTag | onExitSegmentTag | onUnresolvedSegmentTag
  | codeOffset | codeSize | dataOffset | dataSize | moduleNameOffset | moduleNameSize
  | segmentTableOffset | segmentNum
  | exportNamedSymbolTableOffset | exportNamedSymbolNum
  | exportIndexedSymbolTableOffset | exportIndexedSymbolNum
  | exportStringsOffset | exportStringsSize | exportTreeTableOffset | exportTreeNum
  | importModuleTableOffset | importModuleNum
  | externalRelocationTableOffset | externalRelocationNum
  | importNamedSymbolTableOffset | importNamedSymbolNum
  | importIndexedSymbolTableOffset | importIndexedSymbolNum
  | importAnonymousSymbolTableOffset | importAnonymousSymbolNum
  | importStringsOffset | importStringsSize
  | staticAnonymousSymbolTableOffset | staticAnonymousSymbolNum
  | internalRelocationTableOffset | internalRelocationNum
  | staticRelocationTableOffset | staticRelocationNum
  deriving DecidableEq, Repr

/-- The place of a word in the header. -/
def HeaderField.index (field : HeaderField) : ℕ := field.ctorIdx

/-- A table of a module: the words with its offset and with the number of its entries, and the size
of an entry. -/
structure Table where
  offsetField : HeaderField
  sizeField : HeaderField
  entrySize : UInt32
  deriving DecidableEq, Repr

/-- The words from `CodeOffset` to `Fix0Barrier` in pairs, with `ENTRY_SIZE`.
SOURCE: cro_helper.cpp:25-43 -/
def tables : List Table :=
  [⟨.codeOffset, .codeSize, 1⟩,
    ⟨.dataOffset, .dataSize, 1⟩,
    ⟨.moduleNameOffset, .moduleNameSize, 1⟩,
    ⟨.segmentTableOffset, .segmentNum, 12⟩,
    ⟨.exportNamedSymbolTableOffset, .exportNamedSymbolNum, 8⟩,
    ⟨.exportIndexedSymbolTableOffset, .exportIndexedSymbolNum, 4⟩,
    ⟨.exportStringsOffset, .exportStringsSize, 1⟩,
    ⟨.exportTreeTableOffset, .exportTreeNum, 8⟩,
    ⟨.importModuleTableOffset, .importModuleNum, 20⟩,
    ⟨.externalRelocationTableOffset, .externalRelocationNum, 12⟩,
    ⟨.importNamedSymbolTableOffset, .importNamedSymbolNum, 8⟩,
    ⟨.importIndexedSymbolTableOffset, .importIndexedSymbolNum, 8⟩,
    ⟨.importAnonymousSymbolTableOffset, .importAnonymousSymbolNum, 8⟩,
    ⟨.importStringsOffset, .importStringsSize, 1⟩,
    ⟨.staticAnonymousSymbolTableOffset, .staticAnonymousSymbolNum, 8⟩,
    ⟨.internalRelocationTableOffset, .internalRelocationNum, 12⟩,
    ⟨.staticRelocationTableOffset, .staticRelocationNum, 12⟩]

/-- The pairs follow each other in the header. -/
example : tables.map (fun table => (table.offsetField.index, table.sizeField.index)) =
    (List.range 17).map fun i => (12 + 2 * i, 13 + 2 * i) := by decide

/-- `OFFSET_ORDER`. -/
def offsetOrder : List HeaderField :=
  [.codeOffset, .moduleNameOffset, .segmentTableOffset, .exportNamedSymbolTableOffset,
    .exportTreeTableOffset, .exportIndexedSymbolTableOffset, .exportStringsOffset,
    .importModuleTableOffset, .externalRelocationTableOffset, .importNamedSymbolTableOffset,
    .importIndexedSymbolTableOffset, .importAnonymousSymbolTableOffset, .importStringsOffset,
    .staticAnonymousSymbolTableOffset, .internalRelocationTableOffset,
    .staticRelocationTableOffset, .dataOffset, .fileSize]

section Header

variable (moduleAddress : UInt32) (memory : ByteMemory)

/-- `Field`. -/
def fieldAddress (field : HeaderField) : UInt32 :=
  moduleAddress + croHashSize + UInt32.ofNat (field.index * 4)

def getField (field : HeaderField) : UInt32 :=
  memory.read32 (fieldAddress moduleAddress field)

def setField (field : HeaderField) (value : UInt32) : ByteMemory :=
  memory.write32 (fieldAddress moduleAddress field) value

/-- No offset is smaller than the one before it. -/
def inOrder : UInt32 → List HeaderField → Bool
  | _, [] => true
  | prevOffset, field :: fields =>
      let curOffset := getField moduleAddress memory field
      if curOffset < prevOffset then false else inOrder curOffset fields

/-- An offset becomes an address, unless it is zero. -/
def rebaseOffset (field : HeaderField) : ByteMemory :=
  let offset := getField moduleAddress memory field
  if offset ≠ 0 then setField moduleAddress memory field (offset + moduleAddress) else memory

/-- The offsets of the name and of all tables become addresses. -/
def rebaseOffsets : ByteMemory :=
  (tables.map Table.offsetField).foldl (rebaseOffset moduleAddress)
    (rebaseOffset moduleAddress memory .nameOffset)

/-- `RebaseHeader`, with the memory that it leaves.
SOURCE: cro_helper.cpp:199-274 -/
def rebaseHeader (croSize : UInt32) : ROResult × ByteMemory :=
  let get := getField moduleAddress memory
  if get .magic ≠ magicCRO0 then (.croFormatError 0x11, memory)
  else if get .nextCRO ≠ 0 ∨ get .previousCRO ≠ 0 then (.croFormatError 0x11, memory)
  else if get .fileSize > 0x10000000 ∨ get .bssSize > 0x10000000 then
    (.croFormatError 0x11, memory)
  else if get .fixedSize ≠ 0 then (.croFormatError 0x11, memory)
  else if get .codeOffset < croHeaderSize then (.croFormatError 0x11, memory)
  else if !inOrder moduleAddress memory (get .codeOffset) offsetOrder.tail then
    (.croFormatError 0x11, memory)
  else
    let memory := rebaseOffsets moduleAddress memory
    let get := getField moduleAddress memory
    let fileEnd := moduleAddress + croSize
    if tables.any fun table =>
        get table.offsetField + get table.sizeField * table.entrySize > fileEnd then
      (.croFormatError 0x11, memory)
    else (.success, memory)

end Header

/-! ## The tree of exported names -/

/-- The words of a `SegmentTag`.
SOURCE: cro_helper.h:224-231 -/
structure SegmentTag where
  raw : UInt32
  deriving DecidableEq, Repr

namespace SegmentTag

def segmentIndex (tag : SegmentTag) : ℕ := tag.raw.toNat % 16

def offsetIntoSegment (tag : SegmentTag) : ℕ := tag.raw.toNat / 16

end SegmentTag

/-- A child of an entry of the tree: the index of another entry, and whether the walk ends there.
SOURCE: cro_helper.h:263-267 -/
structure Child where
  raw : UInt16
  deriving DecidableEq, Repr

namespace Child

def nextIndex (child : Child) : ℕ := child.raw.toNat % 2 ^ 15

def isEnd (child : Child) : Bool := child.raw.toNat / 2 ^ 15 = 1

end Child

/-- SOURCE: cro_helper.h:260-272 -/
structure ExportTreeEntry where
  testBit : ℕ
  left : Child
  right : Child
  exportTableIndex : ℕ
  deriving DecidableEq, Repr

/-- SOURCE: cro_helper.h:243-250 -/
structure ExportNamedSymbolEntry where
  nameOffset : UInt32
  symbolPosition : SegmentTag
  deriving DecidableEq, Repr

/-- The child of an entry that a bit of a name selects. -/
def ExportTreeEntry.select (entry : ExportTreeEntry) (name : List UInt8) : Child :=
  let testByte := entry.testBit >>> 3
  let testBitInByte := entry.testBit % 8
  if testByte ≥ name.length then entry.left
  else if (name.getD testByte 0).toNat.testBit testBitInByte then entry.right
  else entry.left

section ExportTree

variable (moduleAddress : UInt32) (memory : ByteMemory)

/-- `u16_le`. -/
def halfWordAt (address : UInt32) : UInt16 :=
  UInt16.ofNat (ofLittleEndian [memory address, memory (address + 1)])

/-- Where `GetEntry` reads. -/
def entryAddress (offsetField : HeaderField) (entrySize index : ℕ) : UInt32 :=
  getField moduleAddress memory offsetField + UInt32.ofNat (index * entrySize)

/-- `GetEntry` of the tree. -/
def getTreeEntry (index : ℕ) : ExportTreeEntry :=
  let address := entryAddress moduleAddress memory .exportTreeTableOffset 8 index
  ⟨(halfWordAt memory address).toNat, ⟨halfWordAt memory (address + 2)⟩,
    ⟨halfWordAt memory (address + 4)⟩, (halfWordAt memory (address + 6)).toNat⟩

/-- `GetEntry` of the named symbols. -/
def getNamedSymbol (index : ℕ) : ExportNamedSymbolEntry :=
  let address := entryAddress moduleAddress memory .exportNamedSymbolTableOffset 8 index
  ⟨memory.read32 address, ⟨memory.read32 (address + 4)⟩⟩

/-- SOURCE: cro_helper.cpp:52-65 -/
def segmentTagToAddress (segmentTag : SegmentTag) : UInt32 :=
  if segmentTag.segmentIndex ≥ (getField moduleAddress memory .segmentNum).toNat then 0
  else
    let address := entryAddress moduleAddress memory .segmentTableOffset 12 segmentTag.segmentIndex
    if segmentTag.offsetIntoSegment ≥ (memory.read32 (address + 4)).toNat then 0
    else memory.read32 address + UInt32.ofNat segmentTag.offsetIntoSegment

/-- SOURCE: cro_helper.cpp:330-341 -/
def verifyExportTreeTable : ROResult :=
  let treeNum := (getField moduleAddress memory .exportTreeNum).toNat
  if (List.range treeNum).any fun i =>
      let entry := getTreeEntry moduleAddress memory i
      entry.left.nextIndex ≥ treeNum ∨ entry.right.nextIndex ≥ treeNum then .croFormatError 0x11
  else .success

/-- SOURCE: cro_helper.cpp:1115-1121 -/
def verifyStringTableLength (address size : UInt32) : ROResult :=
  if size ≠ 0 ∧ memory (address + size - 1) ≠ 0 then .croFormatError 0x0B else .success

/-- `ReadCString`.
SOURCE: memory.cpp:658-673 -/
def readCString : UInt32 → ℕ → List UInt8
  | _, 0 => []
  | vaddr, maxLength + 1 =>
      let c := memory vaddr
      if c = 0 then [] else c :: readCString (vaddr + 1) maxLength

/-- A turn of the loop in `FindExportNamedSymbol`. -/
def findTurn (name : List UInt8) (next : Child) : Exec (Option Child) :=
  let entry := getTreeEntry moduleAddress memory next.nextIndex
  if next.isEnd then pure none else pure (some (entry.select name))

/-- What the loop has found.
SOURCE: cro_helper.cpp:183-196 -/
def foundSymbol (name : List UInt8) (next : Child) : UInt32 :=
  let foundId := (getTreeEntry moduleAddress memory next.nextIndex).exportTableIndex
  if foundId ≥ (getField moduleAddress memory .exportNamedSymbolNum).toNat then 0
  else
    let exportStringsSize := getField moduleAddress memory .exportStringsSize
    let symbolEntry := getNamedSymbol moduleAddress memory foundId
    if readCString memory symbolEntry.nameOffset exportStringsSize.toNat ≠ name then 0
    else segmentTagToAddress moduleAddress memory symbolEntry.symbolPosition

/-- `FindExportNamedSymbol`, with so many turns of its loop at most.
SOURCE: cro_helper.cpp:153-197 -/
def findExportNamedSymbol (fuel : ℕ) (name : List UInt8) : Exec (Option UInt32) :=
  if getField moduleAddress memory .exportTreeNum = 0 then pure (some 0)
  else do
    let entry := getTreeEntry moduleAddress memory 0
    let found ← whileLoop (findTurn moduleAddress memory name) fuel entry.left
    pure (found.map (foundSymbol moduleAddress memory name))

end ExportTree

end Borked3DS.Model.LDR
