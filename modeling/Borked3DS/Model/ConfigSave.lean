import Borked3DS.Library.CheckedList
import Borked3DS.Library.ByteOrder
import Borked3DS.Library.Span
import Borked3DS.Model.Basic

/-!
# The config savegame

The settings of the console are blocks in one buffer: a header with an entry for each block, and
behind it the data of the blocks that do not fit into their entries (`cfg.cpp`,
`cfg_defaults.cpp`).
-/

set_option autoImplicit false

namespace Borked3DS.Model.CFG

open Borked3DS.Library

def CONFIG_FILE_MAX_BLOCK_ENTRIES : ℕ := 1479

def CONFIG_SAVEFILE_SIZE : ℕ := 0x8000

/-- SOURCE: cfg.h:170-178 -/
abbrev AccessFlag := UInt16

namespace AccessFlag

def UserRead : AccessFlag := 0x2
def SystemWrite : AccessFlag := 0x4
def SystemRead : AccessFlag := 0x8
def System : AccessFlag := SystemRead ||| SystemWrite
def Global : AccessFlag := UserRead ||| SystemRead ||| SystemWrite

end AccessFlag

/-- The data of a block has a 16-bit size. -/
abbrev BlockData := { data : List UInt8 // data.length < 2 ^ 16 }

structure ConfigBlock where
  blockId : UInt32
  accessFlags : AccessFlag
  data : BlockData
  deriving DecidableEq

/-! ## The buffer -/

/-- `cfg_config_file_buffer`. -/
structure ConfigBuffer where
  span : Span
  size_eq : span.size = CONFIG_SAVEFILE_SIZE

/-- SOURCE: cfg.cpp:51-57 -/
structure SaveConfigBlockEntry where
  blockId : UInt32
  offsetOrData : UInt32
  size : UInt16
  accessFlags : AccessFlag
  deriving DecidableEq, Repr

def SaveConfigBlockEntry.toBytes (entry : SaveConfigBlockEntry) : List UInt8 :=
  toLittleEndian 4 entry.blockId.toNat ++ (toLittleEndian 4 entry.offsetOrData.toNat ++
    (toLittleEndian 2 entry.size.toNat ++ toLittleEndian 2 entry.accessFlags.toNat))

/-- The place of an entry. -/
def entryOffset (i : ℕ) : ℕ := 4 + 12 * i

namespace ConfigBuffer

variable (buffer : ConfigBuffer)

/-- A field of the header. -/
def field (offset n : ℕ) : ℕ := ofLittleEndian (buffer.span.read offset n)

/-- The buffer with other bytes in it. -/
def put (offset : ℕ) (bytes : List UInt8) : ConfigBuffer where
  span := buffer.span.write offset bytes
  size_eq := buffer.size_eq

/-- `std::memcpy` from the buffer. -/
def read (offset n : ℕ) : Exec (List UInt8) :=
  if offset + n ≤ CONFIG_SAVEFILE_SIZE then .ok (buffer.span.read offset n) else .error .undefined

/-- `std::memcpy` to the buffer. -/
def write (offset : ℕ) (bytes : List UInt8) : Exec ConfigBuffer :=
  if offset + bytes.length ≤ CONFIG_SAVEFILE_SIZE then .ok (buffer.put offset bytes)
  else .error .undefined

/-- SOURCE: cfg.cpp:63-71 -/
def totalEntries : ℕ := buffer.field 0 2

def dataEntriesOffset : ℕ := buffer.field 2 2

def entry (i : ℕ) : SaveConfigBlockEntry where
  blockId := UInt32.ofNat (buffer.field (entryOffset i) 4)
  offsetOrData := UInt32.ofNat (buffer.field (entryOffset i + 4) 4)
  size := UInt16.ofNat (buffer.field (entryOffset i + 8) 2)
  accessFlags := UInt16.ofNat (buffer.field (entryOffset i + 10) 2)

/-- The first entry of a block, among all entries of the header. -/
def findEntry (blockId : UInt32) : Option ℕ :=
  (List.range CONFIG_FILE_MAX_BLOCK_ENTRIES).find? fun i => (buffer.entry i).blockId = blockId

end ConfigBuffer

/-! ## The defaults -/

section Defaults

/-- SOURCE: cfg_defaults.cpp:15-22 -/
def makeLocationNames (input : String) : List UInt8 :=
  let name := input.toList.map fun c => UInt16.ofNat c.toNat
  (List.replicate 0x10 (unitsToBytes (name ++ List.replicate (0x40 - name.length) 0))).flatten

/-- SOURCE: cfg_defaults.cpp:47 -/
def defaultUsername : List UInt8 :=
  let name := "BORKED3DS".toList.map fun c => UInt16.ofNat c.toNat
  unitsToBytes (name ++ List.replicate (10 - name.length) 0) ++ List.replicate 8 0

/-- The bytes of the eight floats.
SOURCE: cfg_defaults.cpp:34-37 -/
def defaultStereoCameraSettings : List UInt8 :=
  [0x42780000, 0x43908000, 0x4299999A, 0x423851EC, 0x41200000, 0x40A00000, 0x425E51EC,
    0x41AC8F5C].flatMap (toLittleEndian 4)

def ConsoleUniqueID1BlockID : UInt32 := 0x00090000
def ConsoleUniqueID2BlockID : UInt32 := 0x00090001
def ConsoleUniqueID3BlockID : UInt32 := 0x00090002

/-- A default of less than 2¹⁶ bytes. -/
def defaultBlock (blockId : UInt32) (accessFlags : AccessFlag) (data : List UInt8)
    (h : data.length < 2 ^ 16 := by decide +kernel) : ConfigBlock :=
  ⟨blockId, accessFlags, data, h⟩

/-- SOURCE: cfg_defaults.cpp:24-124, cfg.h:27-93 -/
def defaultConfigBlocks : List ConfigBlock :=
  [defaultBlock 0x00030001 .Global (List.replicate 8 0),
    defaultBlock 0x00050001 .System [0, 2],
    defaultBlock 0x00050005 .Global defaultStereoCameraSettings,
    defaultBlock 0x00050009 .System (List.replicate 8 0),
    defaultBlock 0x00070001 .Global [1],
    defaultBlock ConsoleUniqueID1BlockID .Global (List.replicate 8 0),
    defaultBlock ConsoleUniqueID2BlockID .Global (List.replicate 8 0),
    defaultBlock ConsoleUniqueID3BlockID .Global (List.replicate 4 0),
    defaultBlock 0x000A0000 .Global defaultUsername,
    defaultBlock 0x000A0001 .Global [3, 25],
    defaultBlock 0x000A0002 .Global [1],
    defaultBlock 0x000B0000 .Global [0, 0, 2, 49],
    defaultBlock 0x000B0001 .Global (makeLocationNames "United States"),
    defaultBlock 0x000B0002 .Global (makeLocationNames "Washington DC"),
    defaultBlock 0x000B0003 .Global (List.replicate 4 0),
    defaultBlock 0x000C0000 .Global (List.replicate 0xC0 0),
    defaultBlock 0x000C0001 .Global (List.replicate 0x14 0),
    defaultBlock 0x000C0002 .Global (List.replicate 0x200 0),
    defaultBlock 0x000D0000 .Global [0x7F, 0x7F, 0, 0],
    defaultBlock 0x000E0000 .Global [0],
    defaultBlock 0x000F0004 .System [4, 0, 0, 0],
    defaultBlock 0x000F0006 .System (List.replicate 0x28 0),
    defaultBlock 0x00110000 .System [1, 0, 0, 0],
    defaultBlock 0x00130000 .Global (List.replicate 4 0),
    defaultBlock 0x00150000 .System (List.replicate 4 0),
    defaultBlock 0x00150002 .Global [0x4C, 0x31, 0, 0],
    defaultBlock 0x00160000 .Global (List.replicate 4 0),
    defaultBlock 0x00170000 .Global (List.replicate 4 0)]

/-- `HasDefaultConfigBlock` and `GetDefaultConfigBlock`.
SOURCE: cfg_defaults.cpp:130-136 -/
def getDefaultConfigBlock (blockId : UInt32) : Option ConfigBlock :=
  defaultConfigBlocks.find? fun block => block.blockId = blockId

end Defaults

/-! ## The calls -/

/-- The results of the calls; that of the server is its own. -/
inductive CfgResult
  | success | unknown | notFound | notAuthorized | invalidSize | remote (raw : UInt32)
  deriving DecidableEq, Repr

/-- The place for the data of a new block, behind that of the last block that has some outside of
its entry.
SOURCE: cfg.cpp:560-569 -/
def nextOffset (buffer : ConfigBuffer) : UInt32 :=
  match (List.range buffer.totalEntries).reverse.find? fun i => 4 < (buffer.entry i).size.toNat with
  | some i => (buffer.entry i).offsetOrData + (buffer.entry i).size.toUInt32
  | none => UInt32.ofNat buffer.dataEntriesOffset

/-- SOURCE: cfg.cpp:551-582 -/
def createConfigBlock (buffer : ConfigBuffer) (block : ConfigBlock) :
    Exec (CfgResult × ConfigBuffer) :=
  if CONFIG_FILE_MAX_BLOCK_ENTRIES ≤ buffer.totalEntries then .ok (.unknown, buffer)
  else do
    let place := entryOffset buffer.totalEntries
    let size := UInt16.ofNat block.data.val.length
    let buffer := buffer.put place
      (SaveConfigBlockEntry.toBytes ⟨block.blockId, 0, size, block.accessFlags⟩)
    let buffer ← if 4 < block.data.val.length then do
        let offset := nextOffset buffer
        let buffer := buffer.put (place + 4) (toLittleEndian 4 offset.toNat)
        buffer.write offset.toNat block.data.val
      else .ok (buffer.put (place + 4) block.data.val)
    .ok (.success, buffer.put 0 (toLittleEndian 2 (buffer.totalEntries + 1)))

/-- The check of an entry that is found, and the place of its data.
SOURCE: cfg.cpp:478-502 -/
def accessEntry (buffer : ConfigBuffer) (i : ℕ) (size : UInt32) (accessFlag : AccessFlag) :
    Except CfgResult ℕ :=
  let entry := buffer.entry i
  if entry.accessFlags &&& accessFlag = 0 then .error .notAuthorized
  else if entry.size.toUInt32 ≠ size then .error .invalidSize
  else if entry.size ≤ 4 then .ok (entryOffset i + 4)
  else .ok entry.offsetOrData.toNat

/-- What is missing is created from the defaults. `opened` tells whether the file of the savegame
can be opened then.
SOURCE: cfg.cpp:439-503 -/
def getConfigBlockPointer (buffer : ConfigBuffer) (opened : Bool) (blockId size : UInt32)
    (accessFlag : AccessFlag) : Exec (ConfigBuffer × Except CfgResult ℕ) :=
  match buffer.findEntry blockId with
  | some i => .ok (buffer, accessEntry buffer i size accessFlag)
  | none =>
      match getDefaultConfigBlock blockId with
      | none => .ok (buffer, .error .notFound)
      | some block => do
          let (result, buffer) ← createConfigBlock buffer block
          if result ≠ .success then .ok (buffer, .error result)
          else do
            assert (opened = true) .configFileOpened
            match buffer.findEntry blockId with
            | none => .error .undefined
            | some i => .ok (buffer, accessEntry buffer i size accessFlag)

/-- What an Artic server answers. -/
inductive ArticAnswer
  | noResponse
  | failed (raw : UInt32)
  | noBuffer
  | buffer (bytes : List UInt8)
  deriving DecidableEq, Repr

/-- SOURCE: cfg.cpp:518-532 -/
def ArticAnswer.outcome (size : UInt32) : ArticAnswer → Except CfgResult (List UInt8)
  | .noResponse => .error .unknown
  | .failed raw => .error (.remote raw)
  | .noBuffer => .error .unknown
  | .buffer bytes => if size.toNat < bytes.length then .error .unknown else .ok bytes

/-- Whether a server is asked, if there is one. -/
def getFromArtic (blockId : UInt32) (accessFlag : AccessFlag) : Bool :=
  blockId = ConsoleUniqueID2BlockID ∧ accessFlag &&& .UserRead ≠ 0

/-- SOURCE: cfg.cpp:505-542 -/
def getConfigBlock (buffer : ConfigBuffer) (opened : Bool) (artic : Option ArticAnswer)
    (blockId size : UInt32) (accessFlag : AccessFlag) :
    Exec (ConfigBuffer × Except CfgResult (List UInt8)) :=
  match if getFromArtic blockId accessFlag then artic else none with
  | some answer => .ok (buffer, answer.outcome size)
  | none => do
      let (buffer, pointer) ← getConfigBlockPointer buffer opened blockId size accessFlag
      match pointer with
      | .error result => .ok (buffer, .error result)
      | .ok pointer => do
          let output ← buffer.read pointer size.toNat
          .ok (buffer, .ok output)

/-- The input has the size that is given.
SOURCE: cfg.cpp:544-549 -/
def setConfigBlock (buffer : ConfigBuffer) (opened : Bool) (blockId : UInt32)
    (accessFlag : AccessFlag) (input : { input : List UInt8 // input.length < 2 ^ 32 }) :
    Exec (CfgResult × ConfigBuffer) := do
  let (buffer, pointer) ← getConfigBlockPointer buffer opened blockId
    (UInt32.ofNat input.val.length) accessFlag
  match pointer with
  | .error result => .ok (result, buffer)
  | .ok pointer => do
      let buffer ← buffer.write pointer input.val
      .ok (.success, buffer)

/-! ## The format -/

/-- The buffer without anything. -/
def emptyBuffer : ConfigBuffer := ⟨⟨CONFIG_SAVEFILE_SIZE, fun _ => 0⟩, rfl⟩

/-- SOURCE: cfg.cpp:934-953 -/
def setConsoleUniqueId (buffer : ConfigBuffer) (opened : Bool) (randomNumber : UInt32)
    (consoleId : UInt64) : Exec (CfgResult × ConfigBuffer) := do
  let id : { input : List UInt8 // input.length < 2 ^ 32 } :=
    ⟨toLittleEndian 8 consoleId.toNat, by rw [length_toLittleEndian]; decide⟩
  let number : { input : List UInt8 // input.length < 2 ^ 32 } :=
    ⟨toLittleEndian 4 randomNumber.toNat, by rw [length_toLittleEndian]; decide⟩
  let (result, buffer) ← setConfigBlock buffer opened ConsoleUniqueID1BlockID .Global id
  if result ≠ .success then .ok (result, buffer)
  else do
    let (result, buffer) ← setConfigBlock buffer opened ConsoleUniqueID2BlockID .Global id
    if result ≠ .success then .ok (result, buffer)
    else setConfigBlock buffer opened ConsoleUniqueID3BlockID .Global number

/-- The blocks are created in the order of the map that they are kept in; the first that fails ends
the format. -/
def createConfigBlocks : ConfigBuffer → List ConfigBlock → Exec (CfgResult × ConfigBuffer)
  | buffer, [] => .ok (.success, buffer)
  | buffer, block :: blocks => do
      let (result, buffer) ← createConfigBlock buffer block
      if result ≠ .success then .ok (result, buffer) else createConfigBlocks buffer blocks

/-- After the file of an older savegame has been deleted.
SOURCE: cfg.cpp:613-647 -/
def formatConfig (defaultBlocks : List ConfigBlock) (opened : Bool) (randomNumber : UInt32)
    (consoleId : UInt64) : Exec (CfgResult × ConfigBuffer) := do
  let buffer := emptyBuffer.put 2 (toLittleEndian 2 0x455C)
  let (result, buffer) ← createConfigBlocks buffer defaultBlocks
  if result ≠ .success then .ok (result, buffer)
  else do
    let (_, buffer) ← setConsoleUniqueId buffer opened randomNumber consoleId
    assert (opened = true) .configFileOpened
    .ok (.success, buffer)

end Borked3DS.Model.CFG
