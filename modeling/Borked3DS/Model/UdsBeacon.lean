import Borked3DS.Library.ByteOrder
import Borked3DS.Library.CheckedList
import Borked3DS.Library.FixedRecords
import Borked3DS.Model.Room

/-!
# The records of local wireless networks

The structures of `nwm_uds.h` that the `nwm::UDS` service keeps and sends. Padding is kept where its
bytes are sent.
-/

set_option autoImplicit false

namespace Borked3DS.Model.NWM

open Borked3DS.Library Borked3DS.Model Borked3DS.Model.Network

/-- `std::array`. -/
abbrev Block (α : Type) (n : ℕ) := { xs : List α // xs.length = n }

/-- An array of one value. -/
def Block.replicate {α : Type} (n : ℕ) (x : α) : Block α n :=
  ⟨List.replicate n x, List.length_replicate⟩

/-- An entry of an array is overwritten. -/
def Block.write {α : Type} {n : ℕ} (xs : Block α n) (i : ℕ) (x : α) : Exec (Block α n) :=
  if i < n then .ok ⟨xs.1.set i x, by rw [List.length_set, xs.2]⟩ else .error .undefined

/-- An entry of a vector is overwritten. -/
def writeAt {α : Type} (xs : List α) (i : ℕ) (x : α) : Exec (List α) :=
  if i < xs.length then .ok (xs.set i x) else .error .undefined

def nintendoOUI : Block UInt8 3 := ⟨[0x00, 0x1F, 0x32], rfl⟩

/-- SOURCE: uds_beacon.h:26-31 -/
inductive NintendoTagId
  | dummy | networkInfo | encryptedData0 | encryptedData1
  deriving DecidableEq, Repr

def NintendoTagId.value : NintendoTagId → UInt8
  | .dummy => 20
  | .networkInfo => 21
  | .encryptedData0 => 24
  | .encryptedData1 => 25

/-- `ApplicationDataSize`. -/
def applicationDataSize : ℕ := 0xC8

/-- `UDSMaxNodes`. -/
def udsMaxNodes : ℕ := 16

def defaultNetworkChannel : UInt8 := 11

/-- `sizeof(NodeInfo)`. -/
def nodeInfoSize : ℕ := 40

/-- SOURCE: nwm_uds.h:52-64 -/
structure NodeInfo where
  friendCodeSeed : UInt64 := 0
  username : Block UInt16 10 := .replicate 10 0
  networkNodeId : UInt16 := 0
  deriving DecidableEq

instance : Inhabited NodeInfo := ⟨{}⟩

/-- `Reset`. -/
def NodeInfo.reset (_ : NodeInfo) : NodeInfo := {}

/-- The bytes of a name in a frame, each unit highest byte first. -/
def usernameBytes (username : Block UInt16 10) : List UInt8 :=
  username.1.flatMap fun unit => toBigEndian 2 unit.toNat

/-- A name from the bytes in a frame. -/
def readUsername (bytes : List UInt8) : Block UInt16 10 :=
  ⟨readRecords (fun unit => UInt16.ofNat (ofBigEndian unit)) 2 10 bytes,
    length_readRecords 10 bytes⟩

@[simp] theorem length_usernameBytes (username : Block UInt16 10) :
    (usernameBytes username).length = 20 := by
  unfold usernameBytes
  rw [length_flatMap_of_size fun unit : UInt16 => length_toBigEndian 2 unit.toNat,
    username.2]

/-- SOURCE: nwm_uds.h:97-117 -/
structure NetworkInfo where
  hostMacAddress : MacAddress := Block.replicate 6 0
  channel : UInt8 := 0
  initialized : UInt8 := 0
  ouiValue : Block UInt8 3 := .replicate 3 0
  ouiType : UInt8 := 0
  wlanCommId : UInt32 := 0
  id : UInt8 := 0
  padding15 : UInt8 := 0
  attributes : UInt16 := 0
  networkId : UInt32 := 0
  totalNodes : UInt8 := 0
  maxNodes : UInt8 := 0
  padding1E : Block UInt8 2 := .replicate 2 0
  padding20 : Block UInt8 31 := .replicate 31 0
  applicationDataSize : UInt8 := 0
  applicationData : Block UInt8 0xC8 := .replicate 0xC8 0
  deriving DecidableEq

/-- The bytes of the structure from the OUI to the application data. -/
def NetworkInfo.bytesFromOUI (info : NetworkInfo) : List UInt8 :=
  info.ouiValue.1 ++ [info.ouiType] ++ toBigEndian 4 info.wlanCommId.toNat ++
    [info.id, info.padding15] ++ toBigEndian 2 info.attributes.toNat ++
    toBigEndian 4 info.networkId.toNat ++ [info.totalNodes, info.maxNodes] ++ info.padding1E.1 ++
    info.padding20.1 ++ [info.applicationDataSize] ++ info.applicationData.1

/-!
## Beacons of local networks

How the host of a network puts its description and its nodes into a beacon frame (`uds_beacon.cpp`),
and how the nodes are taken out again (`NWM_UDS::DecryptBeaconData`). The hashes and the keystream of
the cipher are parameters. Reading the data of a buffer outside its bounds is undefined.
-/

/-- The cryptographic functions: the digests, and the keystream of AES in counter mode under the
beacon key for an initial counter. -/
structure BeaconCrypto where
  md5 : List UInt8 → Block UInt8 16
  sha1 : List UInt8 → Block UInt8 20
  keystream : List UInt8 → ℕ → UInt8

/-- `ProcessData` in counter mode. -/
def BeaconCrypto.process (c : BeaconCrypto) (counter bytes : List UInt8) : List UInt8 :=
  bytes.mapIdx fun i b => b ^^^ c.keystream counter i

def defaultNetworkUptime : ℕ := 900000000
def defaultBeaconInterval : ℕ := 100
def defaultExtraCapabilities : ℕ := 0x0431
def udsBeaconSSIDSize : ℕ := 8

/-- `EncryptedDataSizeCutoff`. -/
def encryptedDataSizeCutoff : ℕ := 0xFA

/-- `TagId::VendorSpecific`. -/
def vendorSpecific : UInt8 := 221

/-- The sizes of the structures. -/
def tagHeaderSize : ℕ := 2
def networkInfoTagSize : ℕ := 54
def encryptedDataTagSize : ℕ := 6
def beaconNodeInfoSize : ℕ := 0x1E
def beaconDataSize : ℕ := 0x12

/-- SOURCE: uds_beacon.cpp:44-57 -/
def generateFixedParameters : List UInt8 :=
  toLittleEndian 8 defaultNetworkUptime ++ toLittleEndian 2 defaultBeaconInterval ++
    toLittleEndian 2 defaultExtraCapabilities

/-- SOURCE: uds_beacon.cpp:63-75 -/
def generateSSIDTag : List UInt8 :=
  [0, UInt8.ofNat udsBeaconSSIDSize] ++ List.replicate udsBeaconSSIDSize 0

/-- SOURCE: uds_beacon.cpp:82-93 -/
def generateBasicTaggedParameters : List UInt8 := generateSSIDTag

/-- SOURCE: uds_beacon.cpp:101-117 -/
def generateNintendoDummyTag : List UInt8 :=
  [vendorSpecific, 7] ++ nintendoOUI.1 ++ [NintendoTagId.dummy.value] ++ [0x0A, 0x00, 0x00]

/-- SOURCE: uds_beacon.cpp:125-160 -/
def generateNintendoNetworkInfoTag (c : BeaconCrypto) (info : NetworkInfo) : Exec (List UInt8) := do
  assert (info.ouiType = NintendoTagId.networkInfo.value) .networkOuiType
  assert (info.ouiValue = nintendoOUI) .networkOui
  assert (info.applicationDataSize.toNat ≤ applicationDataSize) .applicationDataSize
  let size := info.applicationDataSize.toNat
  let length := UInt8.ofNat (networkInfoTagSize - tagHeaderSize + size)
  let tag := [vendorSpecific, length] ++ info.bytesFromOUI.take 0x1F ++
    List.replicate 0x14 0 ++ [info.applicationDataSize]
  let data ← readRun .undefined info.applicationData.1 0 size
  let buffer := tag ++ data
  pure (overwrite buffer (tagHeaderSize + 0x1F) (c.sha1 (buffer.drop tagHeaderSize)).1)

/-- SOURCE: uds_beacon.cpp:167-179 -/
def getBeaconCryptoCTR (info : NetworkInfo) : List UInt8 :=
  info.hostMacAddress.1 ++ toLittleEndian 4 info.wlanCommId.toNat ++ [info.id, 0] ++
    toLittleEndian 4 info.networkId.toNat

/-- The bytes of a `BeaconNodeInfo`. -/
def beaconNodeInfo (node : NodeInfo) : List UInt8 :=
  toBigEndian 8 node.friendCodeSeed.toNat ++ usernameBytes node.username ++
    toBigEndian 2 node.networkNodeId.toNat

/-- The nodes behind the header, with the hash in it.
SOURCE: uds_beacon.cpp:187-218 -/
def serializedNodes (c : BeaconCrypto) (nodes : List NodeInfo) : List UInt8 :=
  let buffer := List.replicate beaconDataSize 0 ++ nodes.flatMap beaconNodeInfo
  overwrite buffer 0 (c.md5 (buffer.drop 16)).1

/-- SOURCE: uds_beacon.cpp:186-227 -/
def generatedEncryptedData (c : BeaconCrypto) (info : NetworkInfo) (nodes : List NodeInfo) :
    List UInt8 :=
  c.process (getBeaconCryptoCTR info) (serializedNodes c nodes)

/-- SOURCE: uds_beacon.cpp:229-236 -/
def decryptBeacon (c : BeaconCrypto) (info : NetworkInfo) (buffer : List UInt8) : List UInt8 :=
  c.process (getBeaconCryptoCTR info) buffer

/-- SOURCE: uds_beacon.cpp:244-262 -/
def generateNintendoFirstEncryptedDataTag (c : BeaconCrypto) (info : NetworkInfo)
    (nodes : List NodeInfo) : Exec (List UInt8) := do
  let payloadSize := min encryptedDataSizeCutoff (nodes.length * nodeInfoSize)
  let length := UInt8.ofNat (encryptedDataTagSize - tagHeaderSize + payloadSize)
  let tag := [vendorSpecific, length] ++ nintendoOUI.1 ++ [NintendoTagId.encryptedData0.value]
  let payload ← readRun .undefined (generatedEncryptedData c info nodes) 0 payloadSize
  pure (tag ++ payload)

/-- SOURCE: uds_beacon.cpp:272-300 -/
def generateNintendoSecondEncryptedDataTag (c : BeaconCrypto) (info : NetworkInfo)
    (nodes : List NodeInfo) : Exec (List UInt8) :=
  if nodes.length * nodeInfoSize ≤ encryptedDataSizeCutoff then .ok []
  else do
    let payloadSize := nodes.length * nodeInfoSize - encryptedDataSizeCutoff
    let tagLength := encryptedDataTagSize - tagHeaderSize + payloadSize
    assert (tagLength ≤ 255) .secondTagLength
    let tag := [vendorSpecific, UInt8.ofNat tagLength] ++ nintendoOUI.1 ++
      [NintendoTagId.encryptedData1.value]
    let payload ← readRun .undefined (generatedEncryptedData c info nodes)
      encryptedDataSizeCutoff payloadSize
    pure (tag ++ payload)

/-- SOURCE: uds_beacon.cpp:307-322 -/
def generateNintendoTaggedParameters (c : BeaconCrypto) (info : NetworkInfo)
    (nodes : List NodeInfo) : Exec (List UInt8) := do
  assert (info.maxNodes.toNat = nodes.length) .networkNodes
  let networkInfoTag ← generateNintendoNetworkInfoTag c info
  let firstDataTag ← generateNintendoFirstEncryptedDataTag c info nodes
  let secondDataTag ← generateNintendoSecondEncryptedDataTag c info nodes
  pure (generateNintendoDummyTag ++ networkInfoTag ++ firstDataTag ++ secondDataTag)

/-- SOURCE: uds_beacon.cpp:324-333 -/
def generateBeaconFrame (c : BeaconCrypto) (info : NetworkInfo) (nodes : List NodeInfo) :
    Exec (List UInt8) := do
  let nintendoTags ← generateNintendoTaggedParameters c info nodes
  pure (generateFixedParameters ++ generateBasicTaggedParameters ++ nintendoTags)

/-- A node from the bytes of a `BeaconNodeInfo`. -/
def readBeaconNodeInfo (bytes : List UInt8) : NodeInfo where
  friendCodeSeed := UInt64.ofNat (ofBigEndian (bytes.take 8))
  username := readUsername (bytes.drop 8)
  networkNodeId := UInt16.ofNat (ofBigEndian ((bytes.drop 28).take 2))

/-- What a game gets for the contents of the two encrypted tags, from their OUI on: the nodes that
are put into the output buffer, which has room for `UDSMaxNodes`.
SOURCE: nwm_uds.cpp:1374-1438 -/
def decryptBeaconData (c : BeaconCrypto) (info : NetworkInfo) (data0 data1 : List UInt8) :
    Exec (List NodeInfo) := do
  let oui ← readRun .undefined data0 0 3
  assert (oui = nintendoOUI.1) .beaconOui
  let tagId ← readAt .undefined data0 3
  assert (tagId = NintendoTagId.encryptedData0.value) .beaconTagId
  let front ← readRun .undefined data0 4 (u64Sub data0.length 4)
  let back ← readRun .undefined data1 4 (u64Sub data1.length 4)
  let beaconData := decryptBeacon c info (front ++ back)
  let _ ← readRun .undefined beaconData 0 beaconDataSize
  let nodes ← (List.range info.maxNodes.toNat).mapM fun i => do
    let bytes ← readRun .undefined beaconData (beaconDataSize + i * beaconNodeInfoSize)
      beaconNodeInfoSize
    pure (readBeaconNodeInfo bytes)
  if nodes.length ≤ udsMaxNodes then pure nodes else .error .undefined

end Borked3DS.Model.NWM
