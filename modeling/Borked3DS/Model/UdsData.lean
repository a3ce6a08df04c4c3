import Borked3DS.Model.UdsBeacon

/-!
# Frames of local networks

The management frames of `uds_connection.cpp` and the data frames of `uds_data.cpp`: how their bytes
are made, and how their fields are copied out of the bytes that were received. Copying bytes that a
frame does not have is undefined.
-/

set_option autoImplicit false

namespace Borked3DS.Model.NWM

open Borked3DS.Library Borked3DS.Model Borked3DS.Model.Network

/-- SOURCE: uds_data.h:21 -/
inductive EtherType
  | secureData | eapol
  deriving DecidableEq, Repr

def EtherType.value : EtherType → ℕ
  | .secureData => 0x876D
  | .eapol => 0x888E

/-- The sizes of the structures. -/
def llcHeaderSize : ℕ := 8
def secureDataHeaderSize : ℕ := 14
def eapolNodeInfoSize : ℕ := 0x28
def eapolStartPacketSize : ℕ := 0x30
def eapolLogoffPacketSize : ℕ := 0x298
def authenticationFrameSize : ℕ := 6
def associationResponseFrameSize : ℕ := 6

def eapolStartMagic : ℕ := 0x201
def eapolLogoffMagic : ℕ := 0x202

/-! ## Management frames -/

/-- SOURCE: uds_connection.h:17 -/
inductive AuthenticationSeq
  | seq1 | seq2
  deriving DecidableEq, Repr

def AuthenticationSeq.value : AuthenticationSeq → ℕ
  | .seq1 => 1
  | .seq2 => 2

/-- SOURCE: uds_connection.cpp:16-24 -/
def generateAuthenticationFrame (seq : AuthenticationSeq) : List UInt8 :=
  toLittleEndian 2 0 ++ toLittleEndian 2 seq.value ++ toLittleEndian 2 0

/-- SOURCE: uds_connection.cpp:26-31 -/
def getAuthenticationSeqNumber (body : List UInt8) : Exec ℕ := do
  let frame ← readRun .undefined body 0 authenticationFrameSize
  pure (ofLittleEndian ((frame.drop 2).take 2))

/-- A hexadecimal digit. -/
def hexDigit (x : ℕ) : UInt8 := UInt8.ofNat (if x % 16 < 10 then 0x30 + x % 16 else 0x37 + x % 16)

/-- SOURCE: uds_connection.cpp:39-56 -/
def generateNetworkSSIDTag (networkId : UInt32) : List UInt8 :=
  [0, 8] ++ ((List.range 8).reverse.map fun i => hexDigit (networkId.toNat / 16 ^ i))

/-- SOURCE: uds_connection.cpp:58-77 -/
def generateAssocResponseFrame (status associationId : ℕ) (networkId : UInt32) : List UInt8 :=
  toLittleEndian 2 0x0431 ++ toLittleEndian 2 status ++
    toLittleEndian 2 (associationId ||| 0xC000) ++ generateNetworkSSIDTag networkId

/-- The status, and the association id.
SOURCE: uds_connection.cpp:79-85 -/
def getAssociationResult (body : List UInt8) : Exec (ℕ × ℕ) := do
  let frame ← readRun .undefined body 0 associationResponseFrameSize
  pure (ofLittleEndian ((frame.drop 2).take 2), ofLittleEndian ((frame.drop 4).take 2) &&& 0x3FFF)

/-! ## Data frames -/

/-- SOURCE: uds_data.cpp:27-35 -/
def generateLLCHeader (protocol : EtherType) : List UInt8 :=
  [0xAA, 0xAA, 0x03, 0x00, 0x00, 0x00] ++ toBigEndian 2 protocol.value

/-- What the header of a data packet says. -/
structure SecureDataHeader where
  protocolSize : UInt16
  securedataSize : UInt16
  isManagement : UInt8
  dataChannel : UInt8
  sequenceNumber : UInt16
  destNodeId : UInt16
  srcNodeId : UInt16
  deriving DecidableEq, Repr

namespace SecureDataHeader

/-- `GetActualDataSize`. -/
def getActualDataSize (header : SecureDataHeader) : ℕ :=
  u32Sub header.protocolSize.toNat secureDataHeaderSize

/-- The bytes of the structure. -/
def bytes (header : SecureDataHeader) : List UInt8 :=
  toBigEndian 2 header.protocolSize.toNat ++ [0, 0] ++ toBigEndian 2 header.securedataSize.toNat ++
    [header.isManagement, header.dataChannel] ++ toBigEndian 2 header.sequenceNumber.toNat ++
    toBigEndian 2 header.destNodeId.toNat ++ toBigEndian 2 header.srcNodeId.toNat

end SecureDataHeader

/-- A 16-bit word among some bytes. -/
def word16 (bytes : List UInt8) (offset : ℕ) : UInt16 :=
  UInt16.ofNat (ofBigEndian ((bytes.drop offset).take 2))

/-- SOURCE: uds_data.cpp:41-62 -/
def generateSecureDataHeader (dataSize : UInt16) (channel : UInt8)
    (destNodeId srcNodeId sequenceNumber : UInt16) : List UInt8 :=
  SecureDataHeader.bytes
    { protocolSize := dataSize + UInt16.ofNat secureDataHeaderSize
      securedataSize := dataSize + UInt16.ofNat secureDataHeaderSize - 4
      isManagement := 0
      dataChannel := channel
      sequenceNumber
      destNodeId
      srcNodeId }

/-- SOURCE: uds_data.cpp:270-279 -/
def generateDataPayload (data : List UInt8) (channel : UInt8)
    (destNode srcNode sequenceNumber : UInt16) : List UInt8 :=
  generateLLCHeader .secureData ++
    generateSecureDataHeader (UInt16.ofNat data.length) channel destNode srcNode sequenceNumber ++
    data

/-- SOURCE: uds_data.cpp:281-288 -/
def parseSecureDataHeader (data : List UInt8) : Exec SecureDataHeader := do
  let bytes ← readRun .undefined data llcHeaderSize secureDataHeaderSize
  pure
    { protocolSize := word16 bytes 0
      securedataSize := word16 bytes 4
      isManagement := bytes.getD 6 0
      dataChannel := bytes.getD 7 0
      sequenceNumber := word16 bytes 8
      destNodeId := word16 bytes 10
      srcNodeId := word16 bytes 12 }

/-- The bytes of an `EAPoLNodeInfo`. -/
def eapolNodeInfo (node : NodeInfo) : List UInt8 :=
  toBigEndian 8 node.friendCodeSeed.toNat ++ usernameBytes node.username ++ [0, 0, 0, 0] ++
    toBigEndian 2 node.networkNodeId.toNat ++ [0, 0, 0, 0, 0, 0]

/-- `DeserializeNodeInfo`, from the bytes of an `EAPoLNodeInfo`.
SOURCE: uds_data.cpp:340-348 -/
def deserializeNodeInfo (bytes : List UInt8) : NodeInfo where
  friendCodeSeed := UInt64.ofNat (ofBigEndian (bytes.take 8))
  username := readUsername (bytes.drop 8)
  networkNodeId := word16 bytes 32

/-- The node id of the client is not sent.
SOURCE: uds_data.cpp:290-310 -/
def generateEAPoLStartFrame (associationId : UInt16) (node : NodeInfo) : List UInt8 :=
  generateLLCHeader .eapol ++ toBigEndian 2 eapolStartMagic ++
    toBigEndian 2 associationId.toNat ++ toBigEndian 2 1 ++ [0, 0] ++
    eapolNodeInfo { node with networkNodeId := 0 }

/-- SOURCE: uds_data.cpp:312-316 -/
def getFrameEtherType (frame : List UInt8) : Exec ℕ := do
  let header ← readRun .undefined frame 0 llcHeaderSize
  pure (ofBigEndian ((header.drop 6).take 2))

/-- SOURCE: uds_data.cpp:318-323 -/
def getEAPoLFrameType (frame : List UInt8) : Exec ℕ := do
  let bytes ← readRun .undefined frame llcHeaderSize 2
  pure (ofBigEndian bytes)

/-- The node id is left zero.
SOURCE: uds_data.cpp:325-338 -/
def deserializeNodeInfoFromFrame (frame : List UInt8) : Exec NodeInfo := do
  let bytes ← readRun .undefined frame llcHeaderSize eapolStartPacketSize
  pure { deserializeNodeInfo (bytes.drop 8) with networkNodeId := 0 }

/-- What an `EAPoLLogoffPacket` says, with its nodes deserialized. -/
structure EAPoLLogoffPacket where
  assignedNodeId : UInt16
  connectedNodes : UInt8
  maxNodes : UInt8
  nodes : List NodeInfo
  deriving DecidableEq

/-- The MAC address of the client is not sent. The loop copies `maxNodes` nodes into the 16 of the
packet.
SOURCE: uds_data.cpp:350-374 -/
def generateEAPoLLogoffFrame (networkNodeId : UInt16) (nodes : List NodeInfo)
    (maxNodes totalNodes : UInt8) : Exec (List UInt8) := do
  let sent ← readRun .undefined nodes 0 maxNodes.toNat
  let slots ← writeRun .undefined (List.replicate udsMaxNodes (default : NodeInfo)) 0 sent
  pure (generateLLCHeader .eapol ++ toBigEndian 2 eapolLogoffMagic ++ [0, 0] ++
    toBigEndian 2 networkNodeId.toNat ++ List.replicate 12 0 ++ [totalNodes, maxNodes] ++
    [0, 0, 0, 0] ++ slots.flatMap eapolNodeInfo)

/-- SOURCE: uds_data.cpp:376-382 -/
def parseEAPoLLogoffFrame (frame : List UInt8) : Exec EAPoLLogoffPacket := do
  let bytes ← readRun .undefined frame llcHeaderSize eapolLogoffPacketSize
  pure
    { assignedNodeId := word16 bytes 4
      connectedNodes := bytes.getD 18 0
      maxNodes := bytes.getD 19 0
      nodes := readRecords deserializeNodeInfo eapolNodeInfoSize udsMaxNodes (bytes.drop 24) }

end Borked3DS.Model.NWM
