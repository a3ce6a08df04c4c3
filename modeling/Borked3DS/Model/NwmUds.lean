import Borked3DS.Model.UdsData

/-!
# The service for local wireless networks

`NWM_UDS` of `nwm_uds.cpp`: the state of the service, what it does with the packets that it receives
over the room, and the requests of a game. Packets that are handed to the room are recorded in the
order in which that happens. Events that are signalled, and the beacons that a timer sends, are left
out.
-/

set_option autoImplicit false

namespace Borked3DS.Model.NWM

open Borked3DS.Library Borked3DS.Model Borked3DS.Model.Network

/-- The types of packets, with one for all values that no packet should have.
SOURCE: room_member.h:21-28 -/
inductive WifiPacketType
  | beacon | data | authentication | associationResponse | deauthentication | nodeMap | other
  deriving DecidableEq, Repr

/-- SOURCE: room_member.h:20-45 -/
structure WifiPacket where
  type : WifiPacketType
  data : List UInt8 := []
  transmitterAddress : MacAddress := Block.replicate 6 0
  destinationAddress : MacAddress
  channel : UInt8
  deriving DecidableEq

/-- The status, with the zero that it is before the service is initialized.
SOURCE: nwm_uds.h:70-76 -/
inductive NetworkStatus
  | uninitialized | notConnected | connectedAsHost | connecting | connectedAsClient
  | connectedAsSpectator
  deriving DecidableEq, Repr

/-- SOURCE: nwm_uds.h:78-82 -/
inductive NetworkStatusChangeReason
  | none | connectionEstablished | connectionLost
  deriving DecidableEq, Repr

/-- SOURCE: nwm_uds.h:84-93 -/
structure ConnectionStatus where
  status : NetworkStatus := .uninitialized
  statusChangeReason : NetworkStatusChangeReason := .none
  networkNodeId : UInt16 := 0
  changedNodes : UInt16 := 0
  nodes : Block UInt16 udsMaxNodes := .replicate udsMaxNodes 0
  totalNodes : UInt8 := 0
  maxNodes : UInt8 := 0
  nodeBitmask : UInt16 := 0
  deriving DecidableEq

/-- SOURCE: nwm_uds.h:565-576 -/
structure Node where
  connected : Bool := false
  nodeId : UInt16 := 0
  deriving DecidableEq

/-- `std::map`, as its entries in the order of the addresses. -/
abbrev NodeMap := List (MacAddress × Node)

namespace NodeMap

def find (m : NodeMap) (address : MacAddress) : Option Node :=
  (List.find? (fun entry => entry.1 = address) m).map Prod.snd

/-- A new entry at its place. -/
def insertNew (address : MacAddress) (node : Node) : NodeMap → NodeMap
  | [] => [(address, node)]
  | entry :: m =>
      if address.1 < entry.1.1 then (address, node) :: entry :: m
      else entry :: insertNew address node m

/-- `operator[]` on the left of an assignment. -/
def set (m : NodeMap) (address : MacAddress) (node : Node) : NodeMap :=
  if (m.find address).isSome then
    m.map fun entry => if entry.1 = address then (address, node) else entry
  else insertNew address node m

def erase (m : NodeMap) (address : MacAddress) : NodeMap :=
  m.filter fun entry => entry.1 ≠ address

end NodeMap

/-- SOURCE: nwm_uds.h:545-552 -/
structure BindNodeData where
  bindNodeId : UInt32
  channel : UInt8
  networkNodeId : UInt16
  receivedPackets : List (List UInt8) := []
  deriving DecidableEq

/-- The bound channels stand in the order in which the map goes through them. The member of the room
is its address, if there is a room that it has joined.
SOURCE: nwm_uds.h:517-598 -/
structure NwmUds where
  connectionStatus : ConnectionStatus := {}
  initialized : Bool := false
  nodeInfo : List NodeInfo := []
  currentNode : NodeInfo := {}
  channelData : List BindNodeData := []
  networkChannel : UInt8 := defaultNetworkChannel
  networkInfo : NetworkInfo := {}
  nodeMap : NodeMap := []
  receivedBeacons : List WifiPacket := []
  roomMember : Option MacAddress
  sent : List WifiPacket := []
  deriving DecidableEq

/-- The results of the requests. -/
inductive UdsResult
  | success
  | notAuthorizedState | notAuthorized | notFound | tooLarge | outOfMemory | wrongStatus
  deriving DecidableEq, Repr

def maxBeaconFrames : ℕ := 15
def broadcastNetworkNodeId : UInt16 := 0xFFFF
def hostDestNodeId : UInt16 := 1

/-- A bit of a mask: `1 << index`. -/
def nodeBit (index : ℕ) : UInt16 := UInt16.ofNat (2 ^ index)

namespace NwmUds

/-- The beacons of a sender, which are taken out of the list.
SOURCE: nwm_uds.cpp:59-75 -/
def getReceivedBeacons (s : NwmUds) (sender : MacAddress) : List WifiPacket × NwmUds :=
  if sender ≠ broadcastMac then
    ((s.receivedBeacons.find? fun packet => packet.transmitterAddress = sender).toList,
      { s with
        receivedBeacons :=
          s.receivedBeacons.eraseP fun packet => packet.transmitterAddress = sender })
  else (s.receivedBeacons, { s with receivedBeacons := [] })

/-- SOURCE: nwm_uds.cpp:78-87 -/
def sendPacket (s : NwmUds) (packet : WifiPacket) : NwmUds :=
  match s.roomMember with
  | some address =>
      { s with sent := s.sent ++ [{ packet with transmitterAddress := address }] }
  | none => s

/-- What is handed to the room when a packet is sent. -/
def outgoing (s : NwmUds) (packet : WifiPacket) : List WifiPacket :=
  (s.roomMember.map fun address => { packet with transmitterAddress := address }).toList

/-- Sending changes nothing else. -/
theorem sendPacket_eq (s : NwmUds) (packet : WifiPacket) :
    s.sendPacket packet = { s with sent := s.sent ++ s.outgoing packet } := by
  unfold sendPacket outgoing
  obtain ⟨_, _, _, _, _, _, _, _, _, roomMember, _⟩ := s
  cases roomMember with
  | none => simp
  | some address => rfl

/-- SOURCE: nwm_uds.cpp:89-98 -/
def getNextAvailableNodeId (s : NwmUds) : Exec UInt16 :=
  let status := s.connectionStatus
  match (List.range status.maxNodes.toNat).find? fun index =>
      !status.nodeBitmask.toNat.testBit index with
  | some index => .ok (UInt16.ofNat (index + 1))
  | none => .error (.assertion .connectionSlots)

/-- SOURCE: nwm_uds.cpp:100-124 -/
def broadcastNodeMap (s : NwmUds) : NwmUds :=
  let connected := s.nodeMap.filter fun entry => entry.2.connected
  s.sendPacket
    { type := .nodeMap
      data := toLittleEndian 8 connected.length ++
        connected.flatMap fun entry => entry.1.1 ++ toLittleEndian 2 entry.2.nodeId.toNat
      destinationAddress := broadcastMac
      channel := s.networkChannel }

/-- The entries of a node map, one after the other. -/
def readNodeMap (data : List UInt8) : ℕ → ℕ → NodeMap → Exec NodeMap
  | 0, _, m => .ok m
  | entries + 1, offset, m => do
      let address ← readRun .undefined data offset 6
      let id ← readRun .undefined data (offset + 6) 2
      let address : MacAddress := if h : address.length = 6 then ⟨address, h⟩ else broadcastMac
      readNodeMap data entries (offset + 8)
        (m.set address { connected := true, nodeId := UInt16.ofNat (ofLittleEndian id) })

/-- SOURCE: nwm_uds.cpp:126-146 -/
def handleNodeMapPacket (s : NwmUds) (packet : WifiPacket) : Exec NwmUds :=
  if s.connectionStatus.status = .connectedAsHost then .ok s
  else do
    let numEntries ← readRun .undefined packet.data 0 8
    let nodeMap ← readNodeMap packet.data (ofLittleEndian numEntries) 8 []
    pure { s with nodeMap }

/-- SOURCE: nwm_uds.cpp:148-165 -/
def handleBeaconFrame (s : NwmUds) (packet : WifiPacket) : NwmUds :=
  let beacons := (s.receivedBeacons.eraseP fun beacon =>
    beacon.transmitterAddress = packet.transmitterAddress) ++ [packet]
  { s with
    receivedBeacons := if beacons.length > maxBeaconFrames then beacons.tail else beacons }

/-- SOURCE: nwm_uds.cpp:167-192 -/
def handleAssociationResponseFrame (s : NwmUds) (packet : WifiPacket) : Exec NwmUds := do
  let (status, associationId) ← getAssociationResult packet.data
  assert (status = 0) .associationStatus
  if s.connectionStatus.status ≠ .connecting then pure s
  else
    pure <| s.sendPacket
      { type := .data
        data := generateEAPoLStartFrame (UInt16.ofNat associationId) s.currentNode
        destinationAddress := packet.transmitterAddress
        channel := s.networkChannel }

/-- A client takes a slot: its place in the array, and its bit in the masks.
SOURCE: nwm_uds.cpp:218-235 -/
def takeSlot (s : NwmUds) (address : MacAddress) (node : NodeInfo) (nodeId : UInt16) :
    Exec NwmUds := do
  let index := nodeId.toNat - 1
  let status := s.connectionStatus
  let nodes ← status.nodes.write index nodeId
  let nodeInfo ← writeAt s.nodeInfo index { node with networkNodeId := nodeId }
  pure
    { s with
      connectionStatus :=
        { status with
          nodeBitmask := status.nodeBitmask ||| nodeBit index
          changedNodes := status.changedNodes ||| nodeBit index
          nodes
          totalNodes := status.totalNodes + 1 }
      nodeInfo
      networkInfo := { s.networkInfo with totalNodes := s.networkInfo.totalNodes + 1 }
      nodeMap := s.nodeMap.set address { connected := true, nodeId } }

/-- The EAPoL-Start packet of a client that has been authenticated.
SOURCE: nwm_uds.cpp:197-255 -/
def handleEAPoLStart (s : NwmUds) (packet : WifiPacket) : Exec NwmUds :=
  if s.connectionStatus.status ≠ .connectedAsHost then .ok s
  else
    match s.nodeMap.find packet.transmitterAddress with
    | none => .ok s
    | some known =>
        if known.connected then .ok s
        else do
          assert (s.connectionStatus.maxNodes ≠ s.connectionStatus.totalNodes) .networkFull
          let node ← deserializeNodeInfoFromFrame packet.data
          let nodeId ← s.getNextAvailableNodeId
          let s ← s.takeSlot packet.transmitterAddress node nodeId
          let s := s.broadcastNodeMap
          let data ← generateEAPoLLogoffFrame nodeId s.nodeInfo s.networkInfo.maxNodes
            s.networkInfo.totalNodes
          pure <| s.sendPacket
            { type := .data, data, destinationAddress := broadcastMac,
              channel := s.networkChannel }

/-- The nodes of a logoff packet enter the array, the mask and the list, one after the other.
SOURCE: nwm_uds.cpp:272-283, 308-318 -/
def enterNodes : List NodeInfo → ConnectionStatus × List NodeInfo →
    Exec (ConnectionStatus × List NodeInfo)
  | [], lists => .ok lists
  | node :: rest, (status, nodeInfo) =>
      if node.networkNodeId = 0 then enterNodes rest (status, nodeInfo)
      else do
        let index := node.networkNodeId.toNat - 1
        let nodes ← status.nodes.write index node.networkNodeId
        let nodeInfo ← writeAt nodeInfo index node
        enterNodes rest
          ({ status with nodeBitmask := status.nodeBitmask ||| nodeBit index, nodes }, nodeInfo)

/-- SOURCE: nwm_uds.cpp:257-322 -/
def handleEAPoLLogoff (s : NwmUds) (packet : WifiPacket) : Exec NwmUds :=
  match s.connectionStatus.status with
  | .connecting => do
      let logoff ← parseEAPoLLogoffFrame packet.data
      let status :=
        { s.connectionStatus with
          networkNodeId := logoff.assignedNodeId
          totalNodes := logoff.connectedNodes
          maxNodes := logoff.maxNodes }
      let (status, nodeInfo) ← enterNodes logoff.nodes
        (status, List.replicate logoff.maxNodes.toNat default)
      let entered := logoff.nodes.foldl (fun mask node =>
        if node.networkNodeId = 0 then mask else mask ||| nodeBit (node.networkNodeId.toNat - 1))
        s.connectionStatus.changedNodes
      pure
        { s with
          networkInfo :=
            { s.networkInfo with
              hostMacAddress := packet.transmitterAddress
              totalNodes := logoff.connectedNodes
              maxNodes := logoff.maxNodes }
          connectionStatus :=
            { status with
              changedNodes := entered
              status := .connectedAsClient
              statusChangeReason := .connectionEstablished }
          nodeInfo }
  | .connectedAsClient => do
      let logoff ← parseEAPoLLogoffFrame packet.data
      let oldBitmask := s.connectionStatus.nodeBitmask
      let status :=
        { s.connectionStatus with
          totalNodes := logoff.connectedNodes
          nodes := .replicate udsMaxNodes 0
          nodeBitmask := 0 }
      let (status, nodeInfo) ← enterNodes logoff.nodes
        (status, List.replicate s.networkInfo.maxNodes.toNat default)
      pure
        { s with
          networkInfo := { s.networkInfo with totalNodes := logoff.connectedNodes }
          connectionStatus :=
            { status with changedNodes := oldBitmask ^^^ status.nodeBitmask }
          nodeInfo }
  | _ => .ok s

/-- SOURCE: nwm_uds.cpp:194-322 -/
def handleEAPoLPacket (s : NwmUds) (packet : WifiPacket) : Exec NwmUds := do
  let type ← getEAPoLFrameType packet.data
  if type = eapolStartMagic then s.handleEAPoLStart packet else s.handleEAPoLLogoff packet

/-- A packet for a channel enters the queue of the node that is bound to it.
SOURCE: nwm_uds.cpp:366-382 -/
def receiveData (s : NwmUds) (header : SecureDataHeader) (data : List UInt8) : NwmUds :=
  { s with
    channelData := s.channelData.map fun bound =>
      if bound.channel = header.dataChannel ∧
          (bound.networkNodeId = broadcastNetworkNodeId ∨
            bound.networkNodeId = header.srcNodeId) then
        { bound with receivedPackets := bound.receivedPackets ++ [data] }
      else bound }

/-- SOURCE: nwm_uds.cpp:324-383 -/
def handleSecureDataPacket (s : NwmUds) (packet : WifiPacket) : Exec NwmUds := do
  let secureData ← parseSecureDataHeader packet.data
  let status := s.connectionStatus
  if status.status ≠ .connectedAsHost ∧ status.status ≠ .connectedAsClient then pure s
  else if secureData.srcNodeId = status.networkNodeId then pure s
  else if secureData.destNodeId ≠ status.networkNodeId ∧
      secureData.destNodeId ≠ broadcastNetworkNodeId then
    -- A client ignores what is meant for others, however it has received it.
    if status.status = .connectedAsHost then
      pure (s.sendPacket { packet with destinationAddress := broadcastMac })
    else pure s
  else do
    assert (secureData.isManagement = 0) .managementFrame
    pure (s.receiveData secureData packet.data)

/-- SOURCE: nwm_uds.cpp:385-402 -/
def startConnectionSequence (s : NwmUds) (server : MacAddress) : NwmUds :=
  let s := { s with connectionStatus := { s.connectionStatus with status := .connecting } }
  s.sendPacket
    { type := .authentication, data := generateAuthenticationFrame .seq1,
      destinationAddress := server, channel := s.networkChannel }

/-- SOURCE: nwm_uds.cpp:404-427 -/
def sendAssociationResponseFrame (s : NwmUds) (address : MacAddress) : NwmUds :=
  if s.connectionStatus.status ≠ .connectedAsHost then s
  else
    s.sendPacket
      { type := .associationResponse
        data := generateAssocResponseFrame 0 1 s.networkInfo.networkId
        destinationAddress := address
        channel := s.networkChannel }

/-- SOURCE: nwm_uds.cpp:429-465 -/
def handleAuthenticationFrame (s : NwmUds) (packet : WifiPacket) : Exec NwmUds := do
  let seq ← getAuthenticationSeqNumber packet.data
  if seq ≠ AuthenticationSeq.seq1.value then pure s
  else if s.connectionStatus.status ≠ .connectedAsHost then pure s
  else if (s.nodeMap.find packet.transmitterAddress).isSome then pure s
  else if s.connectionStatus.maxNodes = s.connectionStatus.totalNodes then pure s
  else
    let s := { s with nodeMap := s.nodeMap.set packet.transmitterAddress {} }
    let s := s.sendPacket
      { type := .authentication, data := generateAuthenticationFrame .seq2,
        destinationAddress := packet.transmitterAddress, channel := s.networkChannel }
    pure (s.sendAssociationResponseFrame packet.transmitterAddress)

/-- The slot of a client that leaves becomes free.
SOURCE: nwm_uds.cpp:488-506 -/
def freeSlot (s : NwmUds) (nodeId : UInt16) : Exec NwmUds :=
  match s.nodeInfo.findIdx? fun info => info.networkNodeId = nodeId with
  | none => .ok s
  | some place => do
      let index ← if nodeId = 0 then .error .undefined else .ok (nodeId.toNat - 1)
      let status := s.connectionStatus
      let nodes ← status.nodes.write index 0
      pure
        { s with
          connectionStatus :=
            { status with
              nodeBitmask := status.nodeBitmask &&& ~~~ nodeBit index
              changedNodes := status.changedNodes ||| nodeBit index
              totalNodes := status.totalNodes - 1
              nodes }
          networkInfo := { s.networkInfo with totalNodes := s.networkInfo.totalNodes - 1 }
          nodeInfo := s.nodeInfo.modify place NodeInfo.reset }

/-- SOURCE: nwm_uds.cpp:467-507 -/
def handleDeauthenticationFrame (s : NwmUds) (packet : WifiPacket) : Exec NwmUds :=
  if s.connectionStatus.status ≠ .connectedAsHost then .ok s
  else
    match s.nodeMap.find packet.transmitterAddress with
    | none => .ok s
    | some node =>
        let s := { s with nodeMap := s.nodeMap.erase packet.transmitterAddress }
        if !node.connected then .ok s else s.freeSlot node.nodeId

/-- SOURCE: nwm_uds.cpp:509-518 -/
def handleDataFrame (s : NwmUds) (packet : WifiPacket) : Exec NwmUds := do
  let type ← getFrameEtherType packet.data
  if type = EtherType.eapol.value then s.handleEAPoLPacket packet
  else if type = EtherType.secureData.value then s.handleSecureDataPacket packet
  else pure s

/-- SOURCE: nwm_uds.cpp:521-545 -/
def onWifiPacketReceived (s : NwmUds) (packet : WifiPacket) : Exec NwmUds :=
  if !s.initialized then .ok s
  else
    match packet.type with
    | .beacon => .ok (s.handleBeaconFrame packet)
    | .authentication => s.handleAuthenticationFrame packet
    | .associationResponse => s.handleAssociationResponseFrame packet
    | .data => s.handleDataFrame packet
    | .deauthentication => s.handleDeauthenticationFrame packet
    | .nodeMap => s.handleNodeMapPacket packet
    | .other => .ok s

/-- SOURCE: nwm_uds.cpp:547-565 -/
def getNodeMacAddress (s : NwmUds) (destNodeId : UInt16) (flags : UInt8) : Option MacAddress :=
  if flags &&& 0x2 ≠ 0 ∨ destNodeId = broadcastNetworkNodeId then some broadcastMac
  else if destNodeId = hostDestNodeId then some s.networkInfo.hostMacAddress
  else
    (s.nodeMap.find? fun entry => entry.2.nodeId = destNodeId && entry.2.connected).map Prod.fst

/-- SOURCE: nwm_uds.cpp:567-587 -/
def shutdown (s : NwmUds) : NwmUds :=
  { s with initialized := false, channelData := [], nodeMap := [] }

/-- SOURCE: nwm_uds.cpp:654-681 -/
def initializeUds (s : NwmUds) (node : NodeInfo) : NwmUds :=
  { s with
    currentNode := node
    initialized := true
    connectionStatus := { status := .notConnected }
    nodeInfo := [node]
    channelData := [] }

/-- SOURCE: nwm_uds.cpp:716-733 -/
def getConnectionStatus (s : NwmUds) : ConnectionStatus × NwmUds :=
  (s.connectionStatus,
    { s with connectionStatus := { s.connectionStatus with changedNodes := 0 } })

/-- SOURCE: nwm_uds.cpp:766-815 -/
def bind (s : NwmUds) (bindNodeId recvBufferSize : UInt32) (dataChannel : UInt8)
    (networkNodeId : UInt16) : Exec (UdsResult × NwmUds) :=
  if dataChannel = 0 ∨ bindNodeId = 0 then .ok (.notAuthorized, s)
  else if 16 ≤ s.channelData.length then .ok (.outOfMemory, s)
  else if recvBufferSize < 0x5F4 then .ok (.tooLarge, s)
  else do
    assert (∀ bound ∈ s.channelData, bound.channel ≠ dataChannel) .channelBound
    pure (.success,
      { s with
        channelData := s.channelData ++ [{ bindNodeId, channel := dataChannel, networkNodeId }] })

/-- SOURCE: nwm_uds.cpp:817-848 -/
def unbind (s : NwmUds) (bindNodeId : UInt32) : UdsResult × NwmUds :=
  if bindNodeId = 0 then (.notAuthorized, s)
  else
    (.success,
      { s with channelData := s.channelData.eraseP fun bound => bound.bindNodeId = bindNodeId })

/-- The network information is what was in the buffer, and zero behind it.
SOURCE: nwm_uds.cpp:850-915 -/
def beginHostingNetwork (s : NwmUds) (networkInfo : NetworkInfo) : Exec NwmUds := do
  assert (networkInfo.maxNodes > 1) .hostMaxNodes
  assert (networkInfo.applicationDataSize.toNat ≤ applicationDataSize) .applicationDataSize
  let status := s.connectionStatus
  let nodes ← status.nodes.write 0 1
  let currentNode := { s.currentNode with networkNodeId := 1 }
  let nodeInfo ← writeAt (List.replicate networkInfo.maxNodes.toNat default) 0 currentNode
  let networkChannel :=
    if networkInfo.channel ≠ 0 then networkInfo.channel else s.networkChannel
  pure
    { s with
      networkInfo :=
        { networkInfo with
          ouiValue := nintendoOUI
          ouiType := NintendoTagId.networkInfo.value
          totalNodes := 1
          hostMacAddress := s.roomMember.getD (Block.replicate 6 0)
          channel :=
            if networkInfo.channel ≠ 0 then networkInfo.channel else defaultNetworkChannel }
      connectionStatus :=
        { status with
          status := .connectedAsHost
          statusChangeReason := .connectionEstablished
          maxNodes := networkInfo.maxNodes
          totalNodes := 1
          networkNodeId := 1
          nodes
          nodeBitmask := status.nodeBitmask ||| 1
          changedNodes := status.changedNodes ||| 1 }
      currentNode
      nodeInfo
      networkChannel }

/-- SOURCE: nwm_uds.cpp:953-1002 -/
def ejectClient (s : NwmUds) (networkNodeId : UInt16) : UdsResult × NwmUds :=
  if networkNodeId = 1 then (.notAuthorized, s)
  else if s.connectionStatus.status ≠ .connectedAsHost then (.notAuthorizedState, s)
  else
    let deauth (address : MacAddress) : WifiPacket :=
      { type := .deauthentication, destinationAddress := address, channel := s.networkChannel }
    if networkNodeId = broadcastNetworkNodeId then
      let packet := deauth broadcastMac
      (.success, ((s.sendPacket packet).sendPacket packet).sendPacket packet)
    else
      match s.getNodeMacAddress networkNodeId 0 with
      | none => (.success, s)
      | some address => (.success, s.sendPacket (deauth address))

/-- SOURCE: nwm_uds.cpp:1012-1048 -/
def destroyNetwork (s : NwmUds) : UdsResult × NwmUds :=
  if s.connectionStatus.status ≠ .connectedAsHost then (.wrongStatus, s)
  else
    (.success,
      { s with
        connectionStatus :=
          { status := .notConnected, networkNodeId := s.connectionStatus.networkNodeId }
        nodeMap := []
        channelData := [] })

/-- SOURCE: nwm_uds.cpp:1050-1093 -/
def disconnectNetwork (s : NwmUds) : UdsResult × NwmUds :=
  let networkNodeId := s.connectionStatus.networkNodeId
  if s.connectionStatus.status = .connectedAsHost then
    (.wrongStatus,
      { s with
        connectionStatus := { status := .connectedAsHost, networkNodeId }
        nodeMap := [] })
  else
    let s :=
      { s with connectionStatus := { status := .notConnected, networkNodeId }, nodeMap := [] }
    let s := s.sendPacket
      { type := .deauthentication, destinationAddress := s.networkInfo.hostMacAddress,
        channel := s.networkChannel }
    (.success, { s with channelData := [] })

/-- SOURCE: nwm_uds.cpp:1095-1171 -/
def sendTo (s : NwmUds) (destNodeId : UInt16) (dataChannel : UInt8) (dataSize : UInt32)
    (flags : UInt8) (inputBuffer : List UInt8) : Exec (UdsResult × NwmUds) := do
  assert (dataSize.toNat ≤ inputBuffer.length) .sendBufferSize
  let data := inputBuffer.take dataSize.toNat
  let status := s.connectionStatus
  if status.status ≠ .connectedAsClient ∧ status.status ≠ .connectedAsHost then
    pure (.notAuthorizedState, s)
  else if destNodeId = 0 then pure (.notFound, s)
  else if destNodeId = status.networkNodeId then pure (.notFound, s)
  else
    match s.getNodeMacAddress destNodeId flags with
    | none => pure (.notFound, s)
    | some destAddress =>
        if dataSize > 0x5C6 then pure (.tooLarge, s)
        else
          pure (.success, s.sendPacket
            { type := .data
              data := generateDataPayload data dataChannel destNodeId status.networkNodeId 0
              destinationAddress := destAddress
              channel := s.networkChannel })

/-- What a pulled packet brings: its size, the node it comes from, and the output buffer. -/
structure PulledPacket where
  dataSize : ℕ
  srcNodeId : UInt16
  outputBuffer : List UInt8
  deriving DecidableEq

/-- SOURCE: nwm_uds.cpp:1173-1240 -/
def pullPacket (s : NwmUds) (bindNodeId maxOutBuffSizeAligned maxOutBuffSize : UInt32) :
    Exec ((UdsResult × Option PulledPacket) × NwmUds) :=
  let buffSize := min maxOutBuffSizeAligned.toNat 0x172 * 4
  let status := s.connectionStatus.status
  if status ≠ .connectedAsHost ∧ status ≠ .connectedAsClient ∧ status ≠ .connectedAsSpectator then
    .ok ((.notAuthorizedState, none), s)
  else
    match s.channelData.find? fun bound => bound.bindNodeId = bindNodeId with
    | none => .ok ((.notAuthorized, none), s)
    | some channel =>
        match channel.receivedPackets with
        | [] => .ok ((.success, some ⟨0, 0, List.replicate buffSize 0⟩), s)
        | nextPacket :: rest => do
            let secureData ← parseSecureDataHeader nextPacket
            let dataSize := secureData.getActualDataSize
            if dataSize > maxOutBuffSize.toNat then pure ((.tooLarge, none), s)
            else do
              let data ← readRun .undefined nextPacket (llcHeaderSize + secureDataHeaderSize)
                dataSize
              let outputBuffer ← writeRun .undefined (List.replicate buffSize 0) 0 data
              pure ((.success, some ⟨dataSize, secureData.srcNodeId, outputBuffer⟩),
                { s with
                  channelData := s.channelData.map fun bound =>
                    if bound.channel = channel.channel then
                      { bound with receivedPackets := rest }
                    else bound })

/-- SOURCE: nwm_uds.cpp:1281-1296 -/
def connectToNetwork (s : NwmUds) (networkInfo : NetworkInfo) : NwmUds :=
  { s with networkInfo }.startConnectionSequence networkInfo.hostMacAddress

/-- SOURCE: nwm_uds.cpp:1331-1353 -/
def setApplicationData (s : NwmUds) (applicationData : List UInt8) : UdsResult × NwmUds :=
  if h : applicationData.length > 0xC8 then (.tooLarge, s)
  else
    (.success,
      { s with
        networkInfo :=
          { s.networkInfo with
            applicationDataSize := UInt8.ofNat applicationData.length
            applicationData :=
              ⟨overwrite s.networkInfo.applicationData.1 0 applicationData, by
                have hsize := s.networkInfo.applicationData.2
                rw [length_overwrite (by omega), hsize]⟩ } })

end NwmUds

end Borked3DS.Model.NWM
