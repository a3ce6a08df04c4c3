import Mathlib.Data.Finset.Card
import Mathlib.Data.Finset.Image
import Borked3DS.Model.NwmUds
import Borked3DS.Model.UdsBeacon

/-!
# What local wireless networks promise

The records that a host keeps of its nodes, the delivery of data between nodes, and the bounds of
the packets and arrays of the service.
-/

set_option autoImplicit false

namespace Borked3DS.Interface

open Borked3DS.Library Borked3DS.Model Borked3DS.Model.Network Borked3DS.Model.NWM

/-!
## Who is in a hosted network

What a host of a local network goes through, what its five records of the nodes have to agree on,
and which steps keep them in agreement.
-/

/-- What happens to a host: frames of clients, in any order, and the requests of its game. -/
inductive HostEvent
  | beginHostingNetwork (networkInfo : NetworkInfo)
  | authentication (client : MacAddress) (seq : AuthenticationSeq)
  | eapolStart (client : MacAddress) (associationId : UInt16) (node : NodeInfo)
  | deauthentication (client : MacAddress)
  | disconnectNetwork
  | destroyNetwork

/-- A frame that a client has made and that is addressed to the host. -/
def clientFrame (s : NwmUds) (type : WifiPacketType) (client : MacAddress) (data : List UInt8) :
    WifiPacket where
  type := type
  data := data
  transmitterAddress := client
  destinationAddress := s.networkInfo.hostMacAddress
  channel := s.networkChannel

def hostStep (s : NwmUds) : HostEvent → Exec NwmUds
  | .beginHostingNetwork networkInfo => s.beginHostingNetwork networkInfo
  | .authentication client seq =>
      s.onWifiPacketReceived
        (clientFrame s .authentication client (generateAuthenticationFrame seq))
  | .eapolStart client associationId node =>
      s.onWifiPacketReceived
        (clientFrame s .data client (generateEAPoLStartFrame associationId node))
  | .deauthentication client =>
      s.onWifiPacketReceived (clientFrame s .deauthentication client [])
  | .disconnectNetwork => .ok s.disconnectNetwork.2
  | .destroyNetwork => .ok s.destroyNetwork.2

/-- A network is hosted from `beginHostingNetwork` on until it is left: a host that has called
`disconnectNetwork` keeps its status, but has no network with room for nodes any more. -/
def IsHosting (s : NwmUds) : Prop :=
  s.connectionStatus.status = .connectedAsHost ∧ s.connectionStatus.maxNodes ≠ 0

/-- The service is initialized, and no network is hosted or joined. -/
def ReadyToHost (s : NwmUds) : Prop :=
  s.initialized = true ∧ s.nodeMap = [] ∧
    ∃ networkNodeId, s.connectionStatus = { status := .notConnected, networkNodeId }

/-! ### The records -/

/-- The id of the node in a slot. -/
def slotId (index : ℕ) : UInt16 := UInt16.ofNat (index + 1)

/-- The ids whose bits are set in the mask. -/
def maskIds (s : NwmUds) : Finset UInt16 :=
  ((Finset.range udsMaxNodes).filter fun index =>
    s.connectionStatus.nodeBitmask.toNat.testBit index = true).image slotId

/-- The ids in the array of nodes. -/
def arrayIds (s : NwmUds) : Finset UInt16 := s.connectionStatus.nodes.1.toFinset.erase 0

/-- The ids in the list of records. -/
def listIds (s : NwmUds) : Finset UInt16 :=
  (s.nodeInfo.map NodeInfo.networkNodeId).toFinset.erase 0

/-- The ids of the clients that are connected, in the order of the map. -/
def connectedIds (m : NodeMap) : List UInt16 :=
  (m.filter fun entry => entry.2.connected).map fun entry => entry.2.nodeId

/-- The ids of the clients that are connected, and the one of the host. -/
def mapIds (s : NwmUds) : Finset UInt16 := insert 1 (connectedIds s.nodeMap).toFinset

/-- The records of the nodes denote one set of ids, the numbers of nodes are its size and not above
the largest one, and connected clients with one id are one client. -/
structure AgreesOnMembers (s : NwmUds) : Prop where
  array : arrayIds s = maskIds s
  list : listIds s = maskIds s
  map : mapIds s = maskIds s
  total : s.connectionStatus.totalNodes.toNat = (maskIds s).card
  networkTotal : s.networkInfo.totalNodes.toNat = (maskIds s).card
  bounded : s.connectionStatus.totalNodes ≤ s.connectionStatus.maxNodes
  distinct : ∀ a ∈ s.nodeMap, ∀ b ∈ s.nodeMap, a.2.connected = true → b.2.connected = true →
    a.2.nodeId = b.2.nodeId → a.1 = b.1

/-- What holds in every state of a host. -/
def MembershipHolds (s : NwmUds) : Prop := IsHosting s → AgreesOnMembers s

/-- Hosting begins with information that the service accepts, and not while clients are connected to
a network that is hosted already; and a client that has been let in by an authentication and is not
connected yet sends its start frame while there is a slot left, to a network of at most sixteen
nodes. -/
def KeepsAgreement (s : NwmUds) : HostEvent → Prop
  | .beginHostingNetwork networkInfo =>
      1 < networkInfo.maxNodes ∧ networkInfo.applicationDataSize.toNat ≤ applicationDataSize ∧
        (IsHosting s → ∀ entry ∈ s.nodeMap, entry.2.connected = false)
  | .eapolStart client _ _ =>
      IsHosting s → ∀ node, s.nodeMap.find client = some node → node.connected = false →
        s.connectionStatus.totalNodes < s.connectionStatus.maxNodes ∧
          s.connectionStatus.maxNodes.toNat ≤ udsMaxNodes
  | _ => True

/-!
## Data that nodes of a local network send each other

A network of a host and its clients in a room: nodes send data, the room delivers each packet to
the members it is addressed to, in any order, and nodes pull what has arrived. What it means that
data is delivered exactly once, and which sends keep to it.
-/

/-- A send that has succeeded. -/
structure SentData where
  srcNodeId : UInt16
  destNodeId : UInt16
  channel : UInt8
  payload : List UInt8
  deriving DecidableEq

/-- The nodes by their numbers, the host first; the packets that the room has not delivered yet, each
with the node that it is for; and what has happened so far: sends, deliveries, and packets that were
pulled from the channel of a node. -/
structure LocalNetwork where
  nodes : List NwmUds
  inFlight : List (ℕ × WifiPacket) := []
  sends : List SentData := []
  delivered : List (ℕ × WifiPacket) := []
  pulled : List (ℕ × UInt8 × NwmUds.PulledPacket) := []
  deriving DecidableEq

/-- The nodes that a packet of a node is delivered to: all others, or the one with the address. -/
def recipients (nodes : List NwmUds) (sender : ℕ) (packet : WifiPacket) : List ℕ :=
  (List.range nodes.length).filter fun i =>
    if packet.destinationAddress = broadcastMac then i ≠ sender
    else (nodes[i]?.bind NwmUds.roomMember) = some packet.destinationAddress

/-- A node has changed, and what it has handed to the room is on its way. -/
def LocalNetwork.update (net : LocalNetwork) (i : ℕ) (s t : NwmUds) : LocalNetwork :=
  { net with
    nodes := net.nodes.set i t
    inFlight := net.inFlight ++ (t.sent.drop s.sent.length).flatMap fun packet =>
      (recipients net.nodes i packet).map fun r => (r, packet) }

/-- What happens in a network. -/
inductive DeliveryEvent
  | sendTo (node : ℕ) (destNodeId : UInt16) (dataChannel : UInt8) (dataSize : UInt32)
      (flags : UInt8) (inputBuffer : List UInt8)
  | deliver (place : ℕ)
  | pullPacket (node : ℕ) (bindNodeId maxOutBuffSizeAligned maxOutBuffSize : UInt32)

/-- The channel that a packet is pulled from, if it has one. -/
def pulledChannel (s : NwmUds) (bindNodeId : UInt32) : Option UInt8 :=
  match s.channelData.find? fun bound => bound.bindNodeId = bindNodeId with
  | some bound => if bound.receivedPackets = [] then none else some bound.channel
  | none => none

def networkStep (net : LocalNetwork) : DeliveryEvent → Exec LocalNetwork
  | .sendTo i destNodeId channel dataSize flags inputBuffer =>
      match net.nodes[i]? with
      | none => .ok net
      | some s => do
          let (result, t) ← s.sendTo destNodeId channel dataSize flags inputBuffer
          if result = .success then
            let payload := inputBuffer.take dataSize.toNat
            pure
              { net.update i s t with
                sends := net.sends ++
                  [⟨s.connectionStatus.networkNodeId, destNodeId, channel, payload⟩] }
          else pure net
  | .deliver place =>
      match net.inFlight[place]? with
      | none => .ok net
      | some (i, packet) =>
          match net.nodes[i]? with
          | none => .ok net
          | some s => do
              let t ← s.onWifiPacketReceived packet
              let net := { net with inFlight := net.inFlight.eraseIdx place }
              pure { net.update i s t with delivered := net.delivered ++ [(i, packet)] }
  | .pullPacket i bindNodeId aligned size =>
      match net.nodes[i]? with
      | none => .ok net
      | some s => do
          let ((_, packet), t) ← s.pullPacket bindNodeId aligned size
          let net := { net with nodes := net.nodes.set i t }
          match pulledChannel s bindNodeId, packet with
          | some channel, some packet =>
              pure { net with pulled := net.pulled ++ [(i, channel, packet)] }
          | _, _ => pure net

/-! ### Networks in which every node knows the others -/

/-- A node takes data of a sender on a channel that it is bound to, unless it is bound to another
sender there. -/
def IsBoundTo (s : NwmUds) (channel : UInt8) (srcNodeId : UInt16) : Prop :=
  ∃ bound ∈ s.channelData, bound.channel = channel ∧
    (bound.networkNodeId = broadcastNetworkNodeId ∨ bound.networkNodeId = srcNodeId)

instance (s : NwmUds) (channel : UInt8) (srcNodeId : UInt16) :
    Decidable (IsBoundTo s channel srcNodeId) := by
  unfold IsBoundTo
  infer_instance

/-- A host and clients that are connected to it, in a room: their ids and addresses are distinct,
each knows the address of each other by its id, and a node has bound a channel at most once. -/
structure IsNetwork (nodes : List NwmUds) : Prop where
  initialized : ∀ s ∈ nodes, s.initialized = true
  host : ∀ s, nodes[0]? = some s → s.connectionStatus.status = .connectedAsHost ∧
    s.connectionStatus.networkNodeId = hostDestNodeId
  clients : ∀ i s, nodes[i + 1]? = some s → s.connectionStatus.status = .connectedAsClient
  ids : (nodes.map fun s => s.connectionStatus.networkNodeId).Nodup
  ordinaryIds : ∀ s ∈ nodes, s.connectionStatus.networkNodeId ≠ 0 ∧
    s.connectionStatus.networkNodeId ≠ broadcastNetworkNodeId
  addresses : (nodes.map NwmUds.roomMember).Nodup
  inRoom : ∀ s ∈ nodes, ∃ address, s.roomMember = some address ∧ address ≠ broadcastMac
  known : ∀ s ∈ nodes, ∀ other ∈ nodes, s ≠ other →
    s.getNodeMacAddress other.connectionStatus.networkNodeId 0 = other.roomMember
  channels : ∀ s ∈ nodes, (s.channelData.map BindNodeData.channel).Nodup
  queues : ∀ s ∈ nodes, ∀ bound ∈ s.channelData, bound.receivedPackets = []

/-! ### Exactly once -/

/-- What a send means for a node on a channel: the id of the sender and the payload, if the send is
for the node or for all others, and the node is bound to the channel. -/
def meantFor (s : NwmUds) (channel : UInt8) (send : SentData) : Option (UInt16 × List UInt8) :=
  if send.channel = channel ∧ send.srcNodeId ≠ s.connectionStatus.networkNodeId ∧
      (send.destNodeId = s.connectionStatus.networkNodeId ∨
        send.destNodeId = broadcastNetworkNodeId) ∧
      IsBoundTo s channel send.srcNodeId then some (send.srcNodeId, send.payload)
  else none

/-- The send that a data frame says it is from. -/
def frameSend (data : List UInt8) : Option SentData :=
  match parseSecureDataHeader data with
  | .ok header => some ⟨header.srcNodeId, header.destNodeId, header.dataChannel, data.drop 22⟩
  | .error _ => none

/-- What should be delivered to a node on a channel. -/
def expected (net : LocalNetwork) (s : NwmUds) (channel : UInt8) : List (UInt16 × List UInt8) :=
  net.sends.filterMap (meantFor s channel)

/-- What has arrived for the channel of a node, in the order in which it has. -/
def arrivals (net : LocalNetwork) (i : ℕ) (s : NwmUds) (channel : UInt8) :
    List (UInt16 × List UInt8) :=
  net.delivered.filterMap fun delivery =>
    if delivery.1 = i then (frameSend delivery.2.data).bind (meantFor s channel) else none

/-- The packets that wait in the queue of a channel. -/
def queued (s : NwmUds) (channel : UInt8) : List (List UInt8) :=
  s.channelData.flatMap fun bound => if bound.channel = channel then bound.receivedPackets else []

/-- What a node has pulled from a channel: the id of the sender and the data. -/
def pulledFrom (net : LocalNetwork) (i : ℕ) (channel : UInt8) : List (UInt16 × List UInt8) :=
  net.pulled.filterMap fun pull =>
    if pull.1 = i ∧ pull.2.1 = channel then
      some (pull.2.2.srcNodeId, pull.2.2.outputBuffer.take pull.2.2.dataSize)
    else none

/-- The data on a channel of a node arrives at most once, and exactly once when nothing is on its way
any more. It is pulled as it was sent, in the order in which it arrives; and the rest waits in
queues whose first packet can be pulled. -/
structure DeliversOnce (net : LocalNetwork) (i : ℕ) (s : NwmUds) (channel : UInt8) : Prop where
  atMostOnce : (arrivals net i s channel).Subperm (expected net s channel)
  once : net.inFlight = [] → (arrivals net i s channel).Perm (expected net s channel)
  inOrder : ∃ waiting : List SentData,
    (queued s channel).map frameSend = waiting.map some ∧
    pulledFrom net i channel ++ waiting.map (fun send => (send.srcNodeId, send.payload)) =
      arrivals net i s channel
  available : ∀ bound ∈ s.channelData, bound.channel = channel →
    ∀ next ∈ bound.receivedPackets.head?, ∃ send, frameSend next = some send ∧
      ∀ aligned size : UInt32, send.payload.length ≤ size.toNat →
        send.payload.length ≤ min aligned.toNat 0x172 * 4 →
        ∃ packet t, s.pullPacket bound.bindNodeId aligned size =
            .ok ((.success, some packet), t) ∧
          (packet.srcNodeId, packet.outputBuffer.take packet.dataSize) =
            (send.srcNodeId, send.payload)

/-- Every node gets what is sent to it, and nothing else, on every channel. -/
def DeliveryHolds (net : LocalNetwork) : Prop :=
  ∀ i s, net.nodes[i]? = some s → ∀ channel, DeliversOnce net i s channel

/-- The first binding with an id is the one that packets are pulled from. -/
def CanPull (s : NwmUds) (channel : UInt8) : Prop :=
  ∀ bound ∈ s.channelData, bound.channel = channel →
    (s.channelData.find? fun other => other.bindNodeId = bound.bindNodeId).map
      BindNodeData.channel = some channel

instance (s : NwmUds) (channel : UInt8) : Decidable (CanPull s channel) := by
  unfold CanPull
  infer_instance

/-- A client does not ask for a broadcast of data for one other client that is bound to the channel;
and no node that the data is for has bound another channel under the same id before. -/
def KeepsDelivery (net : LocalNetwork) : DeliveryEvent → Prop
  | .sendTo i destNodeId channel _ flags _ =>
      ∀ s, net.nodes[i]? = some s → ∀ j other, net.nodes[j]? = some other → j ≠ i →
        IsBoundTo other channel s.connectionStatus.networkNodeId →
          ((flags &&& 0x2 ≠ 0 ∧ i ≠ 0 ∧ j ≠ 0) →
            destNodeId ≠ other.connectionStatus.networkNodeId) ∧
          (destNodeId = other.connectionStatus.networkNodeId ∨
            destNodeId = broadcastNetworkNodeId → CanPull other channel)
  | _ => True

/-!
## The service stays within its packets and arrays

What the service for local wireless networks goes through: packets that the room delivers, and the
requests of a game, in any order. And which packets it handles without reading behind their end or
writing outside an array.
-/

/-- A packet that arrives, a request, or a change of the room. -/
inductive ServiceCall
  | receive (packet : WifiPacket)
  | pullPacket (bindNodeId maxOutBuffSizeAligned maxOutBuffSize : UInt32)
  | initializeUds (node : NodeInfo)
  | shutdown
  | getReceivedBeacons (sender : MacAddress)
  | getConnectionStatus
  | bind (bindNodeId recvBufferSize : UInt32) (dataChannel : UInt8) (networkNodeId : UInt16)
  | unbind (bindNodeId : UInt32)
  | beginHostingNetwork (networkInfo : NetworkInfo)
  | ejectClient (networkNodeId : UInt16)
  | destroyNetwork
  | disconnectNetwork
  | sendTo (destNodeId : UInt16) (dataChannel : UInt8) (dataSize : UInt32) (flags : UInt8)
      (inputBuffer : List UInt8)
  | connectToNetwork (networkInfo : NetworkInfo)
  | setApplicationData (applicationData : List UInt8)
  | enterRoom (roomMember : Option MacAddress)

/-- The state that a call leaves. -/
def serviceStep (s : NwmUds) : ServiceCall → Exec NwmUds
  | .receive packet => s.onWifiPacketReceived packet
  | .pullPacket bindNodeId aligned size => do
      let (_, s) ← s.pullPacket bindNodeId aligned size
      pure s
  | .initializeUds node => .ok (s.initializeUds node)
  | .shutdown => .ok s.shutdown
  | .getReceivedBeacons sender => .ok (s.getReceivedBeacons sender).2
  | .getConnectionStatus => .ok s.getConnectionStatus.2
  | .bind bindNodeId recvBufferSize dataChannel networkNodeId => do
      let (_, s) ← s.bind bindNodeId recvBufferSize dataChannel networkNodeId
      pure s
  | .unbind bindNodeId => .ok (s.unbind bindNodeId).2
  | .beginHostingNetwork networkInfo => s.beginHostingNetwork networkInfo
  | .ejectClient networkNodeId => .ok (s.ejectClient networkNodeId).2
  | .destroyNetwork => .ok s.destroyNetwork.2
  | .disconnectNetwork => .ok s.disconnectNetwork.2
  | .sendTo destNodeId dataChannel dataSize flags inputBuffer => do
      let (_, s) ← s.sendTo destNodeId dataChannel dataSize flags inputBuffer
      pure s
  | .connectToNetwork networkInfo => .ok (s.connectToNetwork networkInfo)
  | .setApplicationData applicationData => .ok (s.setApplicationData applicationData).2
  | .enterRoom roomMember => .ok { s with roomMember }

/-- A packet that is received, and one that is pulled, is handled without an access outside the
bytes of the packet, the arrays of nodes, the mask and the output buffer. -/
def StaysInBounds (s : NwmUds) (call : ServiceCall) : Prop :=
  match call with
  | .receive _ | .pullPacket _ _ _ => serviceStep s call ≠ .error .undefined
  | _ => True

/-- A slot that a client would be given. -/
def IsFirstFreeSlot (status : ConnectionStatus) (index : ℕ) : Prop :=
  index < status.maxNodes.toNat ∧ status.nodeBitmask.toNat.testBit index = false ∧
    ∀ i < index, status.nodeBitmask.toNat.testBit i = true

/-- A node map is as long as its number of entries says. -/
def NodeMapFits (data : List UInt8) : Prop :=
  8 ≤ data.length ∧ 8 + 8 * ofLittleEndian (data.take 8) ≤ data.length

/-- A client that is let in sends its whole record, and the slot that it gets is one of the sixteen
and has its place in the list of nodes, as all that are sent back have. -/
def StartFits (s : NwmUds) (packet : WifiPacket) : Prop :=
  s.connectionStatus.status = .connectedAsHost →
    ∀ known, s.nodeMap.find packet.transmitterAddress = some known → known.connected = false →
      s.connectionStatus.maxNodes ≠ s.connectionStatus.totalNodes →
        56 ≤ packet.data.length ∧ ∀ index, IsFirstFreeSlot s.connectionStatus index →
          index < udsMaxNodes ∧ index < s.nodeInfo.length ∧
            s.networkInfo.maxNodes.toNat ≤ min s.nodeInfo.length udsMaxNodes

/-- The node id of an entry in a logoff packet. -/
def logoffNodeId (data : List UInt8) (entry : ℕ) : UInt16 := word16 data (64 + 40 * entry)

/-- A logoff packet is whole, and the ids of its nodes are no larger than the number of places. -/
def LogoffFits (places : ℕ) (data : List UInt8) : Prop :=
  672 ≤ data.length ∧ ∀ entry < udsMaxNodes, logoffNodeId data entry ≠ 0 →
    (logoffNodeId data entry).toNat ≤ min places udsMaxNodes

/-- The places are those that the packet announces, or those of the network that the client is
in. -/
def EAPoLFits (s : NwmUds) (packet : WifiPacket) : Prop :=
  10 ≤ packet.data.length ∧
    if (word16 packet.data 8).toNat = eapolStartMagic then StartFits s packet
    else
      match s.connectionStatus.status with
      | .connecting => LogoffFits (packet.data.getD 27 0).toNat packet.data
      | .connectedAsClient => LogoffFits s.networkInfo.maxNodes.toNat packet.data
      | _ => True

/-- A data packet has the headers that its types promise. -/
def DataFits (s : NwmUds) (packet : WifiPacket) : Prop :=
  8 ≤ packet.data.length ∧
    ((word16 packet.data 6).toNat = EtherType.eapol.value → EAPoLFits s packet) ∧
    ((word16 packet.data 6).toNat = EtherType.secureData.value → 22 ≤ packet.data.length)

/-- A client that leaves the network was known by one of the sixteen ids. -/
def LeaverFits (s : NwmUds) (packet : WifiPacket) : Prop :=
  ∀ node, s.nodeMap.find packet.transmitterAddress = some node → node.connected = true →
    (∃ info ∈ s.nodeInfo, info.networkNodeId = node.nodeId) →
      1 ≤ node.nodeId.toNat ∧ node.nodeId.toNat ≤ udsMaxNodes

/-- What each type of packet has to bring. -/
def PacketFits (s : NwmUds) (packet : WifiPacket) : Prop :=
  match packet.type with
  | .authentication => authenticationFrameSize ≤ packet.data.length
  | .associationResponse => associationResponseFrameSize ≤ packet.data.length
  | .data => DataFits s packet
  | .deauthentication => s.connectionStatus.status = .connectedAsHost → LeaverFits s packet
  | .nodeMap => s.connectionStatus.status ≠ .connectedAsHost → NodeMapFits packet.data
  | _ => True

/-- The size that the header of a queued packet gives: of the fields of the header only the protocol
size counts. -/
def announcedSize (data : List UInt8) : ℕ := u32Sub (word16 data 8).toNat secureDataHeaderSize

/-- The next packet in a queue has a header, and if the game takes as much as the header announces,
the packet has that much and so does the output buffer. -/
def QueuedFits (s : NwmUds) (bindNodeId aligned size : UInt32) : Prop :=
  s.connectionStatus.status ∈
      [NetworkStatus.connectedAsHost, .connectedAsClient, .connectedAsSpectator] →
    ∀ bound, (s.channelData.find? fun bound => bound.bindNodeId = bindNodeId) = some bound →
      ∀ next ∈ bound.receivedPackets.head?, 22 ≤ next.length ∧
        (announcedSize next ≤ size.toNat →
          22 + announcedSize next ≤ next.length ∧
            announcedSize next ≤ min aligned.toNat 0x172 * 4)

/-- Before the service is initialized it does not look at packets. -/
def WithinBounds (s : NwmUds) : ServiceCall → Prop
  | .receive packet => s.initialized = true → PacketFits s packet
  | .pullPacket bindNodeId aligned size => QueuedFits s bindNodeId aligned size
  | _ => True

end Borked3DS.Interface

/-!
## What a beacon carries

What generating the beacon of a network and decrypting its nodes promise together.
-/

namespace Borked3DS.Interface

open Borked3DS.Library Borked3DS.Model Borked3DS.Model.NWM

/-- The bytes of a tag: its identifier, the length of its payload in a byte, and the payload. -/
def tagBytes (tag : UInt8 × List UInt8) : List UInt8 :=
  [tag.1, UInt8.ofNat tag.2.length] ++ tag.2

/-- A frame consists of the fixed parameters and of tags whose lengths fit into a byte. The last two
are the encrypted ones, the second of which may be missing; behind their OUI and type they carry the
encrypted buffer, cut at `EncryptedDataSizeCutoff`. From them the nodes come back. -/
structure CarriesNodes (c : BeaconCrypto) (info : NetworkInfo) (nodes : List NodeInfo)
    (frame : List UInt8) (front : List (UInt8 × List UInt8)) (first second : List UInt8) :
    Prop where
  generated : generateBeaconFrame c info nodes = .ok frame
  tags : frame = generateFixedParameters ++ (front ++ [(vendorSpecific, first)] ++
    if second = [] then [] else [(vendorSpecific, second)]).flatMap tagBytes
  lengths : ∀ tag ∈ front ++ [(vendorSpecific, first), (vendorSpecific, second)],
    tag.2.length < 256
  cut : first.drop 4 = (generatedEncryptedData c info nodes).take encryptedDataSizeCutoff
  rest : second.drop 4 = (generatedEncryptedData c info nodes).drop encryptedDataSizeCutoff
  decrypted : decryptBeaconData c info first second = .ok nodes

/-- The beacon of a network carries its nodes. -/
def BeaconRoundTrips (c : BeaconCrypto) (info : NetworkInfo) (nodes : List NodeInfo) : Prop :=
  ∃ frame front first second, CarriesNodes c info nodes frame front first second

end Borked3DS.Interface
