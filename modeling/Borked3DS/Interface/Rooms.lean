import Borked3DS.Model.Room

/-!
# What a room promises

Its member list over a run of its server, and the packets that it passes on.
-/

set_option autoImplicit false

namespace Borked3DS.Interface

open Borked3DS.Library Borked3DS.Model Borked3DS.Model.Network

/-!
## Who is in a room

What the member list of a room promises over a run of its server, and which join requests keep that
promise.
-/

/-- An event of the network, with what its handling finds outside the room. -/
abbrev RoomInput := Surroundings × NetworkEvent

/-- One turn of the server. -/
def roomStep (room : Room) (input : RoomInput) : Exec Room := room.serve input.1 input.2

/-- No two members share a nickname, a MAC address, a console ID or a peer, and the members do not
outnumber the slots. -/
structure MembersDistinct (room : Room) : Prop where
  nicknames : (room.members.map Member.nickname).Nodup
  macAddresses : (room.members.map Member.macAddress).Nodup
  consoleIds : (room.members.map Member.consoleIdHash).Nodup
  peers : (room.members.map Member.peer).Nodup
  slots : room.members.length ≤ room.roomInformation.memberSlots.toNat

/-- Neither the username nor the address of a member that a turn admits is in a ban list. -/
def AdmitsNobodyBanned (room : Room) (input : RoomInput) : Prop :=
  ∀ room' member, roomStep room input = .ok room' → room'.members = room.members ++ [member] →
    member.userData.username ∉ room'.usernameBanList ∧
      input.1.hostIp member.peer ∉ room'.ipBanList

/-- Once a peer has disconnected, no member is left that refers to it. -/
def ForgetsPeer (room : Room) (input : RoomInput) : Prop :=
  ∀ room' peer, input.2 = .disconnect peer → roomStep room input = .ok room' →
    ∀ member ∈ room'.members, member.peer ≠ peer

/-- What the member list promises over a run. -/
def KeepsMembership (room : Room) (inputs : List RoomInput) : Prop :=
  AllAlong roomStep MembersDistinct room inputs ∧
    EachStep roomStep (fun room input => AdmitsNobodyBanned room input ∧ ForgetsPeer room input)
      room inputs

/-- A join request of a peer passes all the checks. -/
def PassesChecks (w : Surroundings) (room : Room) (peer : ℕ) (request : JoinRequest) : Prop :=
  room.members.length < room.roomInformation.memberSlots.toNat ∧
    request.pass = room.password ∧
    room.isValidNickname request.nickname = true ∧
    (request.preferredMac = noPreferredMac ∨
      room.isValidMacAddress request.preferredMac = true) ∧
    room.isValidConsoleId request.consoleIdHash = true ∧
    request.clientVersion = networkVersion ∧
    (let username := (room.userDataOf w request).username
     username = [] ∨ username ∉ room.usernameBanList) ∧
    w.hostIp peer ∉ room.ipBanList

/-- An event is a join request that passes all the checks. -/
def Joins (room : Room) (input : RoomInput) (peer : ℕ) (request : JoinRequest) : Prop :=
  ∃ data, input.2 = .receive peer data ∧ data[0]? = some RoomMessageTypes.joinRequest.id ∧
    readJoinRequest input.1.fresh data = .ok request ∧ PassesChecks input.1 room peer request

/-- A peer whose join request passes all the checks is not a member yet; and if it has no username,
the ban list does not hold the empty one. -/
def JoinsOnce (room : Room) (input : RoomInput) : Prop :=
  ∀ peer request, Joins room input peer request →
    (∀ member ∈ room.members, member.peer ≠ peer) ∧
      ((room.userDataOf input.1 request).username = [] → [] ∉ room.usernameBanList)

/-!
## Whom a packet reaches

What a room promises about the packets it passes on, and which packets keep that promise.
-/

/-- The destination in a WiFi packet, behind the message type, the packet type, the channel and the
transmitter. -/
def destinationBytes (data : List UInt8) : List UInt8 := (data.drop 9).take 6

/-- The destination that a variable holds once the room has read it from a WiFi packet. -/
def readDestination (fresh : (t : PacketType) → t.Value) (data : List UInt8) : Exec MacAddress := do
  let p := (((receivedPacket data).ignoreBytes 1).ignoreBytes 1).ignoreBytes 6
  let (destination, _) ← Packet.readValue fresh (.array .u8 6) (fresh (.array .u8 6)) p
  pure destination

/-- What a turn hands to the network. -/
def newCalls (room room' : Room) : List NetworkCall := room'.server.drop room.server.length

/-- The data of the packets that reach a peer who is connected. -/
def sentTo (peer : ℕ) : List NetworkCall → List (List UInt8)
  | [] => []
  | .peerSend other data :: calls =>
      if other = peer then data :: sentTo peer calls else sentTo peer calls
  | .broadcast data :: calls => data :: sentTo peer calls
  | .peerDisconnect _ :: calls => sentTo peer calls

/-- A peer has joined the room. -/
def IsMember (room : Room) (peer : ℕ) : Prop := ∃ member ∈ room.members, member.peer = peer

/-- A WiFi packet goes to the member with its destination, once and as it is, and to nobody if there
is none; a broadcast goes once and as it is to the peer of every member but to the sender, and to
nobody else. -/
structure RoutesWifi (room room' : Room) (sender : ℕ) (data : List UInt8) : Prop where
  unicast : destinationBytes data ≠ broadcastMac.1 →
    ∀ member ∈ room.members, member.macAddress.1 = destinationBytes data →
      newCalls room room' = [.peerSend member.peer data]
  unknown : destinationBytes data ≠ broadcastMac.1 →
    (∀ member ∈ room.members, member.macAddress.1 ≠ destinationBytes data) →
      newCalls room room' = []
  broadcast : destinationBytes data = broadcastMac.1 → ∀ peer,
    (IsMember room peer ∧ peer ≠ sender → sentTo peer (newCalls room room') = [data]) ∧
      (¬ (IsMember room peer ∧ peer ≠ sender) → sentTo peer (newCalls room room') = [])

/-- Nothing of what a turn hands to the network reaches a member. -/
def ReachesNobody (room room' : Room) : Prop :=
  ∀ member ∈ room.members, sentTo member.peer (newCalls room room') = []

/-- The WiFi packets of members are routed; whatever packet a peer sends who is no member, and is
none after it either, reaches no member. -/
def RoutesPackets (room : Room) (input : RoomInput) : Prop :=
  ∀ room' sender data, input.2 = .receive sender data → roomStep room input = .ok room' →
    (data[0]? = some RoomMessageTypes.wifiPacket.id → IsMember room sender →
      RoutesWifi room room' sender data) ∧
    (¬ IsMember room sender → ¬ IsMember room' sender → ReachesNobody room room')

/-- A member whom a WiFi packet with a destination is meant for. -/
def Addressed (destination : MacAddress) (sender : ℕ) (member : Member) : Prop :=
  if destination = broadcastMac then member.peer ≠ sender else member.macAddress = destination

/-- The peers of the members other than the sender of a broadcast are distinct. A WiFi packet whose
sender is no member, or which ends before its destination does, is read as meant for nobody. And if
game information comes from a peer who is no member, the room is empty. -/
def RoutingCondition (room : Room) (input : RoomInput) : Prop :=
  ∀ sender data, input.2 = .receive sender data →
    (data[0]? = some RoomMessageTypes.wifiPacket.id →
      (IsMember room sender → destinationBytes data = broadcastMac.1 →
        ((room.members.map Member.peer).filter fun peer => peer != sender).Nodup) ∧
      (¬ IsMember room sender ∨ data.length < 15 →
        ∀ destination, readDestination input.1.fresh data = .ok destination →
          ∀ member ∈ room.members, ¬ Addressed destination sender member)) ∧
    (data[0]? = some RoomMessageTypes.setGameInfo.id → ¬ IsMember room sender →
      room.members = [])

end Borked3DS.Interface
