import Borked3DS.Model.Packet

/-!
# The room server

`Room::RoomImpl` of `room.cpp`: the member list of a multiplayer room, the ban lists, and what the
server thread does with each event of the network. Peers are numbered, and what is handed to the
network is recorded in the order in which that happens.
-/

set_option autoImplicit false

namespace Borked3DS.Model.Network

open Borked3DS.Library

/-- A string, as its bytes. -/
abbrev Text := List UInt8

abbrev MacAddress := PacketType.Value (.array .u8 6)

/-- SOURCE: room.h:47-72 -/
inductive RoomMessageTypes
  | joinRequest | joinSuccess | roomInformation | setGameInfo | wifiPacket | chatMessage
  | nameCollision | macCollision | versionMismatch | wrongPassword | closeRoom | roomIsFull
  | consoleIdCollision | statusMessage | hostKicked | hostBanned | modKick | modBan | modUnban
  | modGetBanList | modBanListResponse | modPermissionDenied | modNoSuchUser | joinSuccessAsMod
  deriving DecidableEq, Repr

/-- The first byte of a packet of a type. -/
def RoomMessageTypes.id (type : RoomMessageTypes) : UInt8 := UInt8.ofNat (type.ctorIdx + 1)

/-- SOURCE: room.h:75-81 -/
inductive StatusMessageTypes
  | memberJoin | memberLeave | memberKicked | memberBanned | addressUnbanned
  deriving DecidableEq, Repr

def StatusMessageTypes.id (type : StatusMessageTypes) : UInt8 := UInt8.ofNat (type.ctorIdx + 1)

def networkVersion : UInt32 := 4

def maxMessageSize : ℕ := 500

def noPreferredMac : MacAddress := ⟨[0xFF, 0xFF, 0xFF, 0xFF, 0xFF, 0xFF], rfl⟩

def broadcastMac : MacAddress := ⟨[0xFF, 0xFF, 0xFF, 0xFF, 0xFF, 0xFF], rfl⟩

/-- SOURCE: room.h:31-34 -/
structure GameInfo where
  name : Text := []
  id : UInt64 := 0
  deriving DecidableEq

/-- SOURCE: verify_user.h:12-17 -/
structure UserData where
  username : Text := []
  displayName : Text := []
  avatarUrl : Text := []
  moderator : Bool := false
  deriving DecidableEq

/-- SOURCE: room.h:21-29 -/
structure RoomInformation where
  name : Text
  description : Text
  memberSlots : UInt32
  port : UInt16
  preferredGame : Text
  preferredGameId : UInt64
  hostUsername : Text
  deriving DecidableEq

/-- SOURCE: room.cpp:36-44 -/
structure Member where
  nickname : Text
  consoleIdHash : Text
  gameInfo : GameInfo := {}
  macAddress : MacAddress
  userData : UserData := {}
  peer : ℕ
  deriving DecidableEq

/-- What is handed to the network: a packet for a peer, a packet for everyone who is connected, or
the end of the connection to a peer. -/
inductive NetworkCall
  | peerSend (peer : ℕ) (data : List UInt8)
  | broadcast (data : List UInt8)
  | peerDisconnect (peer : ℕ)
  deriving DecidableEq

/-- SOURCE: room.cpp:21-64 -/
structure Room where
  roomInformation : RoomInformation
  password : Text
  /-- Whether there is a `verify_backend`. -/
  verifies : Bool
  members : List Member := []
  usernameBanList : List Text
  ipBanList : List Text
  server : List NetworkCall := []
  deriving DecidableEq

/-- What the handling of one event finds outside the room: the addresses of the peers, the user data
that the verification backend loads for a token, the bytes that the random number generator draws,
and what variables hold that have just been declared. -/
structure Surroundings where
  hostIp : ℕ → Text
  loadUserData : Text → UserData
  random : List UInt8
  fresh : (t : PacketType) → t.Value

/-- `ENetEvent`. -/
inductive NetworkEvent
  | none
  | connect (peer : ℕ)
  | receive (peer : ℕ) (data : List UInt8)
  | disconnect (peer : ℕ)

/-- `Packet::IgnoreBytes`. -/
def Packet.ignoreBytes (p : Packet) (length : ℕ) : Packet :=
  { p with readPos := u64 (p.readPos + length) }

/-- The packet of an event, behind the message type. -/
def receivedPacket (data : List UInt8) : Packet := ((({} : Packet).append data).ignoreBytes 1)

/-- The data of a packet of a message type with some values. -/
def messageData (type : RoomMessageTypes) (values : List Packet.TypedValue) : List UInt8 :=
  (Packet.writeAll {} (⟨.u8, type.id⟩ :: values)).data

namespace Room

/-- A call of the network. -/
def call (room : Room) (c : NetworkCall) : Room := { room with server := room.server ++ [c] }

/-- A packet for some peers, one after the other. -/
def sendTo (room : Room) (peers : List ℕ) (data : List UInt8) : Room :=
  { room with server := room.server ++ peers.map fun peer => .peerSend peer data }

/-- The `Send` functions whose packet is for one client.
SOURCE: room.cpp:614-748 -/
def sendMessage (room : Room) (client : ℕ) (type : RoomMessageTypes)
    (values : List Packet.TypedValue) : Room :=
  room.call (.peerSend client (messageData type values))

def sendNameCollision (room : Room) (client : ℕ) : Room :=
  room.sendMessage client .nameCollision []

def sendMacCollision (room : Room) (client : ℕ) : Room :=
  room.sendMessage client .macCollision []

def sendConsoleIdCollision (room : Room) (client : ℕ) : Room :=
  room.sendMessage client .consoleIdCollision []

def sendWrongPassword (room : Room) (client : ℕ) : Room :=
  room.sendMessage client .wrongPassword []

def sendRoomIsFull (room : Room) (client : ℕ) : Room :=
  room.sendMessage client .roomIsFull []

def sendVersionMismatch (room : Room) (client : ℕ) : Room :=
  room.sendMessage client .versionMismatch [⟨.u32, networkVersion⟩]

def sendJoinSuccess (room : Room) (client : ℕ) (macAddress : MacAddress) : Room :=
  room.sendMessage client .joinSuccess [⟨.array .u8 6, macAddress⟩]

def sendJoinSuccessAsMod (room : Room) (client : ℕ) (macAddress : MacAddress) : Room :=
  room.sendMessage client .joinSuccessAsMod [⟨.array .u8 6, macAddress⟩]

def sendUserBanned (room : Room) (client : ℕ) : Room :=
  room.sendMessage client .hostBanned []

def sendModPermissionDenied (room : Room) (client : ℕ) : Room :=
  room.sendMessage client .modPermissionDenied []

def sendModNoSuchUser (room : Room) (client : ℕ) : Room :=
  room.sendMessage client .modNoSuchUser []

def sendModBanListResponse (room : Room) (client : ℕ) : Room :=
  room.sendMessage client .modBanListResponse
    [⟨.vector .string, room.usernameBanList⟩, ⟨.vector .string, room.ipBanList⟩]

/-- SOURCE: room.cpp:765-802 -/
def sendStatusMessage (room : Room) (type : StatusMessageTypes) (nickname username : Text) : Room :=
  room.sendTo (room.members.map Member.peer) <|
    messageData .statusMessage [⟨.u8, type.id⟩, ⟨.string, nickname⟩, ⟨.string, username⟩]

/-- SOURCE: room.cpp:804-834 -/
def broadcastRoomInformation (room : Room) : Room :=
  let information := room.roomInformation
  room.call <| .broadcast <| messageData .roomInformation <|
    [⟨.string, information.name⟩, ⟨.string, information.description⟩,
      ⟨.u32, information.memberSlots⟩, ⟨.u16, information.port⟩,
      ⟨.string, information.preferredGame⟩, ⟨.string, information.hostUsername⟩,
      ⟨.u32, UInt32.ofNat room.members.length⟩] ++
    room.members.flatMap fun member =>
      [⟨.string, member.nickname⟩, ⟨.array .u8 6, member.macAddress⟩,
        ⟨.string, member.gameInfo.name⟩, ⟨.u64, member.gameInfo.id⟩,
        ⟨.string, member.userData.username⟩, ⟨.string, member.userData.displayName⟩,
        ⟨.string, member.userData.avatarUrl⟩]

/-- The characters of nicknames. -/
def isNicknameChar (c : UInt8) : Bool :=
  c == 0x20 || (0x61 ≤ c && c ≤ 0x7A) || (0x41 ≤ c && c ≤ 0x5A) || (0x30 ≤ c && c ≤ 0x39) ||
    c == 0x2E || c == 0x5F || c == 0x2D

/-- SOURCE: room.cpp:568-578 -/
def isValidNickname (room : Room) (nickname : Text) : Bool :=
  (decide (4 ≤ nickname.length) && decide (nickname.length ≤ 20) &&
    nickname.all isNicknameChar) &&
  room.members.all fun member => member.nickname != nickname

/-- SOURCE: room.cpp:580-585 -/
def isValidMacAddress (room : Room) (address : MacAddress) : Bool :=
  room.members.all fun member => member.macAddress != address

/-- SOURCE: room.cpp:587-593 -/
def isValidConsoleId (room : Room) (consoleIdHash : Text) : Bool :=
  room.members.all fun member => member.consoleIdHash != consoleIdHash

/-- SOURCE: room.cpp:595-613 -/
def hasModPermission (room : Room) (client : ℕ) : Bool :=
  match room.members.find? fun member => member.peer == client with
  | .none => false
  | some sender =>
      sender.userData.moderator ||
        (!room.roomInformation.hostUsername.isEmpty &&
          sender.userData.username == room.roomInformation.hostUsername)

/-- The loop draws until it has a free address. Where the draws run out before, it does not end, and
there is no next state.
SOURCE: room.cpp:836-846 -/
def generateMacAddress (room : Room) : List UInt8 → Exec MacAddress
  | x :: y :: z :: random =>
      let result : MacAddress := ⟨[0x00, 0x1F, 0x32, x, y, z], rfl⟩
      if room.isValidMacAddress result then .ok result else room.generateMacAddress random
  | _ => .error .undefined

/-- The address of a client that joins.
SOURCE: room.cpp:346-356 -/
def assignMacAddress (room : Room) (preferredMac : MacAddress) (random : List UInt8) :
    Exec MacAddress :=
  if preferredMac != noPreferredMac then .ok preferredMac else room.generateMacAddress random

end Room

/-- What a client sends to join. -/
structure JoinRequest where
  nickname : Text
  consoleIdHash : Text
  preferredMac : MacAddress
  clientVersion : UInt32
  pass : Text
  token : Text

/-- SOURCE: room.cpp:311-332 -/
def readJoinRequest (fresh : (t : PacketType) → t.Value) (data : List UInt8) :
    Exec JoinRequest := do
  let (nickname, p) ← Packet.readValue fresh .string [] (receivedPacket data)
  let (consoleIdHash, p) ← Packet.readValue fresh .string [] p
  let (preferredMac, p) ← Packet.readValue fresh (.array .u8 6) (fresh (.array .u8 6)) p
  let (clientVersion, p) ← Packet.readValue fresh .u32 (fresh .u32) p
  let (pass, p) ← Packet.readValue fresh .string [] p
  let (token, _) ← Packet.readValue fresh .string [] p
  pure { nickname, consoleIdHash, preferredMac, clientVersion, pass, token }

/-- A string behind the message type. -/
def readText (fresh : (t : PacketType) → t.Value) (data : List UInt8) : Exec Text := do
  let (text, _) ← Packet.readValue fresh .string [] (receivedPacket data)
  pure text

namespace Room

variable (w : Surroundings)

/-- The user data of a member that joins. -/
def userDataOf (room : Room) (request : JoinRequest) : UserData :=
  if room.verifies then w.loadUserData request.token else {}

/-- The member that a join request asks for. -/
def requestedMember (room : Room) (peer : ℕ) (request : JoinRequest) (macAddress : MacAddress) :
    Member :=
  { nickname := request.nickname
    consoleIdHash := request.consoleIdHash
    macAddress
    userData := room.userDataOf w request
    peer }

/-- The member joins, unless it is banned.
SOURCE: room.cpp:375-422 -/
def join (room : Room) (member : Member) : Room :=
  if !member.userData.username.isEmpty &&
      room.usernameBanList.contains member.userData.username then
    room.sendUserBanned member.peer
  else if room.ipBanList.contains (w.hostIp member.peer) then
    room.sendUserBanned member.peer
  else
    let room := room.sendStatusMessage .memberJoin member.nickname member.userData.username
    let room := { room with members := room.members ++ [member] }
    let room := room.broadcastRoomInformation
    if room.hasModPermission member.peer then
      room.sendJoinSuccessAsMod member.peer member.macAddress
    else
      room.sendJoinSuccess member.peer member.macAddress

/-- SOURCE: room.cpp:303-423 -/
def handleJoinRequest (room : Room) (peer : ℕ) (data : List UInt8) : Exec Room :=
  if room.roomInformation.memberSlots.toNat ≤ room.members.length then
    .ok (room.sendRoomIsFull peer)
  else do
    let request ← readJoinRequest w.fresh data
    if request.pass != room.password then pure (room.sendWrongPassword peer)
    else if !room.isValidNickname request.nickname then pure (room.sendNameCollision peer)
    else if request.preferredMac != noPreferredMac &&
        !room.isValidMacAddress request.preferredMac then
      pure (room.sendMacCollision peer)
    else do
      let macAddress ← room.assignMacAddress request.preferredMac w.random
      if !room.isValidConsoleId request.consoleIdHash then pure (room.sendConsoleIdCollision peer)
      else if request.clientVersion != networkVersion then pure (room.sendVersionMismatch peer)
      else pure (room.join w (room.requestedMember w peer request macAddress))

/-- The first member of a nickname is told that it has to go, disconnected and erased.
SOURCE: room.cpp:439-462, 485-508 -/
def expel (room : Room) (target : Member) (notice : RoomMessageTypes) : Room :=
  let room := room.sendMessage target.peer notice []
  let room := room.call (.peerDisconnect target.peer)
  { room with members := room.members.eraseP fun member => member.nickname == target.nickname }

/-- SOURCE: room.cpp:425-468 -/
def handleModKickPacket (room : Room) (peer : ℕ) (data : List UInt8) : Exec Room :=
  if !room.hasModPermission peer then .ok (room.sendModPermissionDenied peer)
  else do
    let nickname ← readText w.fresh data
    match room.members.find? fun member => member.nickname == nickname with
    | .none => pure (room.sendModNoSuchUser peer)
    | some target =>
        let room := room.expel target .hostKicked
        let room := room.sendStatusMessage .memberKicked nickname target.userData.username
        pure room.broadcastRoomInformation

/-- A username and an address are banned.
SOURCE: room.cpp:510-526 -/
def ban (room : Room) (username ip : Text) : Room :=
  let room :=
    if !username.isEmpty && !room.usernameBanList.contains username then
      { room with usernameBanList := room.usernameBanList ++ [username] }
    else room
  if !room.ipBanList.contains ip then { room with ipBanList := room.ipBanList ++ [ip] } else room

/-- SOURCE: room.cpp:470-531 -/
def handleModBanPacket (room : Room) (peer : ℕ) (data : List UInt8) : Exec Room :=
  if !room.hasModPermission peer then .ok (room.sendModPermissionDenied peer)
  else do
    let nickname ← readText w.fresh data
    match room.members.find? fun member => member.nickname == nickname with
    | .none => pure (room.sendModNoSuchUser peer)
    | some target =>
        let room := room.expel target .hostBanned
        let room := room.ban target.userData.username (w.hostIp target.peer)
        let room :=
          room.sendStatusMessage .memberBanned target.nickname target.userData.username
        pure room.broadcastRoomInformation

/-- SOURCE: room.cpp:533-566 -/
def handleModUnbanPacket (room : Room) (peer : ℕ) (data : List UInt8) : Exec Room :=
  if !room.hasModPermission peer then .ok (room.sendModPermissionDenied peer)
  else do
    let address ← readText w.fresh data
    let unbanned := room.usernameBanList.contains address || room.ipBanList.contains address
    let room :=
      { room with
        usernameBanList := room.usernameBanList.erase address
        ipBanList := room.ipBanList.erase address }
    if unbanned then pure (room.sendStatusMessage .addressUnbanned address [])
    else pure (room.sendModNoSuchUser peer)

/-- SOURCE: room.cpp:559-566 -/
def handleModGetBanListPacket (room : Room) (peer : ℕ) : Room :=
  if !room.hasModPermission peer then room.sendModPermissionDenied peer
  else room.sendModBanListResponse peer

/-- SOURCE: room.cpp:848-893 -/
def handleWifiPacket (room : Room) (peer : ℕ) (data : List UInt8) : Exec Room := do
  let p := (((receivedPacket data).ignoreBytes 1).ignoreBytes 1).ignoreBytes 6
  let (destination, _) ← Packet.readValue w.fresh (.array .u8 6) (w.fresh (.array .u8 6)) p
  if destination = broadcastMac then
    pure (room.sendTo ((room.members.map Member.peer).filter fun other => other != peer) data)
  else
    match room.members.find? fun member => member.macAddress == destination with
    | some member => pure (room.call (.peerSend member.peer data))
    | .none => pure room

/-- SOURCE: room.cpp:895-945 -/
def handleChatPacket (room : Room) (peer : ℕ) (data : List UInt8) : Exec Room := do
  let message ← readText w.fresh data
  match room.members.find? fun member => member.peer == peer with
  | .none => pure room
  | some sender =>
      let message := message.take (min (u32 message.length) maxMessageSize)
      pure <| room.sendTo ((room.members.map Member.peer).filter fun other => other != peer) <|
        messageData .chatMessage
          [⟨.string, sender.nickname⟩, ⟨.string, sender.userData.username⟩, ⟨.string, message⟩]

/-- The first member of a peer gets a game. -/
def setGameInfo (gameInfo : GameInfo) (peer : ℕ) : List Member → List Member
  | [] => []
  | member :: members =>
      if member.peer == peer then { member with gameInfo } :: members
      else member :: setGameInfo gameInfo peer members

/-- SOURCE: room.cpp:947-978 -/
def handleGameNamePacket (room : Room) (peer : ℕ) (data : List UInt8) : Exec Room := do
  let (name, p) ← Packet.readValue w.fresh .string [] (receivedPacket data)
  let (id, _) ← Packet.readValue w.fresh .u64 0 p
  let room := { room with members := setGameInfo { name, id } peer room.members }
  pure room.broadcastRoomInformation

/-- SOURCE: room.cpp:980-1005 -/
def handleClientDisconnection (room : Room) (client : ℕ) : Room :=
  match room.members.find? fun member => member.peer == client with
  | .none => (room.call (.peerDisconnect client)).broadcastRoomInformation
  | some member =>
      let room := { room with members := room.members.eraseP fun other => other.peer == client }
      let room := room.call (.peerDisconnect client)
      let room :=
        if !member.nickname.isEmpty then
          room.sendStatusMessage .memberLeave member.nickname member.userData.username
        else room
      room.broadcastRoomInformation

/-- One turn of `ServerLoop`.
SOURCE: room.cpp:257-299 -/
def serve (room : Room) (event : NetworkEvent) : Exec Room :=
  match event with
  | .receive peer data => do
      let type ← readAt .undefined data 0
      if type = RoomMessageTypes.joinRequest.id then room.handleJoinRequest w peer data
      else if type = RoomMessageTypes.setGameInfo.id then room.handleGameNamePacket w peer data
      else if type = RoomMessageTypes.wifiPacket.id then room.handleWifiPacket w peer data
      else if type = RoomMessageTypes.chatMessage.id then room.handleChatPacket w peer data
      else if type = RoomMessageTypes.modKick.id then room.handleModKickPacket w peer data
      else if type = RoomMessageTypes.modBan.id then room.handleModBanPacket w peer data
      else if type = RoomMessageTypes.modUnban.id then room.handleModUnbanPacket w peer data
      else if type = RoomMessageTypes.modGetBanList.id then
        pure (room.handleModGetBanListPacket peer)
      else pure room
  | .disconnect peer => .ok (room.handleClientDisconnection peer)
  | .none => .ok room
  | .connect _ => .ok room

/-- `Room::Create`.
SOURCE: room.cpp:1012-1048 -/
def create (roomInformation : RoomInformation) (password : Text) (verifies : Bool)
    (banList : List Text × List Text) : Room :=
  { roomInformation, password, verifies, usernameBanList := banList.1, ipBanList := banList.2 }

end Room

end Borked3DS.Model.Network
