import Borked3DS.Interface.Rooms
import Borked3DS.Analysis.RoomMembership

/-!
# Packets reach whom they are meant for

What each handler of the room hands to the network, and from it which packets of a run are routed as
the room promises.
-/

set_option autoImplicit false

namespace Borked3DS.Analysis

open Borked3DS.Library Borked3DS.Model Borked3DS.Model.Network Borked3DS.Interface

section Destinations

variable {fresh : (t : PacketType) → t.Value}

/-- Bytes that are there are read one after the other. -/
theorem readElements_u8 (n : ℕ) {p : Packet} (hvalid : p.isValid = true)
    (hinside : p.readPos + n ≤ p.data.length) (hplace : p.readPos + n < 2 ^ 64) :
    ∃ p', Packet.readElements (fun p => Packet.readValue fresh .u8 (fresh .u8) p) n p =
      .ok ((p.data.drop p.readPos).take n, p') := by
  induction n generalizing p with
  | zero => exact ⟨p, rfl⟩
  | succ n ih =>
      have hpos : u64 (p.readPos + 1) = p.readPos + 1 := u64_of_lt (by omega)
      have hok : (p.isValid && decide (u64 (p.readPos + 1) ≤ p.data.length)) = true := by
        rw [hvalid, hpos, decide_eq_true (by omega)]
        rfl
      have hlt : p.readPos < p.data.length := by omega
      have hhead : (p.data.drop p.readPos).take 1 = [p.data[p.readPos]] := by
        rw [List.drop_eq_getElem_cons hlt]
        rfl
      have hbyte : Packet.readValue fresh .u8 (fresh .u8) p =
          .ok (p.data[p.readPos], { p with readPos := p.readPos + 1, isValid := true }) := by
        have hrun : readRun Fault.undefined p.data p.readPos 1 = .ok [p.data[p.readPos]] := by
          unfold readRun
          rw [if_pos (by omega), hhead]
        unfold Packet.readValue Packet.readWord Packet.read Packet.checkSize
        dsimp only
        rw [hok, if_pos rfl, hrun, ok_bind, hpos]
        show Except.ok (UInt8.ofNat (ofLittleEndian [p.data[p.readPos]]), _) = _
        simp [ofLittleEndian]
      obtain ⟨p', hrest⟩ := ih (p := { p with readPos := p.readPos + 1, isValid := true }) rfl
        (by dsimp only; omega) (by dsimp only; omega)
      refine ⟨p', ?_⟩
      rw [Packet.readElements, hbyte, ok_bind]
      dsimp only
      rw [hrest, ok_bind, List.drop_eq_getElem_cons hlt, List.take_succ_cons]
      rfl

/-- A packet that does not end before its destination is read as what it holds. -/
theorem readDestination_of_length {data : List UInt8} {destination : MacAddress}
    (hlength : 15 ≤ data.length) (h : readDestination fresh data = .ok destination) :
    destination.1 = destinationBytes data := by
  obtain ⟨⟨address, p⟩, hread, hpure⟩ := bind_eq_ok.mp h
  cases hpure
  have hbytes := @readElements_u8 fresh 6
    ((((receivedPacket data).ignoreBytes 1).ignoreBytes 1).ignoreBytes 6) rfl hlength
    (show 9 + 6 < 2 ^ 64 by decide)
  obtain ⟨p', helements⟩ := hbytes
  rw [Packet.readValue] at hread
  split at hread
  · cases hread
  · rename_i values p'' hvalues
    rw [helements] at hvalues
    cases hvalues
    cases hread
    rfl

theorem length_destinationBytes (data : List UInt8) :
    (destinationBytes data).length = min 6 (data.length - 9) := by
  unfold destinationBytes
  rw [List.length_take, List.length_drop]

/-- What is not as long as an address is none. -/
theorem destinationBytes_ne {data : List UInt8} (hlength : data.length < 15)
    (address : MacAddress) : address.1 ≠ destinationBytes data := by
  intro heq
  have hsix := address.2
  rw [heq, length_destinationBytes] at hsix
  omega

end Destinations

section Calls

variable {room room' : Room} {peer sender : ℕ} {data : List UInt8}

theorem newCalls_eq {calls : List NetworkCall} (h : room'.server = room.server ++ calls) :
    newCalls room room' = calls := by
  unfold newCalls
  rw [h, List.drop_left]

/-- A packet for some peers reaches each of them as often as it is sent to it. -/
theorem sentTo_peerSends (peers : List ℕ) :
    sentTo peer (peers.map fun other => .peerSend other data) =
      List.replicate (peers.count peer) data := by
  induction peers with
  | nil => rfl
  | cons other peers ih =>
      rw [List.map_cons, sentTo, ih, List.count_cons]
      by_cases heq : other = peer
      · rw [if_pos heq, if_pos (beq_iff_eq.mpr heq)]
        rfl
      · rw [if_neg heq, if_neg fun hbeq => heq (beq_iff_eq.mp hbeq)]
        rfl

/-- An answer to a peer who is no member reaches no member. -/
theorem reachesNobody_of_answer (hsender : ¬ IsMember room sender)
    (h : room'.server = room.server ∨ ∃ data, room'.server = room.server ++ [.peerSend sender data]) :
    ReachesNobody room room' := by
  intro member hmem
  rcases h with hsame | ⟨data, hanswer⟩
  · have hnone : newCalls room room' = [] := newCalls_eq (by rw [hsame, List.append_nil])
    rw [hnone]
    rfl
  · rw [newCalls_eq hanswer, sentTo, if_neg fun heq => hsender ⟨member, hmem, heq.symm⟩]
    rfl

theorem find?_of_notMember (hsender : ¬ IsMember room sender) :
    (room.members.find? fun member => member.peer == sender) = none := by
  apply List.find?_eq_none.mpr
  intro member hmem hpeer
  exact hsender ⟨member, hmem, beq_iff_eq.mp hpeer⟩

theorem hasModPermission_of_notMember (hsender : ¬ IsMember room sender) :
    room.hasModPermission sender = false := by
  unfold Room.hasModPermission
  rw [find?_of_notMember hsender]

end Calls

section Handlers

variable {w : Surroundings} {room room' : Room} {sender : ℕ} {data : List UInt8}

/-- The peers that a packet with a destination is passed on to. -/
def passedTo (room : Room) (sender : ℕ) (destination : MacAddress) : List ℕ :=
  if destination = broadcastMac then
    (room.members.map Member.peer).filter fun other => other != sender
  else
    ((room.members.find? fun member => member.macAddress == destination).map Member.peer).toList

/-- A WiFi packet is passed on as it is. -/
theorem handleWifiPacket_passes (h : room.handleWifiPacket w sender data = .ok room') :
    ∃ destination, readDestination w.fresh data = .ok destination ∧
      newCalls room room' =
        (passedTo room sender destination).map fun peer => .peerSend peer data := by
  obtain ⟨⟨destination, p⟩, hread, h⟩ := bind_eq_ok.mp h
  refine ⟨destination, ?_, ?_⟩
  · unfold readDestination
    dsimp only
    rw [hread]
    rfl
  · unfold passedTo
    dsimp only at h
    split at h
    · cases h
      rename_i hbroadcast
      rw [if_pos hbroadcast]
      exact newCalls_eq rfl
    · rename_i hunicast
      rw [if_neg hunicast]
      split at h
      · rename_i member hfind
        cases h
        rw [hfind]
        exact newCalls_eq rfl
      · rename_i hfind
        cases h
        rw [hfind]
        exact newCalls_eq (List.append_nil _).symm

theorem handleWifiPacket_members (h : room.handleWifiPacket w sender data = .ok room') :
    room'.members = room.members := by
  obtain ⟨⟨destination, p⟩, -, h⟩ := bind_eq_ok.mp h
  dsimp only at h
  split at h
  · cases h
    rfl
  · split at h
    · cases h
      rfl
    · cases h
      rfl

/-- A packet is passed on to nobody exactly if no member is addressed. -/
theorem passedTo_eq_nil {destination : MacAddress} :
    passedTo room sender destination = [] ↔
      ∀ member ∈ room.members, ¬ Addressed destination sender member := by
  unfold passedTo Addressed
  split
  · rw [List.filter_eq_nil_iff, List.forall_mem_map]
    simp
  · rw [Option.toList_eq_nil_iff, Option.map_eq_none_iff, List.find?_eq_none]
    simp [Subtype.ext_iff]

/-- Whoever a packet is passed on to is the peer of a member. -/
theorem mem_passedTo {destination : MacAddress} {peer : ℕ}
    (h : peer ∈ passedTo room sender destination) : IsMember room peer := by
  unfold passedTo at h
  split at h
  · obtain ⟨member, hmem, hpeer⟩ := List.mem_map.mp (List.mem_of_mem_filter h)
    exact ⟨member, hmem, hpeer⟩
  · rw [Option.mem_toList, Option.map_eq_some_iff] at h
    obtain ⟨member, hfind, hpeer⟩ := h
    exact ⟨member, List.mem_of_find?_eq_some hfind, hpeer⟩

/-- A packet reaches no member exactly if it is passed on to nobody. -/
theorem reachesNobody_iff {peers : List ℕ} (hpeers : ∀ peer ∈ peers, IsMember room peer)
    (h : newCalls room room' = peers.map fun peer => .peerSend peer data) :
    ReachesNobody room room' ↔ peers = [] := by
  constructor
  · intro hnobody
    apply List.eq_nil_iff_forall_not_mem.mpr
    intro peer hmem
    obtain ⟨member, hmember, rfl⟩ := hpeers peer hmem
    have hsent := hnobody member hmember
    rw [h, sentTo_peerSends, List.replicate_eq_nil_iff] at hsent
    exact List.count_eq_zero.mp hsent hmem
  · rintro rfl member -
    rw [h]
    rfl

/-- A member of a MAC address is the one that is found for it. -/
theorem find?_macAddress (hdistinct : (room.members.map Member.macAddress).Nodup)
    {member : Member} (hmem : member ∈ room.members) :
    (room.members.find? fun other => other.macAddress == member.macAddress) = some member := by
  cases hfind : room.members.find? fun other => other.macAddress == member.macAddress with
  | none => exact absurd (beq_self_eq_true _) (List.find?_eq_none.mp hfind member hmem)
  | some other =>
      have heq : other.macAddress = member.macAddress := by
        have hfound := List.find?_some hfind
        exact beq_iff_eq.mp hfound
      rw [List.inj_on_of_nodup_map hdistinct (List.mem_of_find?_eq_some hfind) hmem heq]

/-- The WiFi packet of a member is routed as promised exactly if a broadcast finds the peers of the
others distinct and a packet that ends before its destination is meant for nobody. -/
theorem routesWifi_iff (hdistinct : (room.members.map Member.macAddress).Nodup)
    {destination : MacAddress} (hread : readDestination w.fresh data = .ok destination)
    (hcalls : newCalls room room' =
      (passedTo room sender destination).map fun peer => .peerSend peer data) :
    RoutesWifi room room' sender data ↔
      (destinationBytes data = broadcastMac.1 →
        ((room.members.map Member.peer).filter fun peer => peer != sender).Nodup) ∧
      (data.length < 15 → passedTo room sender destination = []) := by
  by_cases hlength : data.length < 15
  · -- The packet has no destination, so that nothing may be sent.
    have hne : ∀ address : MacAddress, address.1 ≠ destinationBytes data :=
      destinationBytes_ne hlength
    constructor
    · intro hroutes
      refine ⟨fun heq => absurd heq.symm (hne _), fun _ => ?_⟩
      have hnone := hroutes.unknown (fun heq => hne _ heq.symm) fun member _ => hne _
      rw [hcalls, List.map_eq_nil_iff] at hnone
      exact hnone
    · rintro ⟨-, hnobody⟩
      rw [hnobody hlength, List.map_nil] at hcalls
      refine ⟨?_, fun _ _ => hcalls, fun heq => absurd heq.symm (hne _)⟩
      exact fun _ member _ heq => absurd heq (hne _)
  · have hbytes := readDestination_of_length (Nat.not_lt.mp hlength) hread
    rw [← hbytes]
    by_cases hbroadcast : destination = broadcastMac
    · have hpeers : passedTo room sender destination =
          (room.members.map Member.peer).filter fun peer => peer != sender := if_pos hbroadcast
      rw [hpeers] at hcalls
      have hmem : ∀ peer, peer ∈ ((room.members.map Member.peer).filter fun other =>
          other != sender) ↔ IsMember room peer ∧ peer ≠ sender := by
        intro peer
        rw [List.mem_filter, List.mem_map, bne_iff_ne]
        rfl
      constructor
      · intro hroutes
        refine ⟨fun _ => ?_, fun hlt => absurd hlt hlength⟩
        apply List.nodup_iff_count_le_one.mpr
        intro peer
        by_cases hpeer : IsMember room peer ∧ peer ≠ sender
        · have hsent := (hroutes.broadcast (by rw [← hbytes, hbroadcast]) peer).1 hpeer
          rw [hcalls, sentTo_peerSends] at hsent
          have hcount := congrArg List.length hsent
          rw [List.length_replicate] at hcount
          exact Nat.le_of_eq hcount
        · rw [List.count_eq_zero.mpr fun h => hpeer ((hmem peer).mp h)]
          exact Nat.zero_le 1
      · rintro ⟨hnodup, -⟩
        have heq : destinationBytes data = broadcastMac.1 := by rw [← hbytes, hbroadcast]
        refine ⟨fun hne => absurd heq hne, fun hne => absurd heq hne, fun _ peer => ⟨?_, ?_⟩⟩
        · intro hpeer
          rw [hcalls, sentTo_peerSends,
            List.count_eq_one_of_mem (hnodup (by rw [hbroadcast])) ((hmem peer).mpr hpeer)]
          rfl
        · intro hpeer
          rw [hcalls, sentTo_peerSends, List.count_eq_zero.mpr fun h => hpeer ((hmem peer).mp h)]
          rfl
    · have hpeers : passedTo room sender destination = ((room.members.find? fun member =>
          member.macAddress == destination).map Member.peer).toList := if_neg hbroadcast
      have hne : destinationBytes data ≠ broadcastMac.1 := by
        rw [← hbytes]
        exact fun heq => hbroadcast (Subtype.ext heq)
      refine iff_of_true ⟨?_, ?_, fun heq => absurd heq hne⟩
        ⟨fun heq => absurd (Subtype.ext heq) hbroadcast, fun hlt => absurd hlt hlength⟩
      · intro _ member hmem haddress
        have hmac : member.macAddress = destination := Subtype.ext (haddress.trans hbytes.symm)
        rw [hcalls, hpeers, ← hmac, find?_macAddress hdistinct hmem]
        rfl
      · intro _ hnone
        have hfind : (room.members.find? fun member => member.macAddress == destination) =
            none := by
          apply List.find?_eq_none.mpr
          intro member hmem hmac
          exact hnone member hmem ((congrArg Subtype.val (beq_iff_eq.mp hmac)).trans hbytes)
        rw [hcalls, hpeers, hfind]
        rfl

end Handlers

section Strangers

variable {w : Surroundings} {room room' : Room} {sender : ℕ} {data : List UInt8}

/-- All that a turn hands to the network is an answer to a peer. -/
def Answers (room room' : Room) (sender : ℕ) : Prop :=
  room'.server = room.server ∨ ∃ data, room'.server = room.server ++ [.peerSend sender data]

theorem answers_send (client : ℕ) (type : RoomMessageTypes) (values : List Packet.TypedValue) :
    Answers room (room.sendMessage client type values) client :=
  .inr ⟨messageData type values, rfl⟩

/-- A join request that does not make its sender a member is only answered. -/
theorem handleJoinRequest_answers (h : room.handleJoinRequest w sender data = .ok room') :
    Answers room room' sender ∨ IsMember room' sender := by
  unfold Room.handleJoinRequest at h
  split at h
  · cases h
    exact .inl (answers_send sender _ _)
  · obtain ⟨request, -, h⟩ := bind_eq_ok.mp h
    split at h
    · cases h
      exact .inl (answers_send sender _ _)
    · split at h
      · cases h
        exact .inl (answers_send sender _ _)
      · split at h
        · cases h
          exact .inl (answers_send sender _ _)
        · obtain ⟨macAddress, -, h⟩ := bind_eq_ok.mp h
          split at h
          · cases h
            exact .inl (answers_send sender _ _)
          · split at h
            · cases h
              exact .inl (answers_send sender _ _)
            · cases h
              unfold Room.join
              split
              · exact .inl (answers_send sender _ _)
              · split
                · exact .inl (answers_send sender _ _)
                · right
                  dsimp only
                  split
                  · exact ⟨_, List.mem_append_right _ (List.mem_singleton_self _), rfl⟩
                  · exact ⟨_, List.mem_append_right _ (List.mem_singleton_self _), rfl⟩

/-- The moderation packets of a peer who is no member are only answered. -/
theorem moderation_answers (hsender : ¬ IsMember room sender) :
    (room.handleModKickPacket w sender data = .ok room' → Answers room room' sender) ∧
      (room.handleModBanPacket w sender data = .ok room' → Answers room room' sender) ∧
      (room.handleModUnbanPacket w sender data = .ok room' → Answers room room' sender) ∧
      Answers room (room.handleModGetBanListPacket sender) sender := by
  have hdenied : (!room.hasModPermission sender) = true := by
    rw [hasModPermission_of_notMember hsender]
    rfl
  refine ⟨?_, ?_, ?_, ?_⟩
  · unfold Room.handleModKickPacket
    rw [if_pos hdenied]
    rintro ⟨⟩
    exact answers_send sender _ _
  · unfold Room.handleModBanPacket
    rw [if_pos hdenied]
    rintro ⟨⟩
    exact answers_send sender _ _
  · unfold Room.handleModUnbanPacket
    rw [if_pos hdenied]
    rintro ⟨⟩
    exact answers_send sender _ _
  · unfold Room.handleModGetBanListPacket
    rw [if_pos hdenied]
    exact answers_send sender _ _

theorem handleChatPacket_answers (hsender : ¬ IsMember room sender)
    (h : room.handleChatPacket w sender data = .ok room') : Answers room room' sender := by
  obtain ⟨message, -, h⟩ := bind_eq_ok.mp h
  dsimp only at h
  rw [find?_of_notMember hsender] at h
  cases h
  exact .inl rfl

theorem setGameInfo_of_notMember (gameInfo : GameInfo) {members : List Member}
    (hsender : ∀ member ∈ members, member.peer ≠ sender) :
    Room.setGameInfo gameInfo sender members = members := by
  induction members with
  | nil => rfl
  | cons member members ih =>
      rw [Room.setGameInfo, if_neg, ih fun other hmem => hsender other (List.mem_cons_of_mem _ hmem)]
      intro hpeer
      exact hsender member List.mem_cons_self (beq_iff_eq.mp hpeer)

/-- The game information of a peer who is no member changes no member, and makes the room announce
itself as it is. -/
theorem handleGameNamePacket_announces (hsender : ¬ IsMember room sender)
    (h : room.handleGameNamePacket w sender data = .ok room') :
    room' = room.broadcastRoomInformation := by
  obtain ⟨⟨name, p⟩, -, h⟩ := bind_eq_ok.mp h
  obtain ⟨⟨id, p'⟩, -, h⟩ := bind_eq_ok.mp h
  dsimp only at h
  rw [setGameInfo_of_notMember { name, id } fun member hmem hpeer => hsender ⟨member, hmem, hpeer⟩]
    at h
  exact (Except.ok.inj h).symm

/-- An announcement reaches every member. -/
theorem broadcastRoomInformation_reachesNobody_iff :
    ReachesNobody room room.broadcastRoomInformation ↔ room.members = [] := by
  have hcalls : ∃ information, newCalls room room.broadcastRoomInformation =
      [.broadcast information] := ⟨_, newCalls_eq rfl⟩
  obtain ⟨information, hcalls⟩ := hcalls
  constructor
  · intro hnobody
    apply List.eq_nil_iff_forall_not_mem.mpr
    intro member hmem
    have hsent := hnobody member hmem
    rw [hcalls] at hsent
    cases hsent
  · intro hempty member hmem
    rw [hempty] at hmem
    cases hmem

/-- A WiFi packet of a peer who is no member reaches no member exactly if it is passed on to
nobody. -/
theorem handleWifiPacket_reachesNobody_iff {destination : MacAddress}
    (hcalls : newCalls room room' =
      (passedTo room sender destination).map fun peer => .peerSend peer data) :
    ReachesNobody room room' ↔ passedTo room sender destination = [] :=
  reachesNobody_iff (fun _ hmem => mem_passedTo hmem) hcalls

end Strangers

section Steps

variable {room room' : Room} {input : RoomInput} {w : Surroundings} {sender : ℕ}
  {data : List UInt8}

/-- A turn keeps the MAC addresses of the members distinct. -/
theorem roomStep_macAddresses (hdistinct : (room.members.map Member.macAddress).Nodup)
    (h : roomStep room input = .ok room') : (room'.members.map Member.macAddress).Nodup := by
  rcases roomStep_cases h with ⟨hshrinks, -⟩ | ⟨peer, request, -, hadmits⟩
  · exact hshrinks.nodup (fun _ => rfl) hdistinct
  · obtain ⟨macAddress, hvalid, hmembers⟩ := hadmits.admitted
    rw [hmembers]
    apply (nodup_append_member hdistinct).mpr
    intro other hmem
    exact bne_iff_ne.mp (List.all_eq_true.mp hvalid other hmem)

/-- What becomes of a packet of a peer who is no member: a WiFi packet is passed on, game
information makes the room announce itself, and everything else is only answered. -/
theorem serve_cases (h : room.serve w (.receive sender data) = .ok room') :
    (data[0]? = some RoomMessageTypes.wifiPacket.id ∧
        room.handleWifiPacket w sender data = .ok room') ∨
      (data[0]? = some RoomMessageTypes.setGameInfo.id ∧
        room.handleGameNamePacket w sender data = .ok room') ∨
      (data[0]? ≠ some RoomMessageTypes.wifiPacket.id ∧
        data[0]? ≠ some RoomMessageTypes.setGameInfo.id ∧
        (¬ IsMember room sender → Answers room room' sender ∨ IsMember room' sender)) := by
  obtain ⟨type, htype, h⟩ := bind_eq_ok.mp h
  rw [readAt_eq_ok] at htype
  rw [htype]
  split at h
  · rename_i hjoin
    rw [hjoin]
    exact .inr (.inr ⟨by decide, by decide, fun _ => handleJoinRequest_answers h⟩)
  · split at h
    · rename_i hgame
      rw [hgame]
      exact .inr (.inl ⟨rfl, h⟩)
    · rename_i hgame
      split at h
      · rename_i hwifi
        rw [hwifi]
        exact .inl ⟨rfl, h⟩
      · rename_i hwifi
        refine .inr (.inr ⟨fun heq => hwifi (Option.some.inj heq),
          fun heq => hgame (Option.some.inj heq), fun hsender => .inl ?_⟩)
        obtain ⟨hkick, hban, hunban, hlist⟩ := @moderation_answers w room room' sender data hsender
        repeat' split at h
        · exact handleChatPacket_answers hsender h
        · exact hkick h
        · exact hban h
        · exact hunban h
        · cases h
          exact hlist
        · cases h
          exact .inl rfl

/-- One packet is treated as promised exactly if it meets the condition. -/
theorem routesPackets_iff (hdistinct : (room.members.map Member.macAddress).Nodup)
    (h : roomStep room input = .ok room') :
    RoutesPackets room input ↔ RoutingCondition room input := by
  obtain ⟨w, event⟩ := input
  -- Only packets are routed.
  have hother : (∀ sender data, event ≠ .receive sender data) →
      (RoutesPackets room (w, event) ↔ RoutingCondition room (w, event)) := by
    intro hno
    exact iff_of_true (fun _ sender data hevent => absurd hevent (hno sender data))
      fun sender data hevent => absurd hevent (hno sender data)
  cases event with
  | none => exact hother fun _ _ hevent => nomatch hevent
  | connect peer => exact hother fun _ _ hevent => nomatch hevent
  | disconnect peer => exact hother fun _ _ hevent => nomatch hevent
  | receive sender data =>
      have hroutes : RoutesPackets room (w, .receive sender data) ↔
          (data[0]? = some RoomMessageTypes.wifiPacket.id → IsMember room sender →
            RoutesWifi room room' sender data) ∧
          (¬ IsMember room sender → ¬ IsMember room' sender → ReachesNobody room room') := by
        constructor
        · intro hall
          exact hall room' sender data rfl h
        · rintro hthis room'' sender' data' hevent h''
          rw [h] at h''
          cases h''
          cases hevent
          exact hthis
      have hcondition : RoutingCondition room (w, .receive sender data) ↔
          (data[0]? = some RoomMessageTypes.wifiPacket.id →
            (IsMember room sender → destinationBytes data = broadcastMac.1 →
              ((room.members.map Member.peer).filter fun peer => peer != sender).Nodup) ∧
            (¬ IsMember room sender ∨ data.length < 15 →
              ∀ destination, readDestination w.fresh data = .ok destination →
                ∀ member ∈ room.members, ¬ Addressed destination sender member)) ∧
          (data[0]? = some RoomMessageTypes.setGameInfo.id → ¬ IsMember room sender →
            room.members = []) := by
        constructor
        · intro hall
          exact hall sender data rfl
        · rintro hthis sender' data' hevent
          cases hevent
          exact hthis
      have hids : RoomMessageTypes.wifiPacket.id ≠ RoomMessageTypes.setGameInfo.id := by decide
      rw [hroutes, hcondition]
      rcases serve_cases h with ⟨htype, hwifi⟩ | ⟨htype, hgame⟩ | ⟨hnowifi, hnogame, hanswers⟩
      · obtain ⟨destination, hread, hcalls⟩ := handleWifiPacket_passes hwifi
        have hmembers : room'.members = room.members := handleWifiPacket_members hwifi
        have hstill : IsMember room' sender ↔ IsMember room sender := by
          unfold IsMember
          rw [hmembers]
        have haddressed : (∀ destination, readDestination w.fresh data = .ok destination →
            ∀ member ∈ room.members, ¬ Addressed destination sender member) ↔
            passedTo room sender destination = [] := by
          rw [passedTo_eq_nil]
          constructor
          · intro hall
            exact hall destination hread
          · intro hthis destination' hread'
            rw [hread] at hread'
            cases hread'
            exact hthis
        rw [haddressed, hstill]
        by_cases hsender : IsMember room sender
        · have hwifi := @routesWifi_iff w room room' sender data hdistinct destination hread hcalls
          simp [htype, hids, hsender, hwifi]
        · have hnobody := @handleWifiPacket_reachesNobody_iff room room' sender data destination hcalls
          simp [htype, hids, hsender, hnobody]
      · by_cases hsender : IsMember room sender
        · simp [htype, hids.symm, hsender]
        · obtain rfl := handleGameNamePacket_announces hsender hgame
          have hstill : ¬ IsMember room.broadcastRoomInformation sender := hsender
          have hnobody := @broadcastRoomInformation_reachesNobody_iff room
          simp [htype, hids.symm, hsender, hstill, hnobody]
      · refine iff_of_true ⟨fun htype => absurd htype hnowifi, fun hsender hafter => ?_⟩
          ⟨fun htype => absurd htype hnowifi, fun htype => absurd htype hnogame⟩
        rcases hanswers hsender with hanswer | hjoined
        · exact reachesNobody_of_answer hsender hanswer
        · exact absurd hjoined hafter

end Steps

section Runs

/-- In a room that has just been created every packet of a run is treated as promised exactly if each
meets the condition. -/
theorem roomRouting_iff (information : RoomInformation) (password : Text) (verifies : Bool)
    (banList : List Text × List Text) (inputs : List RoomInput) :
    EachStep roomStep RoutesPackets (Room.create information password verifies banList) inputs ↔
      EachStep roomStep RoutingCondition (Room.create information password verifies banList)
        inputs := by
  have hnew : ((Room.create information password verifies banList).members.map
      Member.macAddress).Nodup := List.nodup_nil
  apply eachStep_congr (q := fun room => (room.members.map Member.macAddress).Nodup)
  · exact fun room input room' hdistinct h => roomStep_macAddresses hdistinct h
  · exact fun room input room' hdistinct h => routesPackets_iff hdistinct h
  · exact hnew

/-- A WiFi packet for the address of the member that has joined. -/
def packetForAnna : List UInt8 :=
  [RoomMessageTypes.wifiPacket.id, 0, 0, 0, 0, 0, 0, 0, 2, 0, 0, 0, 0, 0, 1]

/-- Peer 9, which has not joined, sends a WiFi packet. -/
def strangerSends : RoomInput := (plainSurroundings, .receive 9 packetForAnna)

/-- A WiFi packet of a peer who has not joined reaches a member. -/
theorem roomRouting_strangerSends :
    ¬ ∀ (information : RoomInformation) (password : Text) (verifies : Bool)
        (banList : List Text × List Text) (inputs : List RoomInput),
      EachStep roomStep RoutesPackets (Room.create information password verifies banList)
        inputs := by
  intro hall
  have hroutes := hall ⟨[], [], 8, 0, [], 0, []⟩ [] false ([], []) [annaJoins, strangerSends]
  have hjoins : ((roomStep (Room.create ⟨[], [], 8, 0, [], 0, []⟩ [] false ([], []))
      annaJoins).toOption.map fun room => room.members.map Member.peer) = some [7] := by
    decide
  have hsends : ((roomStep (Room.create ⟨[], [], 8, 0, [], 0, []⟩ [] false ([], []))
      annaJoins).toOption.bind fun room => (roomStep room strangerSends).toOption.map fun room' =>
        (room'.members.map Member.peer, sentTo 7 (newCalls room room'))) =
      some ([7], [packetForAnna]) := by
    decide
  obtain ⟨room, hroom, hpeers⟩ := Option.map_eq_some_iff.mp hjoins
  rw [hroom, Option.bind_some] at hsends
  obtain ⟨room', hroom', hsent⟩ := Option.map_eq_some_iff.mp hsends
  obtain ⟨hpeers', hsent⟩ := Prod.mk.inj hsent
  obtain ⟨-, hrest⟩ := hroutes room (eq_ok_of_toOption hroom)
  obtain ⟨hthis, -⟩ := hrest room' (eq_ok_of_toOption hroom')
  have hstranger : ∀ {r : Room}, r.members.map Member.peer = [7] → ¬ IsMember r 9 := by
    rintro r hr ⟨member, hmem, hpeer⟩
    have hseven : (9 : ℕ) ∈ r.members.map Member.peer := hpeer ▸ List.mem_map_of_mem hmem
    rw [hr] at hseven
    exact absurd hseven (by decide)
  have hnobody := (hthis room' 9 packetForAnna rfl (eq_ok_of_toOption hroom')).2
    (hstranger hpeers) (hstranger hpeers')
  have hseven : (7 : ℕ) ∈ room.members.map Member.peer := by
    rw [hpeers]
    exact List.mem_singleton_self 7
  obtain ⟨member, hmem, hpeer⟩ := List.mem_map.mp hseven
  have hnothing := hnobody member hmem
  rw [hpeer, hsent] at hnothing
  cases hnothing

end Runs

end Borked3DS.Analysis
