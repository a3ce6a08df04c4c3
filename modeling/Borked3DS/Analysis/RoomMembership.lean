import Mathlib.Data.List.Nodup
import Borked3DS.Interface.Rooms
import Borked3DS.Analysis.PacketRoundTrip

/-!
# The members of a room stay apart

What one turn of the room's server can do to the member list, and from it the condition on the join
requests of a run under which the list keeps its promise.
-/

set_option autoImplicit false

namespace Borked3DS.Analysis

open Borked3DS.Library Borked3DS.Model Borked3DS.Model.Network Borked3DS.Interface

section Lists

/-- A member without its game. -/
def bareMember (member : Member) : Member := { member with gameInfo := {} }

/-- Members only leave the list or change their games. -/
def Shrinks (room room' : Room) : Prop :=
  room'.roomInformation = room.roomInformation ∧
    (room'.members.map bareMember).Sublist (room.members.map bareMember)

variable {room room' : Room}

theorem Shrinks.of_members (hinfo : room'.roomInformation = room.roomInformation)
    (h : room'.members = room.members) : Shrinks room room' :=
  ⟨hinfo, by rw [h]⟩

theorem Shrinks.of_sublist (hinfo : room'.roomInformation = room.roomInformation)
    (h : room'.members.Sublist room.members) : Shrinks room room' :=
  ⟨hinfo, h.map bareMember⟩

theorem Shrinks.length_le (h : Shrinks room room') :
    room'.members.length ≤ room.members.length := by
  have hlength := h.2.length_le
  rwa [List.length_map, List.length_map] at hlength

/-- What members who leave do not change of those who stay. -/
theorem Shrinks.nodup {α : Type} {f : Member → α} (hf : ∀ member, f (bareMember member) = f member)
    (h : Shrinks room room') (hnodup : (room.members.map f).Nodup) :
    (room'.members.map f).Nodup := by
  have hbare : ∀ members : List Member, (members.map bareMember).map f = members.map f := by
    intro members
    rw [List.map_map]
    exact List.map_congr_left fun member _ => hf member
  rw [← hbare] at hnodup ⊢
  exact hnodup.sublist (h.2.map f)

theorem Shrinks.distinct (h : Shrinks room room') (hroom : MembersDistinct room) :
    MembersDistinct room' where
  nicknames := h.nodup (fun _ => rfl) hroom.nicknames
  macAddresses := h.nodup (fun _ => rfl) hroom.macAddresses
  consoleIds := h.nodup (fun _ => rfl) hroom.consoleIds
  peers := h.nodup (fun _ => rfl) hroom.peers
  slots := by
    rw [h.1]
    exact Nat.le_trans h.length_le hroom.slots

theorem map_bare_setGameInfo (gameInfo : GameInfo) (peer : ℕ) (members : List Member) :
    (Room.setGameInfo gameInfo peer members).map bareMember = members.map bareMember := by
  induction members with
  | nil => rfl
  | cons member members ih =>
      rw [Room.setGameInfo]
      split
      · rfl
      · rw [List.map_cons, ih, List.map_cons]

end Lists

section Handlers

variable {w : Surroundings} {room room' : Room} {peer : ℕ} {data : List UInt8}

/-- A member joins: the checks that its request passed, and what they leave of the room. -/
structure Admits (w : Surroundings) (room : Room) (peer : ℕ) (request : JoinRequest)
    (room' : Room) : Prop where
  checks : PassesChecks w room peer request
  admitted : ∃ macAddress, room.isValidMacAddress macAddress = true ∧
    room'.members = room.members ++ [room.requestedMember w peer request macAddress]
  roomInformation : room'.roomInformation = room.roomInformation
  usernameBanList : room'.usernameBanList = room.usernameBanList
  ipBanList : room'.ipBanList = room.ipBanList

theorem generateMacAddress_valid {random : List UInt8} {macAddress : MacAddress}
    (h : room.generateMacAddress random = .ok macAddress) :
    room.isValidMacAddress macAddress = true := by
  fun_induction Room.generateMacAddress room random with
  | case1 x y z random result hvalid =>
      rw [← Except.ok.inj h]
      exact hvalid
  | case2 x y z random result hvalid ih => exact ih h
  | case3 => cases h

/-- The member is on the list behind the others unless it is banned. -/
theorem join_cases (member : Member) :
    (((member.userData.username ≠ [] ∧ member.userData.username ∈ room.usernameBanList) ∨
        w.hostIp member.peer ∈ room.ipBanList) ∧ Shrinks room (room.join w member)) ∨
      ((member.userData.username = [] ∨ member.userData.username ∉ room.usernameBanList) ∧
        w.hostIp member.peer ∉ room.ipBanList ∧
        (room.join w member).members = room.members ++ [member] ∧
        (room.join w member).roomInformation = room.roomInformation ∧
        (room.join w member).usernameBanList = room.usernameBanList ∧
        (room.join w member).ipBanList = room.ipBanList) := by
  unfold Room.join
  split
  · rename_i husername
    left
    simp only [Bool.and_eq_true, Bool.not_eq_true', List.isEmpty_eq_false_iff,
      List.contains_iff_mem] at husername
    exact ⟨.inl husername, .of_members rfl rfl⟩
  · rename_i husername
    simp only [Bool.and_eq_true, Bool.not_eq_true', List.isEmpty_eq_false_iff,
      List.contains_iff_mem, not_and] at husername
    split
    · rename_i hip
      left
      exact ⟨.inr (List.contains_iff_mem.mp hip), .of_members rfl rfl⟩
    · rename_i hip
      right
      have hname : member.userData.username = [] ∨
          member.userData.username ∉ room.usernameBanList := by
        by_cases hempty : member.userData.username = []
        · exact .inl hempty
        · exact .inr (husername hempty)
      refine ⟨hname, fun hmem => hip (List.contains_iff_mem.mpr hmem), ?_⟩
      dsimp only
      split
      · exact ⟨rfl, rfl, rfl, rfl⟩
      · exact ⟨rfl, rfl, rfl, rfl⟩

/-- A join request either leaves the member list alone, and then it does not pass the checks, or it
puts its member on the list. -/
theorem handleJoinRequest_cases (h : room.handleJoinRequest w peer data = .ok room') :
    (Shrinks room room' ∧ ∀ request, readJoinRequest w.fresh data = .ok request →
        ¬ PassesChecks w room peer request) ∨
      ∃ request, readJoinRequest w.fresh data = .ok request ∧ Admits w room peer request room' := by
  unfold Room.handleJoinRequest at h
  split at h
  · rename_i hfull
    cases h
    exact .inl ⟨.of_members rfl rfl, fun request _ hpass => absurd hpass.1 (by omega)⟩
  · rename_i hslot
    obtain ⟨request, hrequest, h⟩ := bind_eq_ok.mp h
    -- A check that fails leaves the list alone, and the request is the only one that was read.
    have hrefuse : Shrinks room room' → ¬ PassesChecks w room peer request →
        (Shrinks room room' ∧ ∀ request, readJoinRequest w.fresh data = .ok request →
            ¬ PassesChecks w room peer request) ∨
          ∃ request, readJoinRequest w.fresh data = .ok request ∧
            Admits w room peer request room' := by
      intro hshrinks hnot
      refine .inl ⟨hshrinks, fun request' hrequest' => ?_⟩
      rw [hrequest] at hrequest'
      cases hrequest'
      exact hnot
    split at h
    · rename_i hpass
      cases h
      exact hrefuse (.of_members rfl rfl) fun hc => (bne_iff_ne.mp hpass) hc.2.1
    · rename_i hpass
      split at h
      · rename_i hname
        cases h
        refine hrefuse (.of_members rfl rfl) fun hc => ?_
        rw [hc.2.2.1] at hname
        cases hname
      · rename_i hname
        split at h
        · rename_i hmac
          cases h
          refine hrefuse (.of_members rfl rfl) fun hc => ?_
          rw [Bool.and_eq_true, bne_iff_ne] at hmac
          rcases hc.2.2.2.1 with hnone | hvalid
          · exact hmac.1 hnone
          · rw [hvalid] at hmac
            cases hmac.2
        · rename_i hmac
          obtain ⟨macAddress, hmacAddress, h⟩ := bind_eq_ok.mp h
          have hpreferred : request.preferredMac = noPreferredMac ∨
              room.isValidMacAddress request.preferredMac = true := by
            by_cases hnone : request.preferredMac = noPreferredMac
            · exact .inl hnone
            · refine .inr ?_
              simpa [hnone] using hmac
          have hvalid : room.isValidMacAddress macAddress = true := by
            unfold Room.assignMacAddress at hmacAddress
            split at hmacAddress
            · rename_i hsome
              cases hmacAddress
              exact hpreferred.resolve_left (bne_iff_ne.mp hsome)
            · exact generateMacAddress_valid hmacAddress
          split at h
          · rename_i hconsole
            cases h
            refine hrefuse (.of_members rfl rfl) fun hc => ?_
            rw [hc.2.2.2.2.1] at hconsole
            cases hconsole
          · rename_i hconsole
            split at h
            · rename_i hversion
              cases h
              exact hrefuse (.of_members rfl rfl) fun hc =>
                (bne_iff_ne.mp hversion) hc.2.2.2.2.2.1
            · rename_i hversion
              cases h
              rcases @join_cases w room
                (room.requestedMember w peer request macAddress) with
                ⟨hbanned, hshrinks⟩ | ⟨hname', hip, hmembers, hinfo, husernames, hips⟩
              · refine hrefuse hshrinks fun hc => ?_
                rcases hbanned with ⟨hne, hmem⟩ | hmem
                · exact hc.2.2.2.2.2.2.1.elim hne fun hnot => hnot hmem
                · exact hc.2.2.2.2.2.2.2 hmem
              · refine .inr ⟨request, hrequest, ?_, ⟨macAddress, hvalid, hmembers⟩, hinfo,
                  husernames, hips⟩
                refine ⟨by omega, ?_, ?_, hpreferred, ?_, ?_, hname', hip⟩
                · simpa using hpass
                · simpa using hname
                · simpa using hconsole
                · simpa using hversion

theorem handleGameNamePacket_shrinks (h : room.handleGameNamePacket w peer data = .ok room') :
    Shrinks room room' := by
  obtain ⟨⟨name, p⟩, -, h⟩ := bind_eq_ok.mp h
  obtain ⟨⟨id, p'⟩, -, h⟩ := bind_eq_ok.mp h
  cases h
  refine ⟨rfl, ?_⟩
  show ((Room.setGameInfo _ peer room.members).map bareMember).Sublist _
  rw [map_bare_setGameInfo]

theorem handleWifiPacket_shrinks (h : room.handleWifiPacket w peer data = .ok room') :
    Shrinks room room' := by
  obtain ⟨⟨destination, p⟩, -, h⟩ := bind_eq_ok.mp h
  dsimp only at h
  split at h
  · cases h
    exact .of_members rfl rfl
  · split at h
    · cases h
      exact .of_members rfl rfl
    · cases h
      exact .of_members rfl rfl

theorem handleChatPacket_shrinks (h : room.handleChatPacket w peer data = .ok room') :
    Shrinks room room' := by
  obtain ⟨message, -, h⟩ := bind_eq_ok.mp h
  dsimp only at h
  split at h
  · cases h
    exact .of_members rfl rfl
  · cases h
    exact .of_members rfl rfl

theorem ban_members (room : Room) (username ip : Text) :
    (room.ban username ip).members = room.members ∧
      (room.ban username ip).roomInformation = room.roomInformation := by
  unfold Room.ban
  dsimp only
  split <;> split <;> exact ⟨rfl, rfl⟩

theorem handleModKickPacket_shrinks (h : room.handleModKickPacket w peer data = .ok room') :
    Shrinks room room' := by
  unfold Room.handleModKickPacket at h
  split at h
  · cases h
    exact .of_members rfl rfl
  · obtain ⟨nickname, -, h⟩ := bind_eq_ok.mp h
    dsimp only at h
    split at h
    · cases h
      exact .of_members rfl rfl
    · cases h
      exact .of_sublist rfl List.eraseP_sublist

theorem handleModBanPacket_shrinks (h : room.handleModBanPacket w peer data = .ok room') :
    Shrinks room room' := by
  unfold Room.handleModBanPacket at h
  split at h
  · cases h
    exact .of_members rfl rfl
  · obtain ⟨nickname, -, h⟩ := bind_eq_ok.mp h
    dsimp only at h
    split at h
    · cases h
      exact .of_members rfl rfl
    · rename_i target _
      cases h
      obtain ⟨hmembers, hinfo⟩ := ban_members (room.expel target .hostBanned)
        target.userData.username (w.hostIp target.peer)
      apply Shrinks.of_sublist
      · exact hinfo
      · show ((room.expel target .hostBanned).ban _ _).members.Sublist room.members
        rw [hmembers]
        exact List.eraseP_sublist

theorem handleModUnbanPacket_shrinks (h : room.handleModUnbanPacket w peer data = .ok room') :
    Shrinks room room' := by
  unfold Room.handleModUnbanPacket at h
  split at h
  · cases h
    exact .of_members rfl rfl
  · obtain ⟨address, -, h⟩ := bind_eq_ok.mp h
    dsimp only at h
    split at h
    · cases h
      exact .of_members rfl rfl
    · cases h
      exact .of_members rfl rfl

theorem handleModGetBanListPacket_shrinks (room : Room) (peer : ℕ) :
    Shrinks room (room.handleModGetBanListPacket peer) := by
  unfold Room.handleModGetBanListPacket
  split
  · exact .of_members rfl rfl
  · exact .of_members rfl rfl

/-- The first member of a client that disconnects leaves the list. -/
theorem handleClientDisconnection_lists (room : Room) (client : ℕ) :
    (room.handleClientDisconnection client).roomInformation = room.roomInformation ∧
      (room.handleClientDisconnection client).members =
        room.members.eraseP fun member => member.peer == client := by
  unfold Room.handleClientDisconnection
  split
  · rename_i hnone
    refine ⟨rfl, (List.eraseP_of_forall_not fun member hmem => ?_).symm⟩
    exact List.find?_eq_none.mp hnone member hmem
  · dsimp only
    split
    · exact ⟨rfl, rfl⟩
    · exact ⟨rfl, rfl⟩

end Handlers

section Steps

variable {room room' : Room} {input : RoomInput}

/-- A turn either admits the sender of a join request that passes the checks, or it admits nobody,
and then there is no such request. -/
theorem roomStep_cases (h : roomStep room input = .ok room') :
    (Shrinks room room' ∧ ∀ peer request, ¬ Joins room input peer request) ∨
      ∃ peer request, Joins room input peer request ∧
        Admits input.1 room peer request room' := by
  obtain ⟨w, event⟩ := input
  -- An event that is no join request never passes the checks of one.
  have hother : Shrinks room room' →
      (∀ peer data, event = .receive peer data →
        data[0]? ≠ some RoomMessageTypes.joinRequest.id) →
      (Shrinks room room' ∧ ∀ peer request, ¬ Joins room (w, event) peer request) ∨
        ∃ peer request, Joins room (w, event) peer request ∧
          Admits w room peer request room' := by
    intro hshrinks hno
    refine .inl ⟨hshrinks, ?_⟩
    rintro peer request ⟨data, hevent, htype, -⟩
    exact hno peer data hevent htype
  cases event with
  | none =>
      cases h
      exact hother (.of_members rfl rfl) fun _ _ hevent => nomatch hevent
  | connect peer =>
      cases h
      exact hother (.of_members rfl rfl) fun _ _ hevent => nomatch hevent
  | disconnect peer =>
      cases h
      obtain ⟨hinfo, hmembers⟩ := handleClientDisconnection_lists room peer
      refine hother (.of_sublist hinfo ?_) fun _ _ hevent => nomatch hevent
      rw [hmembers]
      exact List.eraseP_sublist
  | receive peer data =>
      obtain ⟨type, htype, h⟩ := bind_eq_ok.mp h
      rw [readAt_eq_ok] at htype
      dsimp only at h
      split at h
      · rename_i hjoin
        rw [hjoin] at htype
        rcases handleJoinRequest_cases h with ⟨hshrinks, hnot⟩ | ⟨request, hrequest, hadmits⟩
        · refine .inl ⟨hshrinks, ?_⟩
          rintro sender request ⟨data', hevent, -, hrequest, hpasses⟩
          cases hevent
          exact hnot request hrequest hpasses
        · exact .inr ⟨peer, request, ⟨data, rfl, htype, hrequest, hadmits.checks⟩, hadmits⟩
      · rename_i hjoin
        have hnot : ∀ sender data', NetworkEvent.receive peer data = .receive sender data' →
            data'[0]? ≠ some RoomMessageTypes.joinRequest.id := by
          intro sender data' hevent
          cases hevent
          rw [htype]
          exact fun hsome => hjoin (Option.some.inj hsome)
        repeat' split at h
        · exact hother (handleGameNamePacket_shrinks h) hnot
        · exact hother (handleWifiPacket_shrinks h) hnot
        · exact hother (handleChatPacket_shrinks h) hnot
        · exact hother (handleModKickPacket_shrinks h) hnot
        · exact hother (handleModBanPacket_shrinks h) hnot
        · exact hother (handleModUnbanPacket_shrinks h) hnot
        · cases h
          exact hother (handleModGetBanListPacket_shrinks room peer) hnot
        · cases h
          exact hother (.of_members rfl rfl) hnot

/-- Which request an event is. -/
theorem joins_unique {peer peer' : ℕ} {request request' : JoinRequest}
    (h : Joins room input peer request) (h' : Joins room input peer' request') :
    peer = peer' ∧ request = request' := by
  obtain ⟨data, hevent, -, hrequest, -⟩ := h
  obtain ⟨data', hevent', -, hrequest', -⟩ := h'
  rw [hevent] at hevent'
  cases hevent'
  rw [hrequest] at hrequest'
  exact ⟨rfl, Except.ok.inj hrequest'⟩

/-- A value that no member has may be taken by a new one. -/
theorem nodup_append_member {α : Type} {f : Member → α} {members : List Member} {member : Member}
    (h : (members.map f).Nodup) :
    ((members ++ [member]).map f).Nodup ↔ ∀ other ∈ members, f other ≠ f member := by
  rw [List.map_append, List.map_singleton, List.nodup_append_comm, List.singleton_append,
    List.nodup_cons]
  constructor
  · intro hnodup other hmem heq
    exact hnodup.1 (heq ▸ List.mem_map_of_mem hmem)
  · intro hne
    refine ⟨fun hmem => ?_, h⟩
    obtain ⟨other, hother, heq⟩ := List.mem_map.mp hmem
    exact hne other hother heq

/-- The members stay distinct through a join exactly if the sender is not a member yet. -/
theorem Admits.distinct_iff {w : Surroundings} {peer : ℕ} {request : JoinRequest}
    (h : Admits w room peer request room') (hroom : MembersDistinct room) :
    MembersDistinct room' ↔ ∀ member ∈ room.members, member.peer ≠ peer := by
  obtain ⟨macAddress, hmac, hmembers⟩ := h.admitted
  obtain ⟨hslot, -, hname, -, hconsole, -⟩ := h.checks
  constructor
  · intro hdistinct
    have hpeers := hdistinct.peers
    rw [hmembers] at hpeers
    exact (nodup_append_member hroom.peers).mp hpeers
  · intro hpeer
    refine ⟨?_, ?_, ?_, ?_, ?_⟩
    · rw [hmembers]
      apply (nodup_append_member hroom.nicknames).mpr
      rw [Room.isValidNickname, Bool.and_eq_true] at hname
      intro other hmem
      exact bne_iff_ne.mp (List.all_eq_true.mp hname.2 other hmem)
    · rw [hmembers]
      apply (nodup_append_member hroom.macAddresses).mpr
      intro other hmem
      exact bne_iff_ne.mp (List.all_eq_true.mp hmac other hmem)
    · rw [hmembers]
      apply (nodup_append_member hroom.consoleIds).mpr
      intro other hmem
      exact bne_iff_ne.mp (List.all_eq_true.mp hconsole other hmem)
    · rw [hmembers]
      exact (nodup_append_member hroom.peers).mpr hpeer
    · rw [hmembers, h.roomInformation, List.length_append]
      exact hslot

/-- Nobody banned is admitted exactly if whoever joins has a username or the empty one is not in
the ban list. -/
theorem admitsNobodyBanned_iff (h : roomStep room input = .ok room') :
    AdmitsNobodyBanned room input ↔ ∀ peer request, Joins room input peer request →
      (room.userDataOf input.1 request).username = [] → [] ∉ room.usernameBanList := by
  rcases roomStep_cases h with ⟨hshrinks, hnobody⟩ | ⟨peer, request, hjoins, hadmits⟩
  · refine iff_of_true ?_ fun peer request hjoins => absurd hjoins (hnobody peer request)
    intro room'' member h'' hmembers
    rw [h] at h''
    cases h''
    have hlength := hshrinks.length_le
    rw [hmembers, List.length_append, List.length_singleton] at hlength
    omega
  · obtain ⟨macAddress, -, hmembers⟩ := hadmits.admitted
    have hchecks := hadmits.checks
    constructor
    · intro hnobody peer' request' hjoins' hempty
      obtain ⟨rfl, rfl⟩ := joins_unique hjoins hjoins'
      have hname := (hnobody room' _ h hmembers).1
      rw [hadmits.usernameBanList] at hname
      rw [← hempty]
      exact hname
    · intro hnameless room'' member h'' hmembers''
      rw [h] at h''
      cases h''
      rw [hmembers, List.append_cancel_left_eq, List.cons.injEq] at hmembers''
      obtain ⟨rfl, -⟩ := hmembers''
      rw [hadmits.usernameBanList, hadmits.ipBanList]
      refine ⟨?_, hchecks.2.2.2.2.2.2.2⟩
      rcases hchecks.2.2.2.2.2.2.1 with hempty | hnot
      · show (room.userDataOf input.1 request).username ∉ room.usernameBanList
        rw [hempty]
        exact hnameless peer request hjoins hempty
      · exact hnot

/-- Where the peers are distinct, the one that disconnects is gone from the list. -/
theorem forgetsPeer_of_distinct (hroom : MembersDistinct room) : ForgetsPeer room input := by
  obtain ⟨w, event⟩ := input
  rintro room' peer rfl h member hmem hpeer
  cases h
  rw [(handleClientDisconnection_lists room peer).2] at hmem
  have hmap : (room.members.eraseP fun member => member.peer == peer).map Member.peer =
      (room.members.map Member.peer).erase peer := by
    rw [List.erase_eq_eraseP', List.eraseP_map]
    rfl
  have hpeers := List.mem_map_of_mem (f := Member.peer) hmem
  rw [hmap, hpeer] at hpeers
  exact hroom.peers.not_mem_erase hpeers

theorem roomStep_iff (hroom : MembersDistinct room) (h : roomStep room input = .ok room') :
    MembersDistinct room' ∧ (AdmitsNobodyBanned room input ∧ ForgetsPeer room input) ↔
      JoinsOnce room input := by
  have hdistinct : MembersDistinct room' ↔ ∀ peer request, Joins room input peer request →
      ∀ member ∈ room.members, member.peer ≠ peer := by
    rcases roomStep_cases h with ⟨hshrinks, hnobody⟩ | ⟨peer, request, hjoins, hadmits⟩
    · exact iff_of_true (hshrinks.distinct hroom) fun peer request hjoins =>
        absurd hjoins (hnobody peer request)
    · rw [hadmits.distinct_iff hroom]
      constructor
      · intro hpeer peer' request' hjoins'
        obtain ⟨rfl, rfl⟩ := joins_unique hjoins hjoins'
        exact hpeer
      · exact fun hpeer => hpeer peer request hjoins
  rw [hdistinct, admitsNobodyBanned_iff h, and_iff_left (forgetsPeer_of_distinct hroom)]
  constructor
  · exact fun hboth peer request hjoins =>
      ⟨hboth.1 peer request hjoins, hboth.2 peer request hjoins⟩
  · exact fun honce => ⟨fun peer request hjoins => (honce peer request hjoins).1,
      fun peer request hjoins => (honce peer request hjoins).2⟩

end Steps

section Runs

/-- A room that has just been created keeps its membership apart over a run exactly if whoever
passes the checks of a join request in it is not a member yet, and has a username if the ban list
holds the empty one. -/
theorem roomMembership_iff (information : RoomInformation) (password : Text) (verifies : Bool)
    (banList : List Text × List Text) (inputs : List RoomInput) :
    KeepsMembership (Room.create information password verifies banList) inputs ↔
      EachStep roomStep JoinsOnce (Room.create information password verifies banList) inputs := by
  have hnew : MembersDistinct (Room.create information password verifies banList) := by
    refine ⟨List.nodup_nil, List.nodup_nil, List.nodup_nil, List.nodup_nil, ?_⟩
    exact Nat.zero_le _
  exact allAlong_and_eachStep_iff (fun _ _ _ hroom h => roomStep_iff hroom h) hnew inputs

/-- A join request for a nickname and a MAC address, without a password or a token. -/
def joinData (nickname : Text) (macAddress : MacAddress) : List UInt8 :=
  messageData .joinRequest [⟨.string, nickname⟩, ⟨.string, nickname⟩, ⟨.array .u8 6, macAddress⟩,
    ⟨.u32, networkVersion⟩, ⟨.string, []⟩, ⟨.string, []⟩]

/-- Surroundings in which every peer has an address of its own and nobody has a username. -/
def plainSurroundings : Surroundings where
  hostIp := fun peer => [UInt8.ofNat peer]
  loadUserData := fun _ => {}
  random := []
  fresh := zeroValue

/-- Peer 7 joins. -/
def annaJoins : RoomInput :=
  (plainSurroundings, .receive 7 (joinData [0x61, 0x6E, 0x6E, 0x61] ⟨[0, 0, 0, 0, 0, 1], rfl⟩))

/-- The same peer joins twice, as `anna` and as `bert`. -/
def joinsTwice : List RoomInput :=
  [annaJoins,
    (plainSurroundings, .receive 7 (joinData [0x62, 0x65, 0x72, 0x74] ⟨[0, 0, 0, 0, 0, 2], rfl⟩))]

/-- A peer may join a second time under other names, and both of its members are on the list then. -/
theorem roomMembership_joinsTwice :
    ¬ ∀ (information : RoomInformation) (password : Text) (verifies : Bool)
        (banList : List Text × List Text) (inputs : List RoomInput),
      KeepsMembership (Room.create information password verifies banList) inputs := by
  intro hall
  have hkeeps := (hall ⟨[], [], 8, 0, [], 0, []⟩ [] false ([], []) joinsTwice).1
  have hrun : ((run roomStep (Room.create ⟨[], [], 8, 0, [], 0, []⟩ [] false ([], []))
      joinsTwice).toOption.map fun room => room.members.map Member.peer) = some [7, 7] := by
    decide
  obtain ⟨room, hroom, hpeers⟩ := Option.map_eq_some_iff.mp hrun
  have hdistinct := (hkeeps.last (eq_ok_of_toOption hroom)).peers
  rw [hpeers] at hdistinct
  exact absurd hdistinct (by decide)

end Runs

end Borked3DS.Analysis
