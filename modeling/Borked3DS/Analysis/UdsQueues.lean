import Mathlib.Data.List.Nodup
import Borked3DS.Analysis.UdsBounds
import Borked3DS.Interface.LocalNetworks

/-!
# Frames of data and the queues of a node

What a frame carries through a local network, and what a node does with it: what is queued when it
is received, and what is taken out of a queue when it is pulled.
-/

set_option autoImplicit false

namespace Borked3DS.Analysis

open Borked3DS.Library Borked3DS.Model Borked3DS.Model.Network Borked3DS.Model.NWM
open Borked3DS.Interface

section Frames

/-- The bytes that are sent for some data. -/
def payloadFrame (send : SentData) : List UInt8 :=
  generateDataPayload send.payload send.channel send.destNodeId send.srcNodeId 0

/-- A word that stands between other bytes. -/
theorem word16_middle (before after : List UInt8) (word : UInt16) :
    word16 (before ++ (toBigEndian 2 word.toNat ++ after)) before.length = word := by
  unfold word16
  rw [List.drop_left]
  have htake : (toBigEndian 2 word.toNat ++ after).take 2 = toBigEndian 2 word.toNat := by
    rw [List.take_left' (length_toBigEndian 2 _)]
  rw [htake, ofBigEndian_of_lt word.toNat_lt, UInt16.ofNat_toNat]

/-- What the service reads out of the header that it has made. -/
theorem parse_payloadFrame {send : SentData} (h : send.payload.length ≤ 0x5C6) :
    ∃ header, parseSecureDataHeader (payloadFrame send) = .ok header ∧
      header.isManagement = 0 ∧ header.dataChannel = send.channel ∧
      header.destNodeId = send.destNodeId ∧ header.srcNodeId = send.srcNodeId ∧
      header.getActualDataSize = send.payload.length := by
  set size := UInt16.ofNat send.payload.length with hsize
  have hread := readRun_middle Fault.undefined (generateLLCHeader .secureData)
    (generateSecureDataHeader size send.channel send.destNodeId send.srcNodeId 0) send.payload
  have hframe : payloadFrame send = generateLLCHeader .secureData ++
      (generateSecureDataHeader size send.channel send.destNodeId send.srcNodeId 0 ++
        send.payload) := List.append_assoc _ _ _
  have hlength : (generateSecureDataHeader size send.channel send.destNodeId send.srcNodeId
      0).length = secureDataHeaderSize := by
    simp [generateSecureDataHeader, SecureDataHeader.bytes, secureDataHeaderSize]
  rw [hlength] at hread
  unfold parseSecureDataHeader
  rw [hframe]
  have hheader : (generateLLCHeader .secureData).length = llcHeaderSize := rfl
  rw [hheader] at hread
  rw [hread, ok_bind]
  refine ⟨_, rfl, ?_, ?_, ?_, ?_, ?_⟩
  · simp [generateSecureDataHeader, SecureDataHeader.bytes, toBigEndian, toLittleEndian]
  · simp [generateSecureDataHeader, SecureDataHeader.bytes, toBigEndian, toLittleEndian]
  · have hword := word16_middle (toBigEndian 2 (size + UInt16.ofNat secureDataHeaderSize).toNat ++
      [0, 0] ++ toBigEndian 2 (size + UInt16.ofNat secureDataHeaderSize - 4).toNat ++
      [0, send.channel] ++ toBigEndian 2 0) (toBigEndian 2 send.srcNodeId.toNat) send.destNodeId
    simpa [generateSecureDataHeader, SecureDataHeader.bytes] using hword
  · have hword := word16_middle (toBigEndian 2 (size + UInt16.ofNat secureDataHeaderSize).toNat ++
      [0, 0] ++ toBigEndian 2 (size + UInt16.ofNat secureDataHeaderSize - 4).toNat ++
      [0, send.channel] ++ toBigEndian 2 0 ++ toBigEndian 2 send.destNodeId.toNat) []
      send.srcNodeId
    simpa [generateSecureDataHeader, SecureDataHeader.bytes] using hword
  · have hword := word16_middle [] (([0, 0] : List UInt8) ++
      toBigEndian 2 (size + UInt16.ofNat secureDataHeaderSize - 4).toNat ++
      [0, send.channel] ++ toBigEndian 2 0 ++ toBigEndian 2 send.destNodeId.toNat ++
      toBigEndian 2 send.srcNodeId.toNat) (size + UInt16.ofNat secureDataHeaderSize)
    have hprotocol : word16 (generateSecureDataHeader size send.channel send.destNodeId
        send.srcNodeId 0) 0 = size + UInt16.ofNat secureDataHeaderSize := by
      simpa [generateSecureDataHeader, SecureDataHeader.bytes] using hword
    unfold SecureDataHeader.getActualDataSize
    dsimp only
    rw [hprotocol, UInt16.toNat_add, hsize, UInt16.toNat_ofNat_of_lt' (by
      show send.payload.length < 2 ^ 16; omega)]
    show u32Sub ((send.payload.length + 14) % 65536) 14 = send.payload.length
    rw [Nat.mod_eq_of_lt (by omega), u32Sub_of_le (by omega) (by omega), Nat.add_sub_cancel]

theorem length_payloadFrame (send : SentData) :
    (payloadFrame send).length = 22 + send.payload.length := by
  simp [payloadFrame, generateDataPayload, generateLLCHeader, generateSecureDataHeader,
    SecureDataHeader.bytes]
  omega

theorem drop_payloadFrame (send : SentData) : (payloadFrame send).drop 22 = send.payload := by
  unfold payloadFrame generateDataPayload
  apply List.drop_left'
  simp [generateLLCHeader, generateSecureDataHeader, SecureDataHeader.bytes]

/-- A frame is read as the send that it was made for. -/
theorem frameSend_payloadFrame {send : SentData} (h : send.payload.length ≤ 0x5C6) :
    frameSend (payloadFrame send) = some send := by
  obtain ⟨header, hparse, -, hchannel, hdest, hsrc, -⟩ := parse_payloadFrame h
  unfold frameSend
  rw [hparse]
  dsimp only
  rw [hchannel, hdest, hsrc, drop_payloadFrame]

theorem getFrameEtherType_payloadFrame (send : SentData) :
    getFrameEtherType (payloadFrame send) = .ok EtherType.secureData.value := by
  have hheader := readRun_middle Fault.undefined [] (generateLLCHeader .secureData)
    (generateSecureDataHeader (UInt16.ofNat send.payload.length) send.channel send.destNodeId
      send.srcNodeId 0 ++ send.payload)
  rw [List.nil_append, ← List.append_assoc] at hheader
  unfold getFrameEtherType
  exact (congrArg (fun header => header >>= _) hheader).trans (by decide)

end Frames

section Nodes

variable {s t u : NwmUds} {channel : UInt8}

/-- What of a binding does not change: its id, its channel, and the sender it is bound to. -/
def bindingKey (bound : BindNodeData) : UInt32 × UInt8 × UInt16 :=
  (bound.bindNodeId, bound.channel, bound.networkNodeId)

/-- A node that differs only in its queues and in what it has sent. -/
def SameNode (s t : NwmUds) : Prop :=
  ∃ channelData sent, t = { s with channelData, sent } ∧
    channelData.map bindingKey = s.channelData.map bindingKey

theorem SameNode.refl (s : NwmUds) : SameNode s s := ⟨s.channelData, s.sent, rfl, rfl⟩

theorem SameNode.trans (h : SameNode s t) (h' : SameNode t u) : SameNode s u := by
  obtain ⟨channelData, sent, rfl, hkeys⟩ := h
  obtain ⟨channelData', sent', rfl, hkeys'⟩ := h'
  exact ⟨channelData', sent', rfl, hkeys'.trans hkeys⟩

theorem sameNode_sendPacket (s : NwmUds) (packet : WifiPacket) :
    SameNode s (s.sendPacket packet) := by
  rw [NwmUds.sendPacket_eq]
  exact ⟨s.channelData, _, rfl, rfl⟩

/-- The bindings are changed, but not what they are for. -/
theorem sameNode_mapBindings (s : NwmUds) {f : BindNodeData → BindNodeData}
    (hf : ∀ bound, bindingKey (f bound) = bindingKey bound) :
    SameNode s { s with channelData := s.channelData.map f } := by
  refine ⟨s.channelData.map f, s.sent, rfl, ?_⟩
  rw [List.map_map]
  exact List.map_congr_left fun bound _ => hf bound

theorem SameNode.channels (h : SameNode s t) :
    t.channelData.map BindNodeData.channel = s.channelData.map BindNodeData.channel := by
  obtain ⟨channelData, sent, rfl, hkeys⟩ := h
  have hchannels := congrArg (List.map fun key : UInt32 × UInt8 × UInt16 => key.2.1) hkeys
  rw [List.map_map, List.map_map] at hchannels
  exact hchannels

theorem isBoundTo_iff_key {srcNodeId : UInt16} :
    IsBoundTo s channel srcNodeId ↔ ∃ key ∈ s.channelData.map bindingKey, key.2.1 = channel ∧
      (key.2.2 = broadcastNetworkNodeId ∨ key.2.2 = srcNodeId) := by
  unfold IsBoundTo
  constructor
  · rintro ⟨bound, hbound, h⟩
    exact ⟨bindingKey bound, List.mem_map_of_mem hbound, h⟩
  · rintro ⟨key, hkey, h⟩
    obtain ⟨bound, hbound, rfl⟩ := List.mem_map.mp hkey
    exact ⟨bound, hbound, h⟩

theorem canPull_iff_key :
    CanPull s channel ↔ ∀ key ∈ s.channelData.map bindingKey, key.2.1 = channel →
      ((s.channelData.map bindingKey).find? fun other => other.1 = key.1).map (fun other =>
        other.2.1) = some channel := by
  have hfind : ∀ bound : BindNodeData,
      ((s.channelData.map bindingKey).find? fun other => other.1 = bound.bindNodeId).map
        (fun other => other.2.1) =
      (s.channelData.find? fun other => other.bindNodeId = bound.bindNodeId).map
        BindNodeData.channel := by
    intro bound
    rw [List.find?_map, Option.map_map]
    rfl
  unfold CanPull
  constructor
  · intro h key hkey hchannel
    obtain ⟨bound, hbound, rfl⟩ := List.mem_map.mp hkey
    exact (hfind bound).trans (h bound hbound hchannel)
  · intro h bound hbound hchannel
    exact (hfind bound).symm.trans (h (bindingKey bound) (List.mem_map_of_mem hbound) hchannel)

theorem SameNode.isBoundTo (h : SameNode s t) {srcNodeId : UInt16} :
    IsBoundTo t channel srcNodeId ↔ IsBoundTo s channel srcNodeId := by
  obtain ⟨channelData, sent, rfl, hkeys⟩ := h
  rw [isBoundTo_iff_key, isBoundTo_iff_key]
  dsimp only
  rw [hkeys]

theorem SameNode.canPull (h : SameNode s t) : CanPull t channel ↔ CanPull s channel := by
  obtain ⟨channelData, sent, rfl, hkeys⟩ := h
  rw [canPull_iff_key, canPull_iff_key]
  dsimp only
  rw [hkeys]

theorem SameNode.connectionStatus (h : SameNode s t) :
    t.connectionStatus = s.connectionStatus := by
  obtain ⟨channelData, sent, rfl, -⟩ := h
  rfl

theorem SameNode.initialized (h : SameNode s t) : t.initialized = s.initialized := by
  obtain ⟨channelData, sent, rfl, -⟩ := h
  rfl

theorem SameNode.roomMember (h : SameNode s t) : t.roomMember = s.roomMember := by
  obtain ⟨channelData, sent, rfl, -⟩ := h
  rfl

theorem SameNode.getNodeMacAddress (h : SameNode s t) (destNodeId : UInt16) (flags : UInt8) :
    t.getNodeMacAddress destNodeId flags = s.getNodeMacAddress destNodeId flags := by
  obtain ⟨channelData, sent, rfl, -⟩ := h
  rfl

theorem SameNode.meantFor (h : SameNode s t) : meantFor t channel = meantFor s channel := by
  funext send
  unfold Interface.meantFor
  rw [h.connectionStatus]
  simp only [h.isBoundTo]

/-- What is meant for a node is addressed to it or to all, and not from itself. -/
theorem meantFor_eq_some {send : SentData} {data : UInt16 × List UInt8}
    (h : Interface.meantFor s channel send = some data) :
    send.channel = channel ∧ send.srcNodeId ≠ s.connectionStatus.networkNodeId ∧
      (send.destNodeId = s.connectionStatus.networkNodeId ∨
        send.destNodeId = broadcastNetworkNodeId) ∧
      IsBoundTo s channel send.srcNodeId ∧ data = (send.srcNodeId, send.payload) := by
  unfold Interface.meantFor at h
  split at h
  · rename_i hcond
    cases h
    exact ⟨hcond.1, hcond.2.1, hcond.2.2.1, hcond.2.2.2, rfl⟩
  · cases h

end Nodes

section Queues

variable {s : NwmUds} {channel : UInt8}

/-- The queue of a channel that is bound once. -/
theorem queued_eq (hchannels : (s.channelData.map BindNodeData.channel).Nodup)
    {bound : BindNodeData} (hbound : bound ∈ s.channelData) :
    queued s bound.channel = bound.receivedPackets := by
  suffices ∀ bindings : List BindNodeData, (bindings.map BindNodeData.channel).Nodup →
      bound ∈ bindings → bindings.flatMap (fun other =>
        if other.channel = bound.channel then other.receivedPackets else []) =
        bound.receivedPackets from this s.channelData hchannels hbound
  intro bindings hchannels hbound
  induction bindings with
  | nil => cases hbound
  | cons first rest ih =>
      rw [List.map_cons, List.nodup_cons] at hchannels
      rw [List.flatMap_cons]
      rcases List.mem_cons.mp hbound with rfl | hrest
      · have hnone : rest.flatMap (fun other =>
            if other.channel = bound.channel then other.receivedPackets else []) = [] := by
          rw [List.flatMap_eq_nil_iff]
          intro other hother
          apply if_neg
          intro heq
          exact hchannels.1 (heq ▸ List.mem_map_of_mem hother)
        rw [if_pos rfl, hnone, List.append_nil]
      · have hdiffer : first.channel ≠ bound.channel := fun heq =>
          hchannels.1 (heq ▸ List.mem_map_of_mem hrest)
        rw [if_neg hdiffer, List.nil_append, ih hchannels.2 hrest]

theorem queued_of_unbound (h : ∀ bound ∈ s.channelData, bound.channel ≠ channel) :
    queued s channel = [] := by
  unfold queued
  rw [List.flatMap_eq_nil_iff]
  exact fun bound hbound => if_neg (h bound hbound)

/-- The bindings of distinct channels are told apart by them. -/
theorem binding_eq (hchannels : (s.channelData.map BindNodeData.channel).Nodup)
    {bound other : BindNodeData} (hbound : bound ∈ s.channelData) (hother : other ∈ s.channelData)
    (h : bound.channel = other.channel) : bound = other :=
  List.inj_on_of_nodup_map hchannels hbound hother h

/-- What a change of the bindings does to the queue of a channel. -/
theorem queued_mapBindings (hchannels : (s.channelData.map BindNodeData.channel).Nodup)
    {f : BindNodeData → BindNodeData} (hf : ∀ bound, bindingKey (f bound) = bindingKey bound)
    {bound : BindNodeData} (hbound : bound ∈ s.channelData) :
    queued { s with channelData := s.channelData.map f } bound.channel =
      (f bound).receivedPackets := by
  have hsame := sameNode_mapBindings s hf
  have hkey : (f bound).channel = bound.channel := by
    have h := hf bound
    unfold bindingKey at h
    exact (Prod.mk.inj (Prod.mk.inj h).2).1
  rw [← hkey]
  apply queued_eq
  · rw [hsame.channels]
    exact hchannels
  · exact List.mem_map_of_mem hbound

/-- A packet that is received is queued on its channel, if the node is bound to it for the sender,
and nowhere else. -/
theorem queued_receiveData (hchannels : (s.channelData.map BindNodeData.channel).Nodup)
    (header : SecureDataHeader) (data : List UInt8) :
    queued (s.receiveData header data) channel = queued s channel ++
      if header.dataChannel = channel ∧ IsBoundTo s channel header.srcNodeId then [data]
      else [] := by
  by_cases hbound : ∃ bound ∈ s.channelData, bound.channel = channel
  · obtain ⟨bound, hmem, rfl⟩ := hbound
    have hf : ∀ bound : BindNodeData, bindingKey
        (if bound.channel = header.dataChannel ∧
            (bound.networkNodeId = broadcastNetworkNodeId ∨
              bound.networkNodeId = header.srcNodeId) then
          { bound with receivedPackets := bound.receivedPackets ++ [data] }
        else bound) = bindingKey bound := by
      intro bound
      split <;> rfl
    have hbinding : IsBoundTo s bound.channel header.srcNodeId ↔
        bound.networkNodeId = broadcastNetworkNodeId ∨
          bound.networkNodeId = header.srcNodeId := by
      constructor
      · rintro ⟨other, hother, hchannel, h⟩
        rwa [binding_eq hchannels hother hmem hchannel] at h
      · intro h
        exact ⟨bound, hmem, rfl, h⟩
    have hqueue : queued (s.receiveData header data) bound.channel = _ :=
      queued_mapBindings hchannels hf hmem
    rw [hqueue, queued_eq hchannels hmem]
    by_cases hcond : bound.channel = header.dataChannel ∧
        (bound.networkNodeId = broadcastNetworkNodeId ∨ bound.networkNodeId = header.srcNodeId)
    · rw [if_pos hcond, if_pos ⟨hcond.1.symm, hbinding.mpr hcond.2⟩]
    · rw [if_neg hcond, if_neg fun h => hcond ⟨h.1.symm, hbinding.mp h.2⟩, List.append_nil]
  · have hunbound : ∀ bound ∈ s.channelData, bound.channel ≠ channel :=
      fun bound hmem heq => hbound ⟨bound, hmem, heq⟩
    have hnot : ¬ IsBoundTo s channel header.srcNodeId := by
      rintro ⟨bound, hmem, heq, -⟩
      exact hunbound bound hmem heq
    rw [queued_of_unbound hunbound, if_neg fun h => hnot h.2, List.append_nil]
    apply queued_of_unbound
    intro bound hmem
    obtain ⟨other, hother, rfl⟩ := List.mem_map.mp hmem
    split
    · exact hunbound other hother
    · exact hunbound other hother

end Queues

section Handling

variable {s : NwmUds}

theorem sameNode_receiveData (s : NwmUds) (header : SecureDataHeader) (data : List UInt8) :
    SameNode s (s.receiveData header data) := by
  apply sameNode_mapBindings
  intro bound
  split <;> rfl

/-- What a node does with a frame: it ignores its own, passes on what is for others if it is the
host, and queues the rest. -/
theorem onWifiPacketReceived_payloadFrame (hinit : s.initialized = true)
    (hstatus : s.connectionStatus.status = .connectedAsHost ∨
      s.connectionStatus.status = .connectedAsClient)
    {packet : WifiPacket} {send : SentData} (htype : packet.type = .data)
    (hdata : packet.data = payloadFrame send) (hfits : send.payload.length ≤ 0x5C6) :
    ∃ header, header.dataChannel = send.channel ∧ header.srcNodeId = send.srcNodeId ∧
      s.onWifiPacketReceived packet = .ok (
        if send.srcNodeId = s.connectionStatus.networkNodeId then s
        else if send.destNodeId ≠ s.connectionStatus.networkNodeId ∧
            send.destNodeId ≠ broadcastNetworkNodeId then
          if s.connectionStatus.status = .connectedAsHost then
            s.sendPacket { packet with destinationAddress := broadcastMac }
          else s
        else s.receiveData header packet.data) := by
  obtain ⟨header, hparse, hmanagement, hchannel, hdest, hsrc, -⟩ := parse_payloadFrame hfits
  refine ⟨header, hchannel, hsrc, ?_⟩
  have hactive : ¬ (s.connectionStatus.status ≠ .connectedAsHost ∧
      s.connectionStatus.status ≠ .connectedAsClient) := by
    rintro ⟨hhost, hclient⟩
    rcases hstatus with h | h
    · exact hhost h
    · exact hclient h
  have hassert : assert (header.isManagement = 0) .managementFrame = .ok () :=
    assert_eq_ok.mpr hmanagement
  obtain ⟨type, data, transmitter, destination, wifiChannel⟩ := packet
  obtain rfl : type = .data := htype
  obtain rfl : data = payloadFrame send := hdata
  unfold NwmUds.onWifiPacketReceived
  rw [hinit]
  unfold NwmUds.handleDataFrame NwmUds.handleSecureDataPacket
  dsimp only
  rw [if_neg (by decide), getFrameEtherType_payloadFrame, ok_bind, if_neg (by decide),
    if_pos rfl, hparse, ok_bind, if_neg hactive, hsrc, hdest, hassert, ok_bind]
  split
  · rfl
  · split
    · split <;> rfl
    · rfl

/-- A send that succeeds puts one packet into the room. -/
theorem sendTo_success {destNodeId : UInt16} {channel : UInt8} {dataSize : UInt32} {flags : UInt8}
    {inputBuffer : List UInt8} {result : UdsResult} {t : NwmUds}
    (h : s.sendTo destNodeId channel dataSize flags inputBuffer = .ok (result, t))
    (hresult : result = .success) :
    ∃ packet address, s.getNodeMacAddress destNodeId flags = some address ∧
      t = s.sendPacket packet ∧ packet.type = .data ∧ packet.destinationAddress = address ∧
      packet.data = payloadFrame ⟨s.connectionStatus.networkNodeId, destNodeId, channel,
        inputBuffer.take dataSize.toNat⟩ ∧
      (inputBuffer.take dataSize.toNat).length ≤ 0x5C6 ∧
      destNodeId ≠ s.connectionStatus.networkNodeId := by
  subst hresult
  unfold NwmUds.sendTo at h
  obtain ⟨-, -, hrest⟩ := bind_eq_ok.mp h
  dsimp only at hrest
  split at hrest
  · cases hrest
  split at hrest
  · cases hrest
  split at hrest
  · cases hrest
  rename_i hown
  split at hrest
  · cases hrest
  rename_i address haddress
  split at hrest
  · cases hrest
  rename_i hsize
  cases hrest
  refine ⟨_, address, haddress, rfl, rfl, rfl, rfl, ?_, hown⟩
  have hle : dataSize.toNat ≤ 0x5C6 := by
    by_contra hlt
    exact hsize (UInt32.lt_iff_toNat_lt.mpr (Nat.not_le.mp hlt))
  rw [List.length_take]
  omega

end Handling

section Pulls

variable {s : NwmUds} {bindNodeId aligned size : UInt32} {bound : BindNodeData} {send : SentData}
  {rest : List (List UInt8)}

theorem take_overwrite_zero {α : Type} {xs ys : List α} : (overwrite xs 0 ys).take ys.length = ys := by
  unfold overwrite
  rw [List.take_zero, List.nil_append, List.take_left]

/-- The packet at the front of a queue is pulled as it was sent, if there is room for it. -/
theorem pullPacket_eq (hstatus : s.connectionStatus.status = .connectedAsHost ∨
      s.connectionStatus.status = .connectedAsClient)
    (hfind : (s.channelData.find? fun bound => bound.bindNodeId = bindNodeId) = some bound)
    (hqueue : bound.receivedPackets = payloadFrame send :: rest)
    (hfits : send.payload.length ≤ 0x5C6) :
    s.pullPacket bindNodeId aligned size =
      if send.payload.length > size.toNat then .ok ((.tooLarge, none), s)
      else if send.payload.length ≤ min aligned.toNat 0x172 * 4 then
        .ok ((.success, some ⟨send.payload.length, send.srcNodeId,
            overwrite (List.replicate (min aligned.toNat 0x172 * 4) 0) 0 send.payload⟩),
          { s with
            channelData := s.channelData.map fun other =>
              if other.channel = bound.channel then { other with receivedPackets := rest }
              else other })
      else .error .undefined := by
  obtain ⟨header, hparse, -, -, -, hsrc, hsize⟩ := parse_payloadFrame hfits
  have hactive : ¬ (s.connectionStatus.status ≠ .connectedAsHost ∧
      s.connectionStatus.status ≠ .connectedAsClient ∧
      s.connectionStatus.status ≠ .connectedAsSpectator) := by
    rintro ⟨hhost, hclient, -⟩
    rcases hstatus with h | h
    · exact hhost h
    · exact hclient h
  have hdata : readRun Fault.undefined (payloadFrame send) (llcHeaderSize + secureDataHeaderSize)
      send.payload.length = .ok send.payload := by
    apply readRun_eq_ok.mpr
    refine ⟨Nat.le_of_eq (length_payloadFrame send).symm, ?_⟩
    show ((payloadFrame send).drop 22).take _ = _
    rw [drop_payloadFrame, List.take_length]
  unfold NwmUds.pullPacket
  dsimp only
  rw [if_neg hactive, hfind]
  dsimp only
  rw [hqueue]
  dsimp only
  rw [hparse, ok_bind, hsize, hsrc]
  by_cases hlarge : send.payload.length > size.toNat
  · rw [if_pos hlarge, if_pos hlarge]
    rfl
  · rw [if_neg hlarge, if_neg hlarge, hdata, ok_bind]
    unfold writeRun
    by_cases hroom : send.payload.length ≤ min aligned.toNat 0x172 * 4
    · rw [if_pos (by rwa [Nat.zero_add, List.length_replicate]), if_pos hroom]
      rfl
    · rw [if_neg (by rwa [Nat.zero_add, List.length_replicate]), if_neg hroom]
      rfl

/-- Nothing is pulled, or the front of the queue of a binding is. -/
theorem pullPacket_cases (hstatus : s.connectionStatus.status = .connectedAsHost ∨
      s.connectionStatus.status = .connectedAsClient)
    (hqueues : ∀ bound ∈ s.channelData, ∀ next ∈ bound.receivedPackets,
      ∃ send : SentData, next = payloadFrame send ∧ send.payload.length ≤ 0x5C6)
    {result : UdsResult × Option NwmUds.PulledPacket} {t : NwmUds}
    (h : s.pullPacket bindNodeId aligned size = .ok (result, t)) :
    (t = s ∧ (pulledChannel s bindNodeId = none ∨ result.2 = none)) ∨
    ∃ bound ∈ s.channelData, ∃ (send : SentData) (rest : List (List UInt8))
      (packet : NwmUds.PulledPacket),
      pulledChannel s bindNodeId = some bound.channel ∧ send.payload.length ≤ 0x5C6 ∧
      bound.receivedPackets = payloadFrame send :: rest ∧ result.2 = some packet ∧
      (packet.srcNodeId, packet.outputBuffer.take packet.dataSize) =
        (send.srcNodeId, send.payload) ∧
      t = { s with
        channelData := s.channelData.map fun other =>
          if other.channel = bound.channel then { other with receivedPackets := rest }
          else other } := by
  have hactive : ¬ (s.connectionStatus.status ≠ .connectedAsHost ∧
      s.connectionStatus.status ≠ .connectedAsClient ∧
      s.connectionStatus.status ≠ .connectedAsSpectator) := by
    rintro ⟨hhost, hclient, -⟩
    rcases hstatus with h | h
    · exact hhost h
    · exact hclient h
  cases hfind : s.channelData.find? fun bound => bound.bindNodeId = bindNodeId with
  | none =>
      left
      unfold NwmUds.pullPacket at h
      dsimp only at h
      rw [if_neg hactive, hfind] at h
      cases h
      exact ⟨rfl, Or.inr rfl⟩
  | some bound =>
      have hmem := List.mem_of_find?_eq_some hfind
      cases hqueue : bound.receivedPackets with
      | nil =>
          left
          unfold NwmUds.pullPacket at h
          dsimp only at h
          rw [if_neg hactive, hfind] at h
          dsimp only at h
          rw [hqueue] at h
          cases h
          refine ⟨rfl, Or.inl ?_⟩
          unfold pulledChannel
          rw [hfind]
          exact if_pos hqueue
      | cons next rest =>
          have hfront : next ∈ bound.receivedPackets := by
            rw [hqueue]
            exact List.mem_cons_self
          obtain ⟨send, rfl, hfits⟩ := hqueues bound hmem next hfront
          rw [pullPacket_eq hstatus hfind hqueue hfits] at h
          split at h
          · cases h
            exact Or.inl ⟨rfl, Or.inr rfl⟩
          split at h
          · cases h
            refine Or.inr ⟨bound, hmem, send, rest, _, ?_, hfits, hqueue, rfl, ?_, rfl⟩
            · unfold pulledChannel
              rw [hfind]
              exact if_neg (by rw [hqueue]; exact List.cons_ne_nil _ _)
            · exact Prod.ext rfl take_overwrite_zero
          · cases h

end Pulls

end Borked3DS.Analysis
