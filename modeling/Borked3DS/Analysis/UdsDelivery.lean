import Mathlib.Data.List.Perm.Basic
import Borked3DS.Analysis.UdsQueues

/-!
# Data is delivered exactly once

Where the packets of a node go in the room, the account of what is sent, on its way and has arrived,
what each step does to it, and from it that runs whose sends meet the condition deliver everything
exactly once.
-/

set_option autoImplicit false

namespace Borked3DS.Analysis

open Borked3DS.Library Borked3DS.Model Borked3DS.Model.Network Borked3DS.Model.NWM
open Borked3DS.Interface

section Rooms

variable {base nodes : List NwmUds}

/-- The nodes of a network, some time later. -/
structure SameNodes (base nodes : List NwmUds) : Prop where
  length : nodes.length = base.length
  same : ∀ (i : ℕ) (b s : NwmUds), base[i]? = some b → nodes[i]? = some s → SameNode b s

theorem SameNodes.set (h : SameNodes base nodes) {i : ℕ} {b t : NwmUds} (hb : base[i]? = some b)
    (ht : SameNode b t) : SameNodes base (nodes.set i t) where
  length := by rw [List.length_set, h.length]
  same := by
    intro j b' s hb' hs
    rw [List.getElem?_set] at hs
    split at hs
    · rename_i heq
      subst heq
      split at hs
      · cases hs
        rw [hb] at hb'
        cases hb'
        exact ht
      · cases hs
    · exact h.same j b' s hb' hs

theorem SameNodes.exists_base (h : SameNodes base nodes) {i : ℕ} {s : NwmUds}
    (hs : nodes[i]? = some s) : ∃ b, base[i]? = some b ∧ SameNode b s := by
  obtain ⟨hlt, -⟩ := List.getElem?_eq_some_iff.mp hs
  rw [h.length] at hlt
  exact ⟨base[i], List.getElem?_eq_getElem hlt, h.same i _ s (List.getElem?_eq_getElem hlt) hs⟩

theorem SameNodes.exists_node (h : SameNodes base nodes) {i : ℕ} {b : NwmUds}
    (hb : base[i]? = some b) : ∃ s, nodes[i]? = some s ∧ SameNode b s := by
  obtain ⟨hlt, -⟩ := List.getElem?_eq_some_iff.mp hb
  rw [← h.length] at hlt
  exact ⟨nodes[i], List.getElem?_eq_getElem hlt, h.same i b _ hb (List.getElem?_eq_getElem hlt)⟩

theorem SameNodes.recipients (h : SameNodes base nodes) (sender : ℕ) (packet : WifiPacket) :
    recipients nodes sender packet = recipients base sender packet := by
  unfold Interface.recipients
  rw [h.length]
  apply List.filter_congr
  intro i hi
  rw [List.mem_range] at hi
  obtain ⟨s, hs, hsame⟩ := h.exists_node (List.getElem?_eq_getElem hi)
  simp only [hs, List.getElem?_eq_getElem hi, Option.bind_some, hsame.roomMember]

theorem nodup_recipients (sender : ℕ) (packet : WifiPacket) :
    (recipients base sender packet).Nodup := List.nodup_range.filter _

theorem mem_recipients {sender i : ℕ} {packet : WifiPacket} :
    i ∈ recipients base sender packet ↔ i < base.length ∧
      if packet.destinationAddress = broadcastMac then i ≠ sender
      else (base[i]?.bind NwmUds.roomMember) = some packet.destinationAddress := by
  unfold recipients
  rw [List.mem_filter, List.mem_range]
  apply and_congr_right
  intro _
  split
  · exact decide_eq_true_iff
  · exact decide_eq_true_iff

/-- Of one packet for some nodes, one of them gets it once. -/
theorem filterMap_at {β : Type} {x : Option β} {i : ℕ} {places : List ℕ} (h : places.Nodup) :
    (places.filterMap fun j => if j = i then x else none) =
      if i ∈ places then x.toList else [] := by
  induction places with
  | nil => rfl
  | cons j places ih =>
      obtain ⟨hnot, hnodup⟩ := List.nodup_cons.mp h
      rw [List.filterMap_cons, ih hnodup]
      by_cases heq : j = i
      · subst heq
        rw [if_pos rfl, if_neg hnot, if_pos List.mem_cons_self]
        cases x with
        | none => rfl
        | some y => rfl
      · rw [if_neg heq]
        simp [Ne.symm heq]

end Rooms

section Receiving

variable {s : NwmUds}

theorem newlySent_sendPacket {address : MacAddress} (h : s.roomMember = some address)
    (packet : WifiPacket) :
    (s.sendPacket packet).sent.drop s.sent.length =
      [{ packet with transmitterAddress := address }] := by
  rw [NwmUds.sendPacket_eq]
  unfold NwmUds.outgoing
  rw [h]
  exact List.drop_left

/-- A node that receives a frame queues what is meant for it, and only a host hands the frame to the
room again: one that is neither for it nor for all. -/
theorem receive_frame (hinit : s.initialized = true)
    (hstatus : s.connectionStatus.status = .connectedAsHost ∨
      s.connectionStatus.status = .connectedAsClient)
    {address : MacAddress} (hroom : s.roomMember = some address)
    (hchannels : (s.channelData.map BindNodeData.channel).Nodup)
    {packet : WifiPacket} {send : SentData} (htype : packet.type = .data)
    (hdata : packet.data = payloadFrame send) (hfits : send.payload.length ≤ 0x5C6) {t : NwmUds}
    (h : s.onWifiPacketReceived packet = .ok t) :
    SameNode s t ∧
      (∀ channel, queued t channel = queued s channel ++
        ((meantFor s channel send).map fun _ => payloadFrame send).toList) ∧
      (t.sent.drop s.sent.length = [] ∨
        s.connectionStatus.status = .connectedAsHost ∧
          send.destNodeId ≠ s.connectionStatus.networkNodeId ∧
          send.destNodeId ≠ broadcastNetworkNodeId ∧
          ∃ packet', t.sent.drop s.sent.length = [packet'] ∧ packet'.type = .data ∧
            packet'.data = payloadFrame send ∧ packet'.destinationAddress = broadcastMac) := by
  obtain ⟨header, hchannel, hsrc, heq⟩ :=
    onWifiPacketReceived_payloadFrame hinit hstatus htype hdata hfits
  rw [heq] at h
  have hsilent : ∀ channel, meantFor s channel send = none →
      queued s channel = queued s channel ++
        ((meantFor s channel send).map fun _ => payloadFrame send).toList := by
    intro channel hnone
    rw [hnone, Option.map_none, Option.toList_none, List.append_nil]
  by_cases hown : send.srcNodeId = s.connectionStatus.networkNodeId
  · rw [if_pos hown] at h
    cases h
    refine ⟨SameNode.refl s, fun channel => hsilent channel ?_, Or.inl (List.drop_length)⟩
    exact if_neg fun hcond => hcond.2.1 hown
  rw [if_neg hown] at h
  by_cases hothers : send.destNodeId ≠ s.connectionStatus.networkNodeId ∧
      send.destNodeId ≠ broadcastNetworkNodeId
  · have hnone : ∀ channel, meantFor s channel send = none := by
      intro channel
      apply if_neg
      rintro ⟨-, -, hdest | hdest, -⟩
      · exact hothers.1 hdest
      · exact hothers.2 hdest
    rw [if_pos hothers] at h
    by_cases hhost : s.connectionStatus.status = .connectedAsHost
    · rw [if_pos hhost] at h
      cases h
      refine ⟨sameNode_sendPacket s _, fun channel => ?_,
        Or.inr ⟨hhost, hothers.1, hothers.2, _, newlySent_sendPacket hroom _, htype, hdata, rfl⟩⟩
      rw [← hsilent channel (hnone channel), NwmUds.sendPacket_eq]
      rfl
    · rw [if_neg hhost] at h
      cases h
      exact ⟨SameNode.refl s, fun channel => hsilent channel (hnone channel),
        Or.inl List.drop_length⟩
  · rw [if_neg hothers] at h
    cases h
    refine ⟨sameNode_receiveData s header packet.data, fun channel => ?_, Or.inl List.drop_length⟩
    rw [queued_receiveData hchannels, hchannel, hsrc, hdata]
    congr 1
    have hdest : send.destNodeId = s.connectionStatus.networkNodeId ∨
        send.destNodeId = broadcastNetworkNodeId := by
      by_contra hnot
      exact hothers ⟨fun heq => hnot (Or.inl heq), fun heq => hnot (Or.inr heq)⟩
    unfold meantFor
    by_cases hcond : send.channel = channel ∧ IsBoundTo s channel send.srcNodeId
    · rw [if_pos hcond, if_pos ⟨hcond.1, hown, hdest, hcond.2⟩]
      rfl
    · rw [if_neg hcond, if_neg fun hall => hcond ⟨hall.1, hall.2.2.2⟩]
      rfl

end Receiving

section Invariant

variable {base : List NwmUds} {net net' : LocalNetwork}

/-- What a delivery brings to a channel of a node. -/
def arrivesAs (i : ℕ) (s : NwmUds) (channel : UInt8) (delivery : ℕ × WifiPacket) :
    Option (UInt16 × List UInt8) :=
  if delivery.1 = i then (frameSend delivery.2.data).bind (meantFor s channel) else none

/-- What is on its way to a channel of a node. -/
def pending (net : LocalNetwork) (i : ℕ) (s : NwmUds) (channel : UInt8) :
    List (UInt16 × List UInt8) :=
  net.inFlight.filterMap (arrivesAs i s channel)

/-- A packet on its way is the frame of a send. If the host gets it for others, it is for nobody who
takes it; and whoever takes it can pull it. -/
structure Travels (base : List NwmUds) (entry : ℕ × WifiPacket) (send : SentData) : Prop where
  type : entry.2.type = .data
  data : entry.2.data = payloadFrame send
  fits : send.payload.length ≤ 0x5C6
  passedOn : entry.1 = 0 → send.destNodeId ≠ hostDestNodeId →
    send.destNodeId ≠ broadcastNetworkNodeId → ∀ b ∈ base, ∀ channel, meantFor b channel send = none
  pullable : ∀ b, base[entry.1]? = some b → ∀ channel, meantFor b channel send ≠ none →
    CanPull b channel

/-- The queue of a channel holds frames: what has arrived and has not been pulled yet. -/
structure QueueHolds (net : LocalNetwork) (i : ℕ) (b s : NwmUds) (channel : UInt8)
    (waiting : List SentData) : Prop where
  frames : queued s channel = waiting.map payloadFrame
  fits : ∀ send ∈ waiting, send.payload.length ≤ 0x5C6
  arrived : pulledFrom net i channel ++
    waiting.map (fun send => (send.srcNodeId, send.payload)) = arrivals net i b channel
  pullable : waiting ≠ [] → CanPull b channel

/-- What the steps of a network preserve. -/
structure DeliveryInvariant (base : List NwmUds) (net : LocalNetwork) : Prop where
  nodes : SameNodes base net.nodes
  flights : ∀ entry ∈ net.inFlight, ∃ send, Travels base entry send
  balance : ∀ (i : ℕ) (b : NwmUds), base[i]? = some b → ∀ channel,
    (arrivals net i b channel ++ pending net i b channel).Perm (expected net b channel)
  queues : ∀ (i : ℕ) (b s : NwmUds), base[i]? = some b → net.nodes[i]? = some s →
    ∀ channel, ∃ waiting, QueueHolds net i b s channel waiting

theorem SameNode.arrivals {i : ℕ} {b s : NwmUds} (h : SameNode b s) (channel : UInt8) :
    arrivals net i s channel = arrivals net i b channel := by
  unfold Interface.arrivals
  rw [h.meantFor]

theorem SameNode.expected {b s : NwmUds} (h : SameNode b s) (channel : UInt8) :
    expected net s channel = expected net b channel := by
  unfold Interface.expected
  rw [h.meantFor]

theorem status_of_isNetwork (hnet : IsNetwork base) {i : ℕ} {b : NwmUds} (hb : base[i]? = some b) :
    b.connectionStatus.status = .connectedAsHost ∨
      b.connectionStatus.status = .connectedAsClient := by
  cases i with
  | zero => exact Or.inl (hnet.host b hb).1
  | succ i => exact Or.inr (hnet.clients i b hb)

/-- Nodes with one id are one node. -/
theorem index_eq_of_id (hnet : IsNetwork base) {i j : ℕ} {b c : NwmUds}
    (hb : base[i]? = some b) (hc : base[j]? = some c)
    (h : b.connectionStatus.networkNodeId = c.connectionStatus.networkNodeId) : i = j := by
  obtain ⟨hi, -⟩ := List.getElem?_eq_some_iff.mp hb
  apply (List.getElem?_inj (by rwa [List.length_map]) hnet.ids).mp
  rw [List.getElem?_map, List.getElem?_map, hb, hc]
  exact congrArg some h

/-- Nodes with one address are one node. -/
theorem index_eq_of_address (hnet : IsNetwork base) {i j : ℕ} {b c : NwmUds}
    (hb : base[i]? = some b) (hc : base[j]? = some c) (h : b.roomMember = c.roomMember) :
    i = j := by
  obtain ⟨hi, -⟩ := List.getElem?_eq_some_iff.mp hb
  apply (List.getElem?_inj (by rwa [List.length_map]) hnet.addresses).mp
  rw [List.getElem?_map, List.getElem?_map, hb, hc]
  exact congrArg some h

/-- A network before anything is sent. -/
theorem deliveryInvariant_start (hnet : IsNetwork base) : DeliveryInvariant base { nodes := base } where
  nodes := ⟨rfl, fun i b s hb hs => by rw [hb] at hs; cases hs; exact SameNode.refl b⟩
  flights := fun entry h => by cases h
  balance := fun i b hb channel => List.Perm.refl _
  queues := by
    intro i b s hb hs channel
    refine ⟨[], ?_, (fun send h => by cases h), rfl, fun h => absurd rfl h⟩
    unfold queued
    rw [List.map_nil, List.flatMap_eq_nil_iff]
    intro bound hbound
    rw [hnet.queues s (List.mem_of_getElem? hs) bound hbound]
    exact ite_self _

end Invariant

section Steps

variable {base : List NwmUds} {net : LocalNetwork}

/-- The packets that a node has sent bring one channel of a node what they carry for it. -/
theorem pending_sent (places : List ℕ) (hplaces : places.Nodup) (packet : WifiPacket)
    {send : SentData} (hframe : frameSend packet.data = some send) (i : ℕ) (b : NwmUds)
    (channel : UInt8) :
    (places.map fun r => (r, packet)).filterMap (arrivesAs i b channel) =
      if i ∈ places then (meantFor b channel send).toList else [] := by
  rw [List.filterMap_map]
  have hfun : arrivesAs i b channel ∘ (fun r => (r, packet)) =
      fun r => if r = i then meantFor b channel send else none := by
    funext r
    unfold arrivesAs
    rw [Function.comp_apply]
    dsimp only
    rw [hframe, Option.bind_some]
  rw [hfun, filterMap_at hplaces]

/-- The address of a node that is known is asked for without a broadcast. -/
theorem getNodeMacAddress_of_flag {s : NwmUds} {destNodeId : UInt16} {flags : UInt8}
    (hflags : flags &&& 0x2 = 0) : s.getNodeMacAddress destNodeId flags =
      s.getNodeMacAddress destNodeId 0 := by
  unfold NwmUds.getNodeMacAddress
  rw [hflags]
  rfl

section Sending

variable {i : ℕ} {b : NwmUds} {destNodeId : UInt16} {channel : UInt8} {flags : UInt8}
  {address : MacAddress} {packet : WifiPacket} {payload : List UInt8}

/-- A node that data is meant for is one of those that its packet goes to. -/
theorem mem_recipients_of_meantFor (hnet : IsNetwork base) (hb : base[i]? = some b)
    (haddress : b.getNodeMacAddress destNodeId flags = some address)
    (hpacket : packet.destinationAddress = address) {j : ℕ} {c : NwmUds} (hc : base[j]? = some c)
    {data : UInt16 × List UInt8}
    (h : meantFor c channel ⟨b.connectionStatus.networkNodeId, destNodeId, channel, payload⟩ =
      some data) : j ∈ recipients base i packet := by
  obtain ⟨-, hother, hdest, -, -⟩ := meantFor_eq_some h
  obtain ⟨hj, -⟩ := List.getElem?_eq_some_iff.mp hc
  have hne : j ≠ i := by
    intro heq
    subst heq
    rw [hb] at hc
    cases hc
    exact hother rfl
  rw [mem_recipients]
  refine ⟨hj, ?_⟩
  rw [hpacket]
  split
  · exact hne
  · rename_i hunicast
    rw [hc, Option.bind_some]
    by_cases hbroadcast : flags &&& 0x2 ≠ 0 ∨ destNodeId = broadcastNetworkNodeId
    · unfold NwmUds.getNodeMacAddress at haddress
      rw [if_pos hbroadcast] at haddress
      exact absurd (Option.some.inj haddress).symm hunicast
    · have hflags : flags &&& 0x2 = 0 := by
        by_contra hset
        exact hbroadcast (Or.inl hset)
      have hid : destNodeId = c.connectionStatus.networkNodeId := by
        rcases hdest with h | h
        · exact h
        · exact absurd (Or.inr h) hbroadcast
      have hknown := hnet.known b (List.mem_of_getElem? hb) c (List.mem_of_getElem? hc) (by
        intro heq
        subst heq
        exact hne (index_eq_of_id hnet hc hb rfl))
      rw [getNodeMacAddress_of_flag hflags, hid, hknown] at haddress
      exact haddress

/-- A packet of a step that meets the condition travels well. -/
theorem travels_of_condition (packet : WifiPacket) (hnet : IsNetwork base)
    (hb : base[i]? = some b)
    (haddress : b.getNodeMacAddress destNodeId flags = some address)
    (hpacket : packet.destinationAddress = address) (htype : packet.type = .data)
    (hdata : packet.data =
      payloadFrame ⟨b.connectionStatus.networkNodeId, destNodeId, channel, payload⟩)
    (hfits : payload.length ≤ 0x5C6)
    (hcondition : ∀ j c, base[j]? = some c → j ≠ i →
      IsBoundTo c channel b.connectionStatus.networkNodeId →
        ((flags &&& 0x2 ≠ 0 ∧ i ≠ 0 ∧ j ≠ 0) →
          destNodeId ≠ c.connectionStatus.networkNodeId) ∧
        (destNodeId = c.connectionStatus.networkNodeId ∨ destNodeId = broadcastNetworkNodeId →
          CanPull c channel))
    {r : ℕ} (hr : r ∈ recipients base i packet) :
    Travels base (r, packet)
      ⟨b.connectionStatus.networkNodeId, destNodeId, channel, payload⟩ where
  type := htype
  data := hdata
  fits := hfits
  passedOn := by
    intro hzero hhost hall c hc channel'
    have hzero' : r = 0 := hzero
    subst hzero'
    cases hmeant : meantFor c channel'
      ⟨b.connectionStatus.networkNodeId, destNodeId, channel, payload⟩ with
    | none => rfl
    | some data =>
        exfalso
        obtain ⟨hchannel, hother, hdest, hbound, -⟩ := meantFor_eq_some hmeant
        subst hchannel
        obtain ⟨j, hj⟩ := List.getElem?_of_mem hc
        have hid : destNodeId = c.connectionStatus.networkNodeId := by
          rcases hdest with h | h
          · exact h
          · exact absurd h hall
        have hne : j ≠ i := by
          intro heq
          subst heq
          rw [hb] at hj
          cases hj
          exact hother rfl
        have hnotHost : j ≠ 0 := by
          intro heq
          subst heq
          exact hhost (hid.trans (hnet.host c hj).2)
        obtain ⟨hlt, hto⟩ := mem_recipients.mp hr
        by_cases hflags : flags &&& 0x2 = 0
        · have hknown := hnet.known b (List.mem_of_getElem? hb) c hc (by
            intro heq
            subst heq
            exact hne (index_eq_of_id hnet hj hb rfl))
          obtain ⟨mac, hmac, hunicast⟩ := hnet.inRoom c hc
          rw [getNodeMacAddress_of_flag hflags, hid, hknown, hmac] at haddress
          cases haddress
          rw [hpacket, if_neg hunicast, List.getElem?_eq_getElem hlt, Option.bind_some] at hto
          exact hnotHost (index_eq_of_address hnet hj (List.getElem?_eq_getElem hlt)
            (hmac.trans hto.symm))
        · have hsender : i ≠ 0 := by
            intro heq
            subst heq
            have hbroadcast : packet.destinationAddress = broadcastMac := by
              unfold NwmUds.getNodeMacAddress at haddress
              rw [if_pos (Or.inl hflags)] at haddress
              rw [hpacket]
              exact (Option.some.inj haddress).symm
            rw [if_pos hbroadcast] at hto
            exact hto rfl
          exact (hcondition j c hj hne hbound).1 ⟨hflags, hsender, hnotHost⟩ hid
  pullable := by
    intro c hc channel' hmeant
    have hsome : ∃ data, meantFor c channel'
        ⟨b.connectionStatus.networkNodeId, destNodeId, channel, payload⟩ = some data :=
      Option.ne_none_iff_exists'.mp hmeant
    obtain ⟨data, hsome⟩ := hsome
    obtain ⟨hchannel, hother, hdest, hbound, -⟩ := meantFor_eq_some hsome
    subst hchannel
    have hne : r ≠ i := by
      intro heq
      subst heq
      have hc' : base[r]? = some c := hc
      rw [hb] at hc'
      cases hc'
      exact hother rfl
    exact (hcondition r c hc hne hbound).2 hdest

end Sending

/-- A send keeps the account: what it is meant for is on its way. -/
theorem DeliveryInvariant.sendTo (hnet : IsNetwork base) (h : DeliveryInvariant base net)
    {i : ℕ} {destNodeId : UInt16} {channel : UInt8} {dataSize : UInt32} {flags : UInt8}
    {inputBuffer : List UInt8}
    (hc : KeepsDelivery net (.sendTo i destNodeId channel dataSize flags inputBuffer))
    {net' : LocalNetwork}
    (hstep : networkStep net (.sendTo i destNodeId channel dataSize flags inputBuffer) =
      .ok net') : DeliveryInvariant base net' := by
  unfold networkStep at hstep
  dsimp only at hstep
  split at hstep
  · cases hstep
    exact h
  rename_i s hs
  obtain ⟨⟨result, t⟩, hsend, hrest⟩ := bind_eq_ok.mp hstep
  dsimp only at hrest
  by_cases hresult : result = .success
  case neg =>
    rw [if_neg hresult] at hrest
    cases hrest
    exact h
  rw [if_pos hresult] at hrest
  cases hrest
  obtain ⟨packet, address, haddress, rfl, htype, hpacket, hdata, hfits, hown⟩ :=
    sendTo_success hsend hresult
  obtain ⟨b, hb, hsame⟩ := h.nodes.exists_base hs
  obtain ⟨mac, hmac, -⟩ := hnet.inRoom b (List.mem_of_getElem? hb)
  have hroom : s.roomMember = some mac := hsame.roomMember.trans hmac
  rw [hsame.getNodeMacAddress] at haddress
  rw [hsame.connectionStatus] at hdata hown
  have hcondition : ∀ j c, base[j]? = some c → j ≠ i →
      IsBoundTo c channel b.connectionStatus.networkNodeId →
        ((flags &&& 0x2 ≠ 0 ∧ i ≠ 0 ∧ j ≠ 0) →
          destNodeId ≠ c.connectionStatus.networkNodeId) ∧
        (destNodeId = c.connectionStatus.networkNodeId ∨ destNodeId = broadcastNetworkNodeId →
          CanPull c channel) := by
    intro j c hcj hne hbound
    obtain ⟨other, hother, hsameOther⟩ := h.nodes.exists_node hcj
    have hkeeps := hc s hs j other hother hne
      (hsameOther.isBoundTo.mpr (by rw [hsame.connectionStatus]; exact hbound))
    rw [hsameOther.connectionStatus, hsameOther.canPull] at hkeeps
    exact hkeeps
  set payload := inputBuffer.take dataSize.toNat with hpayload
  set send : SentData := ⟨b.connectionStatus.networkNodeId, destNodeId, channel, payload⟩
    with hsendData
  have hframe : frameSend packet.data = some send := by
    rw [hdata]
    exact frameSend_payloadFrame hfits
  have htravels : ∀ r ∈ recipients base i { packet with transmitterAddress := mac },
      Travels base (r, { packet with transmitterAddress := mac }) send := by
    intro r hr
    exact travels_of_condition { packet with transmitterAddress := mac } hnet hb haddress hpacket
      htype hdata hfits hcondition hr
  unfold LocalNetwork.update
  rw [newlySent_sendPacket hroom, List.flatMap_singleton, h.nodes.recipients, hsame.connectionStatus]
  constructor
  case nodes => exact h.nodes.set hb (hsame.trans (sameNode_sendPacket s packet))
  case flights =>
    intro entry hentry
    rcases List.mem_append.mp hentry with hold | hnew
    · exact h.flights entry hold
    · obtain ⟨r, hr, rfl⟩ := List.mem_map.mp hnew
      exact ⟨send, htravels r hr⟩
  case balance =>
    intro j c hcj channel'
    have hbalance := h.balance j c hcj channel'
    have hnew := pending_sent (recipients base i packet) (nodup_recipients i packet)
      { packet with transmitterAddress := mac } hframe j c channel'
    have hall : (if j ∈ recipients base i packet then (meantFor c channel' send).toList
        else []) = (meantFor c channel' send).toList := by
      cases hmeant : meantFor c channel' send with
      | none => exact ite_self _
      | some data =>
          obtain ⟨hchannel, -⟩ := meantFor_eq_some hmeant
          have hchannel' : channel = channel' := hchannel
          subst hchannel'
          exact if_pos (mem_recipients_of_meantFor hnet hb haddress hpacket hcj hmeant)
    have hexpected : expected
        { net with sends := net.sends ++ [send] } c channel' =
        expected net c channel' ++ (meantFor c channel' send).toList := by
      have hone : [send].filterMap (meantFor c channel') =
          (meantFor c channel' send).toList := by
        cases hmeant : meantFor c channel' send with
        | none => simp [hmeant]
        | some data => simp [hmeant]
      unfold expected
      rw [List.filterMap_append, hone]
    show (arrivals net j c channel' ++ (net.inFlight ++ _).filterMap _).Perm
      (expected { net with sends := net.sends ++ [send] } c channel')
    rw [hexpected, List.filterMap_append]
    have hsent : ((recipients base i packet).map fun r =>
        (r, { packet with transmitterAddress := mac })).filterMap (arrivesAs j c channel') =
        (meantFor c channel' send).toList := hnew.trans hall
    rw [← List.append_assoc]
    exact (hbalance.append_right _).trans (List.Perm.of_eq (congrArg _ hsent))
  case queues =>
    intro j c s' hcj hs' channel'
    obtain ⟨s₀, hs₀, -⟩ := h.nodes.exists_node hcj
    obtain ⟨waiting, hqueue⟩ := h.queues j c s₀ hcj hs₀ channel'
    refine ⟨waiting, ?_, hqueue.fits, hqueue.arrived, hqueue.pullable⟩
    have hs'' : (net.nodes.set i (s.sendPacket packet))[j]? = some s' := hs'
    rw [List.getElem?_set] at hs''
    rw [← hqueue.frames]
    split at hs''
    · rename_i heq
      subst heq
      rw [hs] at hs₀
      cases hs₀
      split at hs''
      · cases hs''
        rw [NwmUds.sendPacket_eq]
        rfl
      · cases hs''
    · rw [hs₀] at hs''
      cases hs''
      rfl

/-- A list with one more entry at its end. -/
theorem filterMap_concat {α β : Type} (f : α → Option β) (xs : List α) (x : α) :
    (xs ++ [x]).filterMap f = xs.filterMap f ++ (f x).toList := by
  rw [List.filterMap_append]
  cases h : f x with
  | none => simp [h]
  | some y => simp [h]

/-- A delivery keeps the account: what was on its way has arrived, and what a host passes on is for
nobody. -/
theorem DeliveryInvariant.deliver (hnet : IsNetwork base) (h : DeliveryInvariant base net)
    {place : ℕ} {net' : LocalNetwork} (hstep : networkStep net (.deliver place) = .ok net') :
    DeliveryInvariant base net' := by
  unfold networkStep at hstep
  dsimp only at hstep
  split at hstep
  · cases hstep
    exact h
  rename_i i packet hplace
  split at hstep
  · cases hstep
    exact h
  rename_i s hs
  obtain ⟨t, hreceive, hrest⟩ := bind_eq_ok.mp hstep
  cases hrest
  obtain ⟨b, hb, hsame⟩ := h.nodes.exists_base hs
  obtain ⟨mac, hmac, -⟩ := hnet.inRoom b (List.mem_of_getElem? hb)
  obtain ⟨send, htravels⟩ := h.flights _ (List.mem_of_getElem? hplace)
  have hstatus := status_of_isNetwork hnet hb
  rw [← hsame.connectionStatus] at hstatus
  have hchannels : (s.channelData.map BindNodeData.channel).Nodup := by
    rw [hsame.channels]
    exact hnet.channels b (List.mem_of_getElem? hb)
  obtain ⟨hsameT, hqueue, hsent⟩ := receive_frame
    (hsame.initialized.trans (hnet.initialized b (List.mem_of_getElem? hb))) hstatus
    (hsame.roomMember.trans hmac) hchannels htravels.type htravels.data htravels.fits hreceive
  have hframe : frameSend packet.data = some send := by
    rw [htravels.data]
    exact frameSend_payloadFrame htravels.fits
  -- What is handed to the room again is meant for nobody.
  have hnew : ∀ entry ∈ (t.sent.drop s.sent.length).flatMap (fun packet =>
      (recipients net.nodes i packet).map fun r => (r, packet)),
      (∃ send, Travels base entry send) ∧
        ∀ (j : ℕ) (c : NwmUds), base[j]? = some c → ∀ channel, arrivesAs j c channel entry = none := by
    intro entry hentry
    rcases hsent with hnone | ⟨hhost, hdest, hall, packet', hone, htype, hdata, -⟩
    · rw [hnone, List.flatMap_nil] at hentry
      cases hentry
    · rw [hone, List.flatMap_singleton] at hentry
      obtain ⟨r, hr, rfl⟩ := List.mem_map.mp hentry
      have hzero : i = 0 := by
        cases i with
        | zero => rfl
        | succ k =>
            have hclient := hnet.clients k b hb
            rw [hsame.connectionStatus, hclient] at hhost
            cases hhost
      subst hzero
      rw [hsame.connectionStatus, (hnet.host b hb).2] at hdest
      have hnobody := htravels.passedOn rfl hdest hall
      constructor
      · exact ⟨send, htype, hdata, htravels.fits, fun _ _ _ => hnobody, fun c hc channel hmeant =>
          absurd (hnobody c (List.mem_of_getElem? hc) channel) hmeant⟩
      · intro j c hc channel
        unfold arrivesAs
        split
        · rw [hdata, frameSend_payloadFrame htravels.fits, Option.bind_some]
          exact hnobody c (List.mem_of_getElem? hc) channel
        · rfl
  have hperm : net.inFlight.Perm ((i, packet) :: net.inFlight.eraseIdx place) := by
    obtain ⟨hlt, hget⟩ := List.getElem?_eq_some_iff.mp hplace
    rw [← hget]
    exact (List.getElem_cons_eraseIdx_perm hlt).symm
  constructor
  case nodes => exact h.nodes.set hb (hsame.trans hsameT)
  case flights =>
    intro entry hentry
    rcases List.mem_append.mp hentry with hold | hnewEntry
    · exact h.flights entry (List.mem_of_mem_eraseIdx hold)
    · exact (hnew entry hnewEntry).1
  case balance =>
    intro j c hcj channel
    have hbalance := h.balance j c hcj channel
    have hnone : ((t.sent.drop s.sent.length).flatMap fun packet =>
        (recipients net.nodes i packet).map fun r => (r, packet)).filterMap
          (arrivesAs j c channel) = [] :=
      List.filterMap_eq_nil_iff.mpr fun entry hentry => (hnew entry hentry).2 j c hcj channel
    have hpending : (pending net j c channel).Perm ((arrivesAs j c channel (i, packet)).toList ++
        (net.inFlight.eraseIdx place).filterMap (arrivesAs j c channel)) := by
      have hmapped := hperm.filterMap (arrivesAs j c channel)
      rw [List.filterMap_cons] at hmapped
      unfold pending
      cases harrives : arrivesAs j c channel (i, packet) with
      | none =>
          rw [harrives] at hmapped
          exact hmapped
      | some data =>
          rw [harrives] at hmapped
          exact hmapped
    show ((net.delivered ++ [(i, packet)]).filterMap (arrivesAs j c channel) ++
      (net.inFlight.eraseIdx place ++ _).filterMap (arrivesAs j c channel)).Perm
        (expected net c channel)
    rw [filterMap_concat, List.filterMap_append, hnone, List.append_nil, List.append_assoc]
    exact ((hpending.symm.append_left _)).trans hbalance
  case queues =>
    intro j c s' hcj hs' channel
    have hs'' : (net.nodes.set i t)[j]? = some s' := hs'
    rw [List.getElem?_set] at hs''
    have harrivals : arrivals { net with delivered := net.delivered ++ [(i, packet)] } j c channel =
        arrivals net j c channel ++ (arrivesAs j c channel (i, packet)).toList :=
      filterMap_concat (arrivesAs j c channel) net.delivered (i, packet)
    by_cases heq : i = j
    · subst heq
      rw [hb] at hcj
      cases hcj
      rw [if_pos rfl] at hs''
      split at hs''
      case isFalse => cases hs''
      cases hs''
      obtain ⟨waiting, hwaiting⟩ := h.queues i b s hb hs channel
      have harrives : arrivesAs i b channel (i, packet) = meantFor b channel send := by
        unfold arrivesAs
        rw [if_pos rfl, hframe, Option.bind_some]
      have hmeant : meantFor s channel send = meantFor b channel send := by
        rw [hsame.meantFor]
      have hqueueChannel := hqueue channel
      rw [hmeant] at hqueueChannel
      rw [harrives] at harrivals
      cases hcase : meantFor b channel send with
      | none =>
          rw [hcase, Option.map_none, Option.toList_none, List.append_nil] at hqueueChannel
          rw [hcase, Option.toList_none, List.append_nil] at harrivals
          exact ⟨waiting, hqueueChannel.trans hwaiting.frames, hwaiting.fits,
            hwaiting.arrived.trans harrivals.symm, hwaiting.pullable⟩
      | some data =>
          obtain ⟨-, -, -, -, rfl⟩ := meantFor_eq_some hcase
          rw [hcase] at hqueueChannel harrivals
          refine ⟨waiting ++ [send], ?_, ?_, ?_, fun _ => ?_⟩
          · rw [hqueueChannel, hwaiting.frames, List.map_append]
            rfl
          · intro other hother
            rcases List.mem_append.mp hother with hold | hlast
            · exact hwaiting.fits other hold
            · rw [List.mem_singleton.mp hlast]
              exact htravels.fits
          · rw [List.map_append, ← List.append_assoc]
            refine Eq.trans ?_ harrivals.symm
            exact congrArg (fun xs => xs ++ [(send.srcNodeId, send.payload)]) hwaiting.arrived
          · exact htravels.pullable b hb channel (by rw [hcase]; exact Option.some_ne_none _)
    · rw [if_neg heq] at hs''
      obtain ⟨waiting, hwaiting⟩ := h.queues j c s' hcj hs'' channel
      have hnone : arrivesAs j c channel (i, packet) = none := if_neg heq
      rw [hnone, Option.toList_none, List.append_nil] at harrivals
      exact ⟨waiting, hwaiting.frames, hwaiting.fits, hwaiting.arrived.trans harrivals.symm,
        hwaiting.pullable⟩

/-- The packets of a binding are pulled from its channel only. -/
theorem queued_pop {s : NwmUds} (hchannels : (s.channelData.map BindNodeData.channel).Nodup)
    {bound : BindNodeData} (hbound : bound ∈ s.channelData) (rest : List (List UInt8))
    (channel : UInt8) :
    queued { s with channelData := s.channelData.map fun other =>
        if other.channel = bound.channel then { other with receivedPackets := rest } else other }
      channel = if channel = bound.channel then rest else queued s channel := by
  have hf : ∀ other : BindNodeData, bindingKey
      (if other.channel = bound.channel then { other with receivedPackets := rest } else other) =
      bindingKey other := by
    intro other
    split <;> rfl
  by_cases hother : ∃ other ∈ s.channelData, other.channel = channel
  · obtain ⟨other, hmem, rfl⟩ := hother
    have hqueue := queued_mapBindings hchannels hf hmem
    rw [hqueue]
    split
    · rfl
    · rw [queued_eq hchannels hmem]
  · have hunbound : ∀ other ∈ s.channelData, other.channel ≠ channel :=
      fun other hmem heq => hother ⟨other, hmem, heq⟩
    rw [if_neg fun heq => hunbound bound hbound heq.symm, queued_of_unbound hunbound]
    apply queued_of_unbound
    intro other hmem
    obtain ⟨first, hfirst, rfl⟩ := List.mem_map.mp hmem
    split
    · exact hunbound first hfirst
    · exact hunbound first hfirst

/-- A pull takes what has arrived, as it was sent. -/
theorem DeliveryInvariant.pull (hnet : IsNetwork base) (h : DeliveryInvariant base net) {i : ℕ}
    {bindNodeId aligned size : UInt32} {net' : LocalNetwork}
    (hstep : networkStep net (.pullPacket i bindNodeId aligned size) = .ok net') :
    DeliveryInvariant base net' := by
  unfold networkStep at hstep
  dsimp only at hstep
  split at hstep
  · cases hstep
    exact h
  rename_i s hs
  obtain ⟨⟨result, t⟩, hpull, hrest⟩ := bind_eq_ok.mp hstep
  obtain ⟨b, hb, hsame⟩ := h.nodes.exists_base hs
  have hstatus := status_of_isNetwork hnet hb
  rw [← hsame.connectionStatus] at hstatus
  have hchannels : (s.channelData.map BindNodeData.channel).Nodup := by
    rw [hsame.channels]
    exact hnet.channels b (List.mem_of_getElem? hb)
  have hqueues : ∀ bound ∈ s.channelData, ∀ next ∈ bound.receivedPackets,
      ∃ send : SentData, next = payloadFrame send ∧ send.payload.length ≤ 0x5C6 := by
    intro bound hbound next hnext
    obtain ⟨waiting, hwaiting⟩ := h.queues i b s hb hs bound.channel
    rw [← queued_eq hchannels hbound, hwaiting.frames] at hnext
    obtain ⟨send, hsend, rfl⟩ := List.mem_map.mp hnext
    exact ⟨send, rfl, hwaiting.fits send hsend⟩
  rcases pullPacket_cases hstatus hqueues hpull with ⟨rfl, hnothing⟩ |
    ⟨bound, hbound, send, rest, packet, hchannel, hfits, hqueue, hpacket, hcontent, rfl⟩
  · have hset : net.nodes.set i t = net.nodes := by
      obtain ⟨hlt, hget⟩ := List.getElem?_eq_some_iff.mp hs
      rw [← hget]
      exact List.set_getElem_self hlt
    have hnet' : net' = net := by
      rw [hset] at hrest
      rcases hnothing with hnone | hnone
      · rw [hnone] at hrest
        cases hrest
        rfl
      · obtain ⟨outcome, packet⟩ := result
        have hnone' : packet = none := hnone
        subst hnone'
        cases hchannel : pulledChannel t bindNodeId with
        | none =>
            rw [hchannel] at hrest
            cases hrest
            rfl
        | some channel =>
            rw [hchannel] at hrest
            cases hrest
            rfl
    rw [hnet']
    exact h
  · obtain ⟨outcome, pulled⟩ := result
    have hpacket' : pulled = some packet := hpacket
    subst hpacket'
    dsimp only at hrest
    rw [hchannel] at hrest
    cases hrest
    have hsamePop : SameNode s { s with channelData := s.channelData.map fun other =>
        if other.channel = bound.channel then { other with receivedPackets := rest }
        else other } := by
      apply sameNode_mapBindings
      intro other
      split <;> rfl
    constructor
    case nodes => exact h.nodes.set hb (hsame.trans hsamePop)
    case flights => exact h.flights
    case balance => exact h.balance
    case queues =>
      intro j c s' hcj hs' channel
      have hs'' : (net.nodes.set i _)[j]? = some s' := hs'
      rw [List.getElem?_set] at hs''
      have hpulled : pulledFrom { net with pulled := net.pulled ++ [(i, bound.channel, packet)] } j
          channel = pulledFrom net j channel ++
            if i = j ∧ bound.channel = channel then [(send.srcNodeId, send.payload)] else [] := by
        unfold pulledFrom
        rw [filterMap_concat]
        dsimp only
        rw [hcontent]
        split <;> rfl
      by_cases heq : i = j
      · subst heq
        rw [hb] at hcj
        cases hcj
        rw [if_pos rfl] at hs''
        split at hs''
        case isFalse => cases hs''
        cases hs''
        obtain ⟨waiting, hwaiting⟩ := h.queues i b s hb hs channel
        have hpop := queued_pop hchannels hbound rest channel
        by_cases hsameChannel : channel = bound.channel
        · subst hsameChannel
          rw [if_pos ⟨rfl, rfl⟩] at hpulled
          rw [if_pos rfl] at hpop
          have hframes := hwaiting.frames
          rw [queued_eq hchannels hbound, hqueue] at hframes
          cases waiting with
          | nil => cases hframes
          | cons first others =>
              rw [List.map_cons, List.cons.injEq] at hframes
              have hfirst : first = send := by
                have hread := frameSend_payloadFrame (hwaiting.fits first List.mem_cons_self)
                rw [← hframes.1, frameSend_payloadFrame hfits] at hread
                exact (Option.some.inj hread).symm
              subst hfirst
              refine ⟨others, hpop.trans hframes.2,
                fun other hother => hwaiting.fits other (List.mem_cons_of_mem _ hother), ?_,
                fun _ => hwaiting.pullable (List.cons_ne_nil _ _)⟩
              have harrived := hwaiting.arrived
              rw [List.map_cons] at harrived
              show pulledFrom { net with pulled := _ } i bound.channel ++ _ = _
              rw [hpulled, List.append_assoc]
              exact harrived
        · rw [if_neg fun hboth => hsameChannel hboth.2.symm, List.append_nil] at hpulled
          rw [if_neg hsameChannel] at hpop
          refine ⟨waiting, hpop.trans hwaiting.frames, hwaiting.fits, ?_, hwaiting.pullable⟩
          show pulledFrom { net with pulled := _ } i channel ++ _ = _
          rw [hpulled]
          exact hwaiting.arrived
      · rw [if_neg heq] at hs''
        obtain ⟨waiting, hwaiting⟩ := h.queues j c s' hcj hs'' channel
        rw [if_neg fun hboth => heq hboth.1, List.append_nil] at hpulled
        refine ⟨waiting, hwaiting.frames, hwaiting.fits, ?_, hwaiting.pullable⟩
        show pulledFrom { net with pulled := _ } j channel ++ _ = _
        rw [hpulled]
        exact hwaiting.arrived

end Steps

section Runs

variable {base : List NwmUds} {net : LocalNetwork}

/-- A step that meets the condition keeps the account. -/
theorem DeliveryInvariant.step (hnet : IsNetwork base) (h : DeliveryInvariant base net)
    {event : DeliveryEvent} (hc : KeepsDelivery net event) {net' : LocalNetwork}
    (hstep : networkStep net event = .ok net') : DeliveryInvariant base net' := by
  cases event with
  | sendTo i destNodeId channel dataSize flags inputBuffer => exact h.sendTo hnet hc hstep
  | deliver place => exact h.deliver hnet hstep
  | pullPacket i bindNodeId aligned size => exact h.pull hnet hstep

/-- When the account is right, every node gets what is sent to it. -/
theorem DeliveryInvariant.deliveryHolds (hnet : IsNetwork base) (h : DeliveryInvariant base net) :
    DeliveryHolds net := by
  intro i s hs channel
  obtain ⟨b, hb, hsame⟩ := h.nodes.exists_base hs
  have hbalance := h.balance i b hb channel
  obtain ⟨waiting, hwaiting⟩ := h.queues i b s hb hs channel
  have hframes : ∀ send ∈ waiting, frameSend (payloadFrame send) = some send :=
    fun send hsend => frameSend_payloadFrame (hwaiting.fits send hsend)
  have hchannels : (s.channelData.map BindNodeData.channel).Nodup := by
    rw [hsame.channels]
    exact hnet.channels b (List.mem_of_getElem? hb)
  constructor
  case atMostOnce =>
    rw [hsame.arrivals, hsame.expected]
    exact (List.sublist_append_left _ _).subperm.trans hbalance.subperm
  case once =>
    intro hempty
    rw [hsame.arrivals, hsame.expected]
    have hnothing : pending net i b channel = [] := by
      unfold pending
      rw [hempty]
      rfl
    rwa [hnothing, List.append_nil] at hbalance
  case inOrder =>
    refine ⟨waiting, ?_, ?_⟩
    · rw [hwaiting.frames, List.map_map]
      exact List.map_congr_left hframes
    · rw [hsame.arrivals]
      exact hwaiting.arrived
  case available =>
    intro bound hbound hchannel next hnext
    subst hchannel
    have hqueue := hwaiting.frames
    rw [queued_eq hchannels hbound] at hqueue
    cases waiting with
    | nil =>
        rw [hqueue] at hnext
        cases hnext
    | cons send others =>
        rw [hqueue, List.map_cons, List.head?_cons, Option.mem_def, Option.some.injEq] at hnext
        subst hnext
        have hfits := hwaiting.fits send List.mem_cons_self
        refine ⟨send, frameSend_payloadFrame hfits, fun aligned size hsize hroom => ?_⟩
        have hstatus := status_of_isNetwork hnet hb
        rw [← hsame.connectionStatus] at hstatus
        have hcanPull := hsame.canPull.mpr (hwaiting.pullable (List.cons_ne_nil _ _)) bound hbound
          rfl
        obtain ⟨other, hfind, hother⟩ := Option.map_eq_some_iff.mp hcanPull
        have heq := binding_eq hchannels (List.mem_of_find?_eq_some hfind) hbound hother
        subst heq
        rw [List.map_cons] at hqueue
        rw [pullPacket_eq hstatus hfind hqueue hfits, if_neg (Nat.not_lt.mpr hsize), if_pos hroom]
        exact ⟨_, _, rfl, Prod.ext rfl take_overwrite_zero⟩

/-- In a network of a host and clients, in every run whose sends meet the condition, everything that
is sent is delivered exactly once. -/
theorem udsDelivery_of_condition (base : List NwmUds) (hnet : IsNetwork base)
    (events : List DeliveryEvent)
    (hcondition : EachStep networkStep KeepsDelivery { nodes := base } events) :
    AllAlong networkStep DeliveryHolds { nodes := base } events :=
  allAlong_of_eachStep (q := DeliveryInvariant base) (fun _ h => h.deliveryHolds hnet)
    (fun _ _ _ h hc hstep => h.step hnet hc hstep) (deliveryInvariant_start hnet) hcondition

end Runs

section Examples

/-- The address of a node. -/
def nodeAddress (id : UInt8) : MacAddress := Block.replicate 6 id

/-- A node in a network of a host and two clients, bound to channel 1. -/
def exampleNode (id : UInt8) (status : NetworkStatus) : NwmUds where
  roomMember := some (nodeAddress id)
  initialized := true
  connectionStatus := { status, networkNodeId := UInt16.ofNat id.toNat }
  networkInfo := { hostMacAddress := nodeAddress 1 }
  nodeMap := [(nodeAddress 2, ⟨true, 2⟩), (nodeAddress 3, ⟨true, 3⟩)]
  channelData :=
    [{ bindNodeId := 1, channel := 1, networkNodeId := broadcastNetworkNodeId }]

def threeNodes : List NwmUds :=
  [exampleNode 1 .connectedAsHost, exampleNode 2 .connectedAsClient, exampleNode 3 .connectedAsClient]

theorem isNetwork_threeNodes : IsNetwork threeNodes where
  initialized := by decide
  host := by
    intro s hs
    cases hs
    exact ⟨rfl, rfl⟩
  clients := by
    intro i s hs
    match i with
    | 0 => cases hs; rfl
    | 1 => cases hs; rfl
    | i + 2 => cases hs
  ids := by decide
  ordinaryIds := by decide
  addresses := by decide
  inRoom := by
    have hall : ∀ s ∈ threeNodes, s.roomMember ≠ none ∧ s.roomMember ≠ some broadcastMac := by
      decide
    intro s hs
    obtain ⟨hsome, hunicast⟩ := hall s hs
    obtain ⟨address, haddress⟩ := Option.ne_none_iff_exists'.mp hsome
    exact ⟨address, haddress, fun heq => hunicast (heq ▸ haddress)⟩
  known := by decide +kernel
  channels := by decide
  queues := by decide

/-- A client asks for no broadcast, and the other one pulls what it has sent. -/
theorem udsDelivery_of_condition_threeNodes :
    AllAlong networkStep DeliveryHolds { nodes := threeNodes }
      [.sendTo 1 3 1 2 0 [7, 8], .deliver 0, .pullPacket 2 1 10 10] := by
  apply udsDelivery_of_condition threeNodes isNetwork_threeNodes
  refine fun net hnet => ⟨fun s hs j other hother hne hbound => ⟨fun hflags => ?_, fun hdest => ?_⟩,
    fun _ _ => ⟨trivial, fun _ _ => ⟨trivial, trivial⟩⟩⟩
  · exact absurd hflags.1 (by decide)
  · have hall : ∀ other ∈ threeNodes, CanPull other 1 := by decide
    exact hall other (List.mem_of_getElem? hother)

/-- A client sends data for the other one with the flag for a broadcast: the host broadcasts the packet
again, and the data arrives twice. -/
theorem udsDelivery_broadcastFlag :
    ¬ AllAlong networkStep DeliveryHolds { nodes := threeNodes }
      [.sendTo 1 3 1 2 2 [7, 8], .deliver 0, .deliver 0, .deliver 1] := by
  intro hall
  have hcounts : (run networkStep { nodes := threeNodes }
      [.sendTo 1 3 1 2 2 [7, 8], .deliver 0, .deliver 0, .deliver 1]).toOption.map (fun net =>
        net.nodes[2]?.map fun s => ((arrivals net 2 s 1).length, (expected net s 1).length)) =
      some (some (2, 1)) := by
    decide
  obtain ⟨net, hnet, hnode⟩ := Option.map_eq_some_iff.mp hcounts
  obtain ⟨s, hs, hlengths⟩ := Option.map_eq_some_iff.mp hnode
  have hholds := hall.last (eq_ok_of_toOption hnet) 2 s hs 1
  have hle := hholds.atMostOnce.length_le
  rw [(Prod.mk.inj hlengths).1, (Prod.mk.inj hlengths).2] at hle
  exact absurd hle (by decide)

end Examples

end Borked3DS.Analysis
