import Borked3DS.Library.SlotArray
import Borked3DS.Analysis.UdsBounds
import Borked3DS.Interface.LocalNetworks

/-!
# A host keeps its records of the nodes in agreement

The slots of a network are a set of which the host keeps several records. Each handler changes all
of them as its event changes the set, and from it exactly which runs of a host keep them in
agreement.
-/

set_option autoImplicit false

namespace Borked3DS.Analysis

open Borked3DS.Library Borked3DS.Model Borked3DS.Model.Network Borked3DS.Model.NWM
open Borked3DS.Interface

section Maps

variable {m : NodeMap} {address : MacAddress} {node known : Node}

theorem find_eq_none_iff : m.find address = none ↔ address ∉ m.map Prod.fst := by
  unfold NodeMap.find
  rw [Option.map_eq_none_iff, List.find?_eq_none, List.mem_map]
  constructor
  · rintro h ⟨entry, hentry, heq⟩
    exact h entry hentry (decide_eq_true heq)
  · intro h entry hentry heq
    exact h ⟨entry, hentry, of_decide_eq_true heq⟩

/-- The map around the entry of an address that it has. -/
theorem exists_entry_split (hkeys : (m.map Prod.fst).Nodup) (h : m.find address = some node) :
    ∃ before after, m = before ++ (address, node) :: after ∧
      (∀ entry ∈ before, entry.1 ≠ address) ∧ ∀ entry ∈ after, entry.1 ≠ address := by
  unfold NodeMap.find at h
  obtain ⟨⟨address', node'⟩, hfind, hnode⟩ := Option.map_eq_some_iff.mp h
  cases hnode
  have heq : address' = address := by
    have hmem := List.find?_some hfind
    exact of_decide_eq_true hmem
  subst heq
  obtain ⟨before, after, hsplit⟩ := List.append_of_mem (List.mem_of_find?_eq_some hfind)
  refine ⟨before, after, hsplit, ?_, ?_⟩
  · intro entry hentry heq
    rw [hsplit, List.map_append, List.map_cons, List.nodup_append] at hkeys
    exact hkeys.2.2 _ (List.mem_map_of_mem hentry) _ List.mem_cons_self heq
  · intro entry hentry heq
    rw [hsplit, List.map_append, List.map_cons, List.nodup_append] at hkeys
    have hmem := List.mem_map_of_mem (f := Prod.fst) hentry
    rw [heq] at hmem
    exact (List.nodup_cons.mp hkeys.2.1).1 hmem

theorem connectedIds_append (before after : NodeMap) :
    connectedIds (before ++ after) = connectedIds before ++ connectedIds after := by
  unfold connectedIds
  rw [List.filter_append, List.map_append]

theorem connectedIds_cons_connected {entry : MacAddress × Node} (h : entry.2.connected = true) :
    connectedIds (entry :: m) = entry.2.nodeId :: connectedIds m := by
  have hfilter : (entry :: m).filter (fun entry => entry.2.connected) =
      entry :: m.filter fun entry => entry.2.connected := List.filter_cons_of_pos h
  unfold connectedIds
  rw [hfilter, List.map_cons]

theorem connectedIds_cons_unconnected {entry : MacAddress × Node} (h : entry.2.connected = false) :
    connectedIds (entry :: m) = connectedIds m := by
  have hfilter : (entry :: m).filter (fun entry => entry.2.connected) =
      m.filter fun entry => entry.2.connected :=
    List.filter_cons_of_neg (by rw [h]; decide)
  unfold connectedIds
  rw [hfilter]

/-- A client that is only let in is not connected. -/
theorem connectedIds_insertNew (h : node.connected = false) :
    connectedIds (NodeMap.insertNew address node m) = connectedIds m := by
  induction m with
  | nil => exact connectedIds_cons_unconnected h
  | cons entry m ih =>
      unfold NodeMap.insertNew
      split
      · exact connectedIds_cons_unconnected h
      · cases hentry : entry.2.connected with
        | false =>
            rw [connectedIds_cons_unconnected hentry, connectedIds_cons_unconnected hentry, ih]
        | true => rw [connectedIds_cons_connected hentry, connectedIds_cons_connected hentry, ih]

theorem keys_insertNew :
    ((NodeMap.insertNew address node m).map Prod.fst).Perm (address :: m.map Prod.fst) := by
  induction m with
  | nil => exact List.Perm.refl _
  | cons entry m ih =>
      unfold NodeMap.insertNew
      split
      · exact List.Perm.refl _
      · exact (List.Perm.cons _ ih).trans (List.Perm.swap _ _ _)

/-- A client that is known gets its node in the map. -/
theorem set_split {before after : NodeMap} (hsplit : m = before ++ (address, known) :: after)
    (hbefore : ∀ entry ∈ before, entry.1 ≠ address) (hafter : ∀ entry ∈ after, entry.1 ≠ address) :
    m.set address node = before ++ (address, node) :: after := by
  have hfind : (m.find address).isSome = true := by
    cases hnone : m.find address with
    | some _ => rfl
    | none =>
        have habsent := find_eq_none_iff.mp hnone
        rw [hsplit, List.map_append, List.map_cons, List.mem_append] at habsent
        exact absurd (Or.inr List.mem_cons_self) habsent
  have hsame : ∀ part : NodeMap, (∀ entry ∈ part, entry.1 ≠ address) →
      (part.map fun entry => if entry.1 = address then (address, node) else entry) = part := by
    intro part hpart
    have hid : part.map id = part := List.map_id part
    conv_rhs => rw [← hid]
    exact List.map_congr_left fun entry hentry => if_neg (hpart entry hentry)
  unfold NodeMap.set
  rw [if_pos hfind, hsplit, List.map_append, List.map_cons, hsame before hbefore,
    hsame after hafter, if_pos rfl]

theorem erase_split {before after : NodeMap} (hsplit : m = before ++ (address, known) :: after)
    (hbefore : ∀ entry ∈ before, entry.1 ≠ address) (hafter : ∀ entry ∈ after, entry.1 ≠ address) :
    m.erase address = before ++ after := by
  have hsame : ∀ part : NodeMap, (∀ entry ∈ part, entry.1 ≠ address) →
      (part.filter fun entry => entry.1 ≠ address) = part := by
    intro part hpart
    exact List.filter_eq_self.mpr fun entry hentry => decide_eq_true (hpart entry hentry)
  unfold NodeMap.erase
  rw [hsplit, List.filter_append, List.filter_cons_of_neg (by simp), hsame before hbefore,
    hsame after hafter]

/-- A client that gets a node becomes one of those that are connected. -/
theorem connectedIds_set (hkeys : (m.map Prod.fst).Nodup) (hfind : m.find address = some known)
    (hknown : known.connected = false) (hnode : node.connected = true) :
    (connectedIds (m.set address node)).Perm (node.nodeId :: connectedIds m) ∧
      ((m.set address node).map Prod.fst) = m.map Prod.fst := by
  obtain ⟨before, after, hsplit, hbefore, hafter⟩ := exists_entry_split hkeys hfind
  rw [set_split hsplit hbefore hafter, hsplit]
  constructor
  · rw [connectedIds_append, connectedIds_append, connectedIds_cons_connected hnode,
      connectedIds_cons_unconnected hknown]
    exact List.perm_middle
  · simp

/-- A client that leaves is no longer one of those that are connected. -/
theorem connectedIds_erase (hkeys : (m.map Prod.fst).Nodup) (hfind : m.find address = some node) :
    if node.connected = true then
      (connectedIds m).Perm (node.nodeId :: connectedIds (m.erase address))
    else connectedIds (m.erase address) = connectedIds m := by
  obtain ⟨before, after, hsplit, hbefore, hafter⟩ := exists_entry_split hkeys hfind
  rw [erase_split hsplit hbefore hafter, hsplit]
  split
  · rename_i hnode
    rw [connectedIds_append, connectedIds_append, connectedIds_cons_connected hnode]
    exact List.perm_middle
  · rename_i hnode
    rw [connectedIds_append, connectedIds_append,
      connectedIds_cons_unconnected (eq_false_of_ne_true hnode)]

theorem nodup_keys_erase (hkeys : (m.map Prod.fst).Nodup) :
    ((m.erase address).map Prod.fst).Nodup :=
  hkeys.sublist (List.filter_sublist.map _)

end Maps

section Records

variable {s : NwmUds} {taken : Finset ℕ}

theorem slotId_injOn {i j : ℕ} (hi : i < udsMaxNodes) (hj : j < udsMaxNodes)
    (h : slotId i = slotId j) : i = j := by
  have hi' : i < 16 := hi
  have hj' : j < 16 := hj
  have hnat := congrArg UInt16.toNat h
  unfold slotId at hnat
  rw [UInt16.toNat_ofNat_of_lt' (by show i + 1 < 2 ^ 16; omega),
    UInt16.toNat_ofNat_of_lt' (by show j + 1 < 2 ^ 16; omega)] at hnat
  omega

theorem toNat_slotId_of_lt {i : ℕ} (hi : i < udsMaxNodes) : (slotId i).toNat = i + 1 := by
  have hi' : i < 16 := hi
  exact UInt16.toNat_ofNat_of_lt' (by show i + 1 < 2 ^ 16; omega)

theorem slotId_ne_zero {i : ℕ} (hi : i < udsMaxNodes) : slotId i ≠ 0 := by
  intro h
  have hnat := congrArg UInt16.toNat h
  rw [toNat_slotId_of_lt hi] at hnat
  exact absurd hnat (Nat.succ_ne_zero i)

/-- Every record of a host records the same slots as taken, the first one by the host. -/
structure RecordsSlots (s : NwmUds) (taken : Finset ℕ) : Prop where
  status : s.connectionStatus.status = .connectedAsHost
  capacity : 1 < s.connectionStatus.maxNodes.toNat
  networkMax : s.networkInfo.maxNodes = s.connectionStatus.maxNodes
  mask : MarksSlots s.connectionStatus.nodeBitmask.toNat taken
  array : s.connectionStatus.nodes.1 = slotArray 0 slotId udsMaxNodes taken
  list : s.nodeInfo.map NodeInfo.networkNodeId =
    slotArray 0 slotId s.connectionStatus.maxNodes.toNat taken
  host : 0 ∈ taken
  below : ∀ i ∈ taken, i < s.connectionStatus.maxNodes.toNat
  total : s.connectionStatus.totalNodes.toNat = taken.card
  networkTotal : s.networkInfo.totalNodes.toNat = taken.card
  keys : (s.nodeMap.map Prod.fst).Nodup
  ids : (connectedIds s.nodeMap).Nodup
  clients : ∀ id, id ∈ connectedIds s.nodeMap ↔ ∃ i ∈ taken, i ≠ 0 ∧ slotId i = id

namespace RecordsSlots

variable (h : RecordsSlots s taken)
include h

theorem lt {i : ℕ} (hi : i ∈ taken) : i < udsMaxNodes :=
  h.mask.lt (w := 16) s.connectionStatus.nodeBitmask.toNat_lt hi

theorem maskIds_eq : maskIds s = taken.image slotId := by
  unfold maskIds
  congr 1
  ext i
  rw [Finset.mem_filter, h.mask i, Finset.mem_range, decide_eq_true_iff]
  exact ⟨fun hi => hi.2, fun hi => ⟨h.lt hi, hi⟩⟩

theorem card_maskIds : (maskIds s).card = taken.card := by
  rw [h.maskIds_eq]
  apply Finset.card_image_of_injOn
  intro i hi j hj heq
  exact slotId_injOn (h.lt hi) (h.lt hj) heq

theorem card_le : taken.card ≤ s.connectionStatus.maxNodes.toNat := by
  have hsub : taken ⊆ Finset.range s.connectionStatus.maxNodes.toNat :=
    fun i hi => Finset.mem_range.mpr (h.below i hi)
  have hcard := Finset.card_le_card hsub
  rwa [Finset.card_range] at hcard

theorem isHosting : IsHosting s := by
  refine ⟨h.status, fun hzero => ?_⟩
  have hcapacity := h.capacity
  rw [hzero] at hcapacity
  exact absurd hcapacity (by decide)

/-- Records of one set of slots agree. -/
theorem agreesOnMembers : AgreesOnMembers s := by
  have hnames : ∀ i ∈ taken, slotId i ≠ 0 := fun i hi => slotId_ne_zero (h.lt hi)
  refine ⟨?_, ?_, ?_, ?_, ?_, ?_, ?_⟩
  · ext id
    rw [h.maskIds_eq, arrayIds, h.array, Finset.mem_erase, List.mem_toFinset,
      mem_slotArray hnames fun i hi => h.lt hi, Finset.mem_image]
  · ext id
    rw [h.maskIds_eq, listIds, h.list, Finset.mem_erase, List.mem_toFinset,
      mem_slotArray hnames h.below, Finset.mem_image]
  · ext id
    rw [h.maskIds_eq, mapIds, Finset.mem_insert, List.mem_toFinset, h.clients, Finset.mem_image]
    constructor
    · rintro (rfl | ⟨i, hi, -, hid⟩)
      · exact ⟨0, h.host, rfl⟩
      · exact ⟨i, hi, hid⟩
    · rintro ⟨i, hi, hid⟩
      by_cases hzero : i = 0
      · subst hzero
        exact Or.inl hid.symm
      · exact Or.inr ⟨i, hi, hzero, hid⟩
  · rw [h.card_maskIds, h.total]
  · rw [h.card_maskIds, h.networkTotal]
  · rw [UInt8.le_iff_toNat_le, h.total]
    exact h.card_le
  · intro a ha b hb hacon hbcon hid
    have hmem : ∀ entry ∈ s.nodeMap, entry.2.connected = true →
        entry ∈ s.nodeMap.filter fun entry => entry.2.connected :=
      fun entry hentry hcon => List.mem_filter.mpr ⟨hentry, hcon⟩
    have heq := List.inj_on_of_nodup_map h.ids (hmem a ha hacon) (hmem b hb hbcon) hid
    rw [heq]

end RecordsSlots

/-- A host that has left its network, and a node without one, have empty records. -/
structure HostsNothing (s : NwmUds) : Prop where
  nodeMap : s.nodeMap = []
  status : ∃ status networkNodeId, s.connectionStatus = { status, networkNodeId } ∧
    (status = .notConnected ∨ status = .connectedAsHost)

theorem HostsNothing.not_isHosting (h : HostsNothing s) : ¬ IsHosting s := by
  obtain ⟨status, networkNodeId, heq, -⟩ := h.status
  intro hhosting
  apply hhosting.2
  rw [heq]

/-- What the steps of a host preserve. -/
def HostInvariant (s : NwmUds) : Prop :=
  s.initialized = true ∧ ((∃ taken, RecordsSlots s taken) ∨ HostsNothing s)

theorem membershipHolds_of_invariant (h : HostInvariant s) : MembershipHolds s := by
  intro hhosting
  rcases h.2 with ⟨taken, hrecords⟩ | hnothing
  · exact hrecords.agreesOnMembers
  · exact absurd hhosting hnothing.not_isHosting

end Records

section Frames

variable {associationId : UInt16} {node : NodeInfo}

/-- What a start frame begins with. -/
theorem generateEAPoLStartFrame_eq : ∃ rest,
    generateEAPoLStartFrame associationId node =
      generateLLCHeader .eapol ++ (toBigEndian 2 eapolStartMagic ++ rest) ∧ rest.length = 46 := by
  refine ⟨toBigEndian 2 associationId.toNat ++ (toBigEndian 2 1 ++ ([0, 0] ++
    eapolNodeInfo { node with networkNodeId := 0 })), ?_, ?_⟩
  · unfold generateEAPoLStartFrame
    simp only [List.append_assoc]
  · simp [eapolNodeInfo]

theorem getFrameEtherType_startFrame :
    getFrameEtherType (generateEAPoLStartFrame associationId node) = .ok EtherType.eapol.value := by
  obtain ⟨rest, heq, -⟩ := @generateEAPoLStartFrame_eq associationId node
  have hheader := readRun_middle Fault.undefined [] (generateLLCHeader .eapol)
    (toBigEndian 2 eapolStartMagic ++ rest)
  rw [List.nil_append] at hheader
  unfold getFrameEtherType
  rw [heq]
  exact (congrArg (fun header => header >>= _) hheader).trans (by decide)

theorem getEAPoLFrameType_startFrame :
    getEAPoLFrameType (generateEAPoLStartFrame associationId node) = .ok eapolStartMagic := by
  obtain ⟨rest, heq, -⟩ := @generateEAPoLStartFrame_eq associationId node
  have hmagic := readRun_middle Fault.undefined (generateLLCHeader .eapol)
    (toBigEndian 2 eapolStartMagic) rest
  unfold getEAPoLFrameType
  rw [heq]
  exact (congrArg (fun bytes => bytes >>= _) hmagic).trans (by decide)

theorem exists_deserialize_startFrame :
    ∃ sent, deserializeNodeInfoFromFrame (generateEAPoLStartFrame associationId node) =
      .ok sent := by
  obtain ⟨rest, heq, hlength⟩ := @generateEAPoLStartFrame_eq associationId node
  apply exists_readRun_eq_ok
  rw [heq, List.length_append, List.length_append, hlength, length_toBigEndian]
  decide

theorem getAuthenticationSeqNumber_frame (seq : AuthenticationSeq) :
    getAuthenticationSeqNumber (generateAuthenticationFrame seq) = .ok seq.value := by
  cases seq with
  | seq1 => rfl
  | seq2 => rfl

end Frames

section Slots

theorem toNat_nodeBit {i : ℕ} (hi : i < udsMaxNodes) : (nodeBit i).toNat = 2 ^ i := by
  unfold nodeBit
  exact UInt16.toNat_ofNat_of_lt' (Nat.pow_lt_pow_right (by decide) hi)

theorem marksSlots_or_nodeBit {mask : UInt16} {taken : Finset ℕ} {i : ℕ}
    (h : MarksSlots mask.toNat taken) (hi : i < udsMaxNodes) :
    MarksSlots (mask ||| nodeBit i).toNat (insert i taken) := by
  rw [UInt16.toNat_or, toNat_nodeBit hi]
  exact h.insert i

theorem marksSlots_andNot_nodeBit {mask : UInt16} {taken : Finset ℕ} {i : ℕ}
    (h : MarksSlots mask.toNat taken) (hi : i < udsMaxNodes) :
    MarksSlots (mask &&& ~~~ nodeBit i).toNat (taken.erase i) := by
  rw [UInt16.toNat_and, UInt16.toNat_not, toNat_nodeBit hi]
  exact h.erase hi mask.toNat_lt

theorem toNat_add_one {x : UInt8} {n : ℕ} (hx : x.toNat = n) (hn : n < 255) :
    (x + 1).toNat = n + 1 := by
  rw [UInt8.toNat_add, hx]
  exact Nat.mod_eq_of_lt (by show n + 1 < 256; omega)

theorem toNat_sub_one {x : UInt8} {n : ℕ} (hx : x.toNat = n) (hn : 0 < n) :
    (x - 1).toNat = n - 1 := by
  rw [UInt8.toNat_sub_of_le _ _ (by rw [UInt8.le_iff_toNat_le, hx]; exact hn), hx]
  rfl

/-- A record that is reset has no id. -/
theorem map_id_modify_reset (infos : List NodeInfo) (i : ℕ) :
    (infos.modify i NodeInfo.reset).map NodeInfo.networkNodeId =
      (infos.map NodeInfo.networkNodeId).set i 0 := by
  apply List.ext_getElem?
  intro j
  rw [List.getElem?_map, List.getElem?_modify, List.getElem?_set, List.length_map,
    List.getElem?_map]
  by_cases heq : i = j
  · subst heq
    by_cases hlt : i < infos.length
    · simp [hlt, NodeInfo.reset]
    · simp [hlt]
  · simp [heq]

end Slots

section Steps

variable {s t : NwmUds} {taken : Finset ℕ} {client : MacAddress}

/-- The records do not speak of what is sent, and of the map only of the clients in it. -/
theorem RecordsSlots.withMap (h : RecordsSlots s taken) {m : NodeMap}
    (hkeys : (m.map Prod.fst).Nodup) (hids : connectedIds m = connectedIds s.nodeMap)
    (sent : List WifiPacket) : RecordsSlots { s with nodeMap := m, sent } taken where
  status := h.status
  capacity := h.capacity
  networkMax := h.networkMax
  mask := h.mask
  array := h.array
  list := h.list
  host := h.host
  below := h.below
  total := h.total
  networkTotal := h.networkTotal
  keys := hkeys
  ids := by
    show (connectedIds m).Nodup
    rw [hids]
    exact h.ids
  clients := by
    show ∀ id, id ∈ connectedIds m ↔ _
    rw [hids]
    exact h.clients

theorem RecordsSlots.withSent (h : RecordsSlots s taken) (sent : List WifiPacket) :
    RecordsSlots { s with sent } taken :=
  h.withMap h.keys rfl sent

/-- An authentication frame changes nothing, or lets a client in. -/
theorem hostStep_authentication (hinit : s.initialized = true) (client : MacAddress)
    (seq : AuthenticationSeq) :
    ∃ t, hostStep s (.authentication client seq) = .ok t ∧
      (t = s ∨ s.connectionStatus.status = .connectedAsHost ∧ s.nodeMap.find client = none ∧
        s.connectionStatus.maxNodes ≠ s.connectionStatus.totalNodes ∧
        ∃ sent, t = { s with nodeMap := s.nodeMap.set client {}, sent }) := by
  have hstep : hostStep s (.authentication client seq) = s.handleAuthenticationFrame
      (clientFrame s .authentication client (generateAuthenticationFrame seq)) := by
    unfold hostStep NwmUds.onWifiPacketReceived
    rw [hinit]
    rfl
  rw [hstep]
  unfold NwmUds.handleAuthenticationFrame clientFrame
  dsimp only
  rw [getAuthenticationSeqNumber_frame, ok_bind]
  by_cases hseq : seq.value = AuthenticationSeq.seq1.value
  case neg =>
    rw [if_pos hseq]
    exact ⟨s, rfl, Or.inl rfl⟩
  rw [if_neg (not_not.mpr hseq)]
  by_cases hstatus : s.connectionStatus.status = .connectedAsHost
  case neg =>
    rw [if_pos hstatus]
    exact ⟨s, rfl, Or.inl rfl⟩
  rw [if_neg (not_not.mpr hstatus)]
  cases hfind : s.nodeMap.find client with
  | some node => exact ⟨s, if_pos rfl, Or.inl rfl⟩
  | none =>
      by_cases hfull : s.connectionStatus.maxNodes = s.connectionStatus.totalNodes
      · rw [if_pos hfull]
        exact ⟨s, rfl, Or.inl rfl⟩
      · rw [if_neg hfull]
        refine ⟨_, rfl, Or.inr ⟨hstatus, rfl, hfull, ?_⟩⟩
        rw [NwmUds.sendPacket_eq]
        unfold NwmUds.sendAssociationResponseFrame
        rw [if_neg (not_not.mpr hstatus), NwmUds.sendPacket_eq]
        exact ⟨_, rfl⟩

theorem hostStep_eapolStart (hinit : s.initialized = true) (associationId : UInt16)
    (node : NodeInfo) :
    hostStep s (.eapolStart client associationId node) = s.handleEAPoLStart
      (clientFrame s .data client (generateEAPoLStartFrame associationId node)) := by
  unfold hostStep NwmUds.onWifiPacketReceived
  rw [hinit]
  unfold clientFrame NwmUds.handleDataFrame NwmUds.handleEAPoLPacket
  dsimp only
  rw [if_neg (by decide), getFrameEtherType_startFrame, ok_bind, if_pos rfl,
    getEAPoLFrameType_startFrame, ok_bind, if_pos rfl]

theorem hostStep_deauthentication (hinit : s.initialized = true) :
    hostStep s (.deauthentication client) =
      s.handleDeauthenticationFrame (clientFrame s .deauthentication client []) := by
  unfold hostStep NwmUds.onWifiPacketReceived
  rw [hinit]
  rfl

/-- The clients that have been let in do not count before they are connected. -/
theorem RecordsSlots.authentication (h : RecordsSlots s taken)
    (hfind : s.nodeMap.find client = none) (sent : List WifiPacket) :
    RecordsSlots { s with nodeMap := s.nodeMap.set client {}, sent } taken := by
  have hset : s.nodeMap.set client {} = NodeMap.insertNew client {} s.nodeMap := by
    unfold NodeMap.set
    rw [hfind]
    rfl
  rw [hset]
  apply h.withMap _ (connectedIds_insertNew rfl)
  rw [keys_insertNew.nodup_iff, List.nodup_cons]
  exact ⟨find_eq_none_iff.mp hfind, h.keys⟩

/-- The first slot that is free, as the host finds it. -/
theorem RecordsSlots.isFirstFreeSlot (h : RecordsSlots s taken) {i : ℕ}
    (hi : i < s.connectionStatus.maxNodes.toNat) (hfree : i ∉ taken) (hfirst : ∀ j < i, j ∈ taken) :
    IsFirstFreeSlot s.connectionStatus i := by
  refine ⟨hi, ?_, fun j hj => ?_⟩
  · rw [h.mask i, decide_eq_false hfree]
  · rw [h.mask j, decide_eq_true (hfirst j hj)]

/-- A client that takes the slot enters every record. -/
theorem RecordsSlots.takeSlot (h : RecordsSlots s taken) {known : Node} (node : NodeInfo) {i : ℕ}
    (hfind : s.nodeMap.find client = some known) (hknown : known.connected = false)
    (hi : i < udsMaxNodes) (hmax : i < s.connectionStatus.maxNodes.toNat) (hfree : i ∉ taken) :
    ∃ t, s.takeSlot client node (slotId i) = .ok t ∧ t.initialized = s.initialized ∧
      RecordsSlots t (insert i taken) := by
  have hindex : (slotId i).toNat - 1 = i := by
    rw [toNat_slotId_of_lt hi, Nat.add_sub_cancel]
  have hplaces : s.nodeInfo.length = s.connectionStatus.maxNodes.toNat := by
    have hlength := congrArg List.length h.list
    rwa [List.length_map, length_slotArray] at hlength
  have hcard : taken.card < s.connectionStatus.maxNodes.toNat := by
    have hsub : insert i taken ⊆ Finset.range s.connectionStatus.maxNodes.toNat := by
      intro j hj
      rcases Finset.mem_insert.mp hj with rfl | hj
      · exact Finset.mem_range.mpr hmax
      · exact Finset.mem_range.mpr (h.below j hj)
    have hle := Finset.card_le_card hsub
    rw [Finset.card_insert_of_notMem hfree, Finset.card_range] at hle
    omega
  have hbyte := s.connectionStatus.maxNodes.toNat_lt
  have hinserted : (insert i taken).card = taken.card + 1 := Finset.card_insert_of_notMem hfree
  have hconnects : (connectedIds (s.nodeMap.set client ⟨true, slotId i⟩)).Perm
      (slotId i :: connectedIds s.nodeMap) ∧
        (s.nodeMap.set client ⟨true, slotId i⟩).map Prod.fst = s.nodeMap.map Prod.fst :=
    connectedIds_set h.keys hfind hknown rfl
  obtain ⟨hperm, hkeys⟩ := hconnects
  have hnotin : slotId i ∉ connectedIds s.nodeMap := by
    intro hmem
    obtain ⟨j, hj, -, hid⟩ := (h.clients _).mp hmem
    have hsame := slotId_injOn (h.lt hj) hi hid
    exact hfree (hsame ▸ hj)
  unfold NwmUds.takeSlot Block.write writeAt
  dsimp only
  rw [hindex, if_pos hi, ok_bind, if_pos (by omega), ok_bind]
  refine ⟨_, rfl, rfl, ?_⟩
  constructor
  case status => exact h.status
  case capacity => exact h.capacity
  case networkMax => exact h.networkMax
  case mask => exact marksSlots_or_nodeBit h.mask hi
  case array =>
    show s.connectionStatus.nodes.1.set i (slotId i) = _
    rw [h.array]
    exact slotArray_insert
  case list =>
    show (s.nodeInfo.set i { node with networkNodeId := slotId i }).map NodeInfo.networkNodeId = _
    rw [List.map_set, h.list]
    exact slotArray_insert
  case host => exact Finset.mem_insert_of_mem h.host
  case below =>
    intro j hj
    rcases Finset.mem_insert.mp hj with rfl | hj
    · exact hmax
    · exact h.below j hj
  case total =>
    rw [hinserted]
    exact toNat_add_one h.total (by omega)
  case networkTotal =>
    rw [hinserted]
    exact toNat_add_one h.networkTotal (by omega)
  case keys =>
    show ((s.nodeMap.set client _).map Prod.fst).Nodup
    rw [hkeys]
    exact h.keys
  case ids => exact hperm.nodup_iff.mpr (List.nodup_cons.mpr ⟨hnotin, h.ids⟩)
  case clients =>
    intro id
    show id ∈ connectedIds (s.nodeMap.set client _) ↔ _
    rw [hperm.mem_iff, List.mem_cons, h.clients]
    constructor
    · rintro (rfl | ⟨j, hj, hne, hid⟩)
      · exact ⟨i, Finset.mem_insert_self i taken, fun hzero => hfree (hzero ▸ h.host), rfl⟩
      · exact ⟨j, Finset.mem_insert_of_mem hj, hne, hid⟩
    · rintro ⟨j, hj, hne, hid⟩
      rcases Finset.mem_insert.mp hj with rfl | hj
      · exact Or.inl hid.symm
      · exact Or.inr ⟨j, hj, hne, hid⟩

theorem announceSlot_ok (nodeId : UInt16)
    (h : s.networkInfo.maxNodes.toNat ≤ min s.nodeInfo.length udsMaxNodes) :
    ∃ sent, announceSlot nodeId s = .ok { s with sent } := by
  have hdata : ∃ data, generateEAPoLLogoffFrame nodeId s.nodeInfo s.networkInfo.maxNodes
      s.networkInfo.totalNodes = .ok data := by
    unfold generateEAPoLLogoffFrame
    rw [readRun_eq_ok.mpr ⟨by omega, rfl⟩, ok_bind, writeRun_ok]
    · exact ⟨_, rfl⟩
    · rw [Nat.zero_add, List.drop_zero, List.length_take, List.length_replicate]
      omega
  obtain ⟨data, hdata⟩ := hdata
  unfold announceSlot NwmUds.broadcastNodeMap
  dsimp only
  rw [NwmUds.sendPacket_eq]
  dsimp only
  rw [hdata, ok_bind, NwmUds.sendPacket_eq]
  exact ⟨_, rfl⟩

/-- A client that starts while there is a slot left gets it. -/
theorem RecordsSlots.eapolStart (h : RecordsSlots s taken) (hinit : s.initialized = true)
    {known : Node} (hfind : s.nodeMap.find client = some known) (hknown : known.connected = false)
    (hroom : s.connectionStatus.totalNodes < s.connectionStatus.maxNodes)
    (hsixteen : s.connectionStatus.maxNodes.toNat ≤ udsMaxNodes) (associationId : UInt16)
    (node : NodeInfo) :
    ∃ t, hostStep s (.eapolStart client associationId node) = .ok t ∧ t.initialized = true ∧
      ∃ taken', RecordsSlots t taken' := by
  have hcard : taken.card < s.connectionStatus.maxNodes.toNat := by
    rw [← h.total]
    exact UInt8.lt_iff_toNat_lt.mp hroom
  obtain ⟨i, hmax, hfree, hfirst⟩ := exists_first_free hcard
  have hi : i < udsMaxNodes := Nat.lt_of_lt_of_le hmax hsixteen
  have hslot : s.getNextAvailableNodeId = .ok (slotId i) :=
    getNextAvailableNodeId_eq_ok.mpr ⟨i, h.isFirstFreeSlot hmax hfree hfirst, rfl⟩
  obtain ⟨record, hrecord⟩ := @exists_deserialize_startFrame associationId node
  obtain ⟨t, ht, hinit', hrecords⟩ := h.takeSlot record hfind hknown hi hmax hfree
  have hplaces : t.nodeInfo.length = t.networkInfo.maxNodes.toNat := by
    have hlength := congrArg List.length hrecords.list
    rwa [List.length_map, length_slotArray, ← hrecords.networkMax] at hlength
  have hsame : t.networkInfo.maxNodes = s.networkInfo.maxNodes := (sizes_of_takeSlot ht).2
  have hannounced : t.networkInfo.maxNodes.toNat ≤ min t.nodeInfo.length udsMaxNodes := by
    rw [hplaces, hsame, h.networkMax, Nat.min_eq_left hsixteen]
  obtain ⟨sent, hannounce⟩ := announceSlot_ok (slotId i) hannounced
  refine ⟨{ t with sent }, ?_, hinit'.trans hinit, insert i taken, hrecords.withSent sent⟩
  rw [hostStep_eapolStart hinit]
  unfold NwmUds.handleEAPoLStart clientFrame
  dsimp only
  rw [if_neg (not_not.mpr h.status), hfind]
  dsimp only
  have hdiffer : s.connectionStatus.maxNodes ≠ s.connectionStatus.totalNodes := by
    intro heq
    rw [heq] at hroom
    exact absurd hroom (UInt8.lt_irrefl _)
  have hassert : assert (s.connectionStatus.maxNodes ≠ s.connectionStatus.totalNodes)
      .networkFull = .ok () := assert_eq_ok.mpr hdiffer
  rw [if_neg (by rw [hknown]; decide), hassert, ok_bind, hrecord, ok_bind, hslot, ok_bind, ht,
    ok_bind]
  exact hannounce

/-- The record of a slot is found by its id. -/
theorem RecordsSlots.findIdx?_slotId (h : RecordsSlots s taken) {i : ℕ} (hi : i ∈ taken) :
    (s.nodeInfo.findIdx? fun info => info.networkNodeId = slotId i) = some i := by
  have hlength := congrArg List.length h.list
  rw [List.length_map, length_slotArray] at hlength
  have hget : ∀ j (hj : j < s.nodeInfo.length), s.nodeInfo[j].networkNodeId =
      if j ∈ taken then slotId j else 0 := by
    intro j hj
    have hentry : (s.nodeInfo.map NodeInfo.networkNodeId)[j]? =
        some (if j ∈ taken then slotId j else 0) := by
      rw [h.list, getElem?_slotArray (by omega)]
    rw [List.getElem?_map, List.getElem?_eq_getElem hj] at hentry
    exact Option.some.inj hentry
  have hinside : i < s.nodeInfo.length := by
    rw [hlength]
    exact h.below i hi
  rw [List.findIdx?_eq_some_iff_getElem]
  refine ⟨hinside, ?_, fun j hj => ?_⟩
  · rw [hget i hinside, if_pos hi]
    exact decide_eq_true rfl
  · rw [hget j (by omega)]
    by_cases hmem : j ∈ taken
    · rw [if_pos hmem, decide_eq_true_iff]
      exact fun heq => absurd (slotId_injOn (h.lt hmem) (h.lt hi) heq) (by omega)
    · rw [if_neg hmem, decide_eq_true_iff]
      exact fun heq => slotId_ne_zero (h.lt hi) heq.symm

/-- A client that leaves the slot leaves every record. -/
theorem RecordsSlots.freeSlot (h : RecordsSlots s taken) {m : NodeMap} {i : ℕ} (hi : i ∈ taken)
    (hne : i ≠ 0) (hkeys : (m.map Prod.fst).Nodup)
    (herase : (connectedIds s.nodeMap).Perm (slotId i :: connectedIds m)) :
    ∃ t, NwmUds.freeSlot { s with nodeMap := m } (slotId i) = .ok t ∧
      t.initialized = s.initialized ∧ RecordsSlots t (taken.erase i) := by
  have hlt := h.lt hi
  have hindex : (slotId i).toNat - 1 = i := by
    rw [toNat_slotId_of_lt hlt, Nat.add_sub_cancel]
  have hpositive : 0 < taken.card := Finset.card_pos.mpr ⟨i, hi⟩
  have herased : (taken.erase i).card = taken.card - 1 := Finset.card_erase_of_mem hi
  have hnodup := List.nodup_cons.mp (herase.nodup_iff.mp h.ids)
  unfold NwmUds.freeSlot Block.write
  dsimp only
  rw [h.findIdx?_slotId hi]
  dsimp only
  rw [if_neg (slotId_ne_zero hlt), ok_bind, hindex, if_pos hlt, ok_bind]
  refine ⟨_, rfl, rfl, ?_⟩
  constructor
  case status => exact h.status
  case capacity => exact h.capacity
  case networkMax => exact h.networkMax
  case mask => exact marksSlots_andNot_nodeBit h.mask hlt
  case array =>
    show s.connectionStatus.nodes.1.set i 0 = _
    rw [h.array]
    exact slotArray_erase
  case list =>
    show (s.nodeInfo.modify i NodeInfo.reset).map NodeInfo.networkNodeId = _
    rw [map_id_modify_reset, h.list]
    exact slotArray_erase
  case host => exact Finset.mem_erase.mpr ⟨fun hzero => hne hzero.symm, h.host⟩
  case below => exact fun j hj => h.below j (Finset.mem_of_mem_erase hj)
  case total =>
    rw [herased]
    exact toNat_sub_one h.total hpositive
  case networkTotal =>
    rw [herased]
    exact toNat_sub_one h.networkTotal hpositive
  case keys => exact hkeys
  case ids => exact hnodup.2
  case clients =>
    intro id
    have hclients := h.clients id
    rw [herase.mem_iff, List.mem_cons] at hclients
    show id ∈ connectedIds m ↔ _
    constructor
    · intro hid
      obtain ⟨j, hj, hjne, hjid⟩ := hclients.mp (Or.inr hid)
      refine ⟨j, Finset.mem_erase.mpr ⟨fun hji => ?_, hj⟩, hjne, hjid⟩
      rw [hji] at hjid
      exact hnodup.1 (hjid ▸ hid)
    · rintro ⟨j, hj, hjne, hjid⟩
      obtain ⟨hji, hj⟩ := Finset.mem_erase.mp hj
      rcases hclients.mpr ⟨j, hj, hjne, hjid⟩ with heq | hmem
      · exact absurd (slotId_injOn (h.lt hj) hlt (hjid.trans heq)) hji
      · exact hmem

/-- A client that is connected gives its slot back, and others are only forgotten. -/
theorem RecordsSlots.deauthentication (h : RecordsSlots s taken) (hinit : s.initialized = true)
    (client : MacAddress) :
    ∃ t, hostStep s (.deauthentication client) = .ok t ∧ t.initialized = true ∧
      ∃ taken', RecordsSlots t taken' := by
  rw [hostStep_deauthentication hinit]
  unfold NwmUds.handleDeauthenticationFrame clientFrame
  dsimp only
  rw [if_neg (not_not.mpr h.status)]
  cases hfind : s.nodeMap.find client with
  | none => exact ⟨s, rfl, hinit, taken, h⟩
  | some node =>
      have herase := connectedIds_erase h.keys hfind
      have hkeys : ((s.nodeMap.erase client).map Prod.fst).Nodup := nodup_keys_erase h.keys
      dsimp only
      cases hcon : node.connected with
      | false =>
          rw [hcon, if_neg (by decide)] at herase
          exact ⟨_, rfl, hinit, taken, h.withMap hkeys herase s.sent⟩
      | true =>
          rw [hcon, if_pos rfl] at herase
          obtain ⟨i, hi, hne, hid⟩ :=
            (h.clients _).mp (herase.mem_iff.mpr List.mem_cons_self)
          rw [← hid] at herase ⊢
          obtain ⟨t, ht, hinit', hrecords⟩ := h.freeSlot hi hne hkeys herase
          exact ⟨t, ht, hinit'.trans hinit, taken.erase i, hrecords⟩

/-- Hosting begins with one slot taken, if no client has one. -/
theorem beginHosting_records {networkInfo : NetworkInfo} (hmax : 1 < networkInfo.maxNodes)
    (hdata : networkInfo.applicationDataSize.toNat ≤ applicationDataSize)
    (hmask : MarksSlots s.connectionStatus.nodeBitmask.toNat taken)
    (harray : s.connectionStatus.nodes.1 = slotArray 0 slotId udsMaxNodes taken)
    (htaken : insert 0 taken = {0}) (hkeys : (s.nodeMap.map Prod.fst).Nodup)
    (hids : connectedIds s.nodeMap = []) :
    ∃ t, s.beginHostingNetwork networkInfo = .ok t ∧ t.initialized = s.initialized ∧
      RecordsSlots t {0} := by
  have hone : 1 < networkInfo.maxNodes.toNat := UInt8.lt_iff_toNat_lt.mp hmax
  have hassert : assert (networkInfo.maxNodes > 1) .hostMaxNodes = .ok () :=
    assert_eq_ok.mpr hmax
  have hfits : assert (networkInfo.applicationDataSize.toNat ≤ applicationDataSize)
      .applicationDataSize = .ok () := assert_eq_ok.mpr hdata
  unfold NwmUds.beginHostingNetwork Block.write writeAt
  rw [hassert, ok_bind, hfits, ok_bind]
  dsimp only
  rw [if_pos (by decide), ok_bind, if_pos (by rw [List.length_replicate]; omega), ok_bind]
  refine ⟨_, rfl, rfl, ?_⟩
  have hclients : ∀ id, id ∈ connectedIds s.nodeMap ↔ ∃ i ∈ ({0} : Finset ℕ), i ≠ 0 ∧
      slotId i = id := by
    intro id
    rw [hids]
    constructor
    · intro h
      cases h
    · rintro ⟨i, hi, hne, -⟩
      exact absurd (Finset.mem_singleton.mp hi) hne
  constructor
  case status => rfl
  case capacity => exact hone
  case networkMax => rfl
  case mask =>
    have hbit := marksSlots_or_nodeBit hmask (i := 0) (by decide)
    rw [htaken] at hbit
    exact hbit
  case array =>
    show s.connectionStatus.nodes.1.set 0 (slotId 0) = _
    rw [harray, slotArray_insert, htaken]
  case list =>
    show ((List.replicate networkInfo.maxNodes.toNat (default : NodeInfo)).set 0
      { s.currentNode with networkNodeId := slotId 0 }).map NodeInfo.networkNodeId = _
    rw [List.map_set, List.map_replicate]
    have hempty : List.replicate networkInfo.maxNodes.toNat (default : NodeInfo).networkNodeId =
        slotArray 0 slotId networkInfo.maxNodes.toNat ∅ := slotArray_empty.symm
    rw [hempty]
    exact slotArray_insert
  case host => exact Finset.mem_singleton_self 0
  case below =>
    intro i hi
    rw [Finset.mem_singleton.mp hi]
    show 0 < networkInfo.maxNodes.toNat
    omega
  case total => rfl
  case networkTotal => rfl
  case keys => exact hkeys
  case ids =>
    show (connectedIds s.nodeMap).Nodup
    rw [hids]
    exact List.nodup_nil
  case clients => exact hclients

/-- Hosting that begins with clients in the records leaves them in the mask, but counts one node. -/
theorem RecordsSlots.beginHosting_disagrees (h : RecordsSlots s taken) {networkInfo : NetworkInfo}
    (hclient : ¬ ∀ entry ∈ s.nodeMap, entry.2.connected = false)
    (ht : s.beginHostingNetwork networkInfo = .ok t) : ¬ AgreesOnMembers t := by
  intro hagrees
  have hclients : ∃ i ∈ taken, i ≠ 0 := by
    by_contra hnone
    apply hclient
    intro entry hentry
    by_contra hcon
    have hmem : entry.2.nodeId ∈ connectedIds s.nodeMap :=
      List.mem_map_of_mem (List.mem_filter.mpr ⟨hentry, eq_true_of_ne_false hcon⟩)
    obtain ⟨i, hi, hne, -⟩ := (h.clients _).mp hmem
    exact hnone ⟨i, hi, hne⟩
  obtain ⟨i, hi, hne⟩ := hclients
  obtain ⟨-, -, hrest⟩ := bind_eq_ok.mp ht
  obtain ⟨-, -, hrest⟩ := bind_eq_ok.mp hrest
  obtain ⟨nodes, -, hrest⟩ := bind_eq_ok.mp hrest
  obtain ⟨nodeInfo, -, hpure⟩ := bind_eq_ok.mp hrest
  cases hpure
  have hmask : MarksSlots (s.connectionStatus.nodeBitmask ||| nodeBit 0).toNat (insert 0 taken) :=
    marksSlots_or_nodeBit h.mask (by decide)
  have htwo : ({slotId 0, slotId i} : Finset UInt16).card ≤ 1 := by
    refine Nat.le_trans (Finset.card_le_card ?_) (Nat.le_of_eq hagrees.total.symm)
    intro id hid
    unfold maskIds
    rw [Finset.mem_image]
    rcases Finset.mem_insert.mp hid with rfl | hid
    · exact ⟨0, Finset.mem_filter.mpr ⟨by decide,
        (hmask 0).trans (decide_eq_true (Finset.mem_insert_self 0 taken))⟩, rfl⟩
    · rw [Finset.mem_singleton.mp hid]
      exact ⟨i, Finset.mem_filter.mpr ⟨Finset.mem_range.mpr (h.lt hi),
        (hmask i).trans (decide_eq_true (Finset.mem_insert_of_mem hi))⟩, rfl⟩
  rw [Finset.card_pair fun heq => hne (slotId_injOn (by decide) (h.lt hi) heq).symm] at htwo
  exact absurd htwo (by decide)

end Steps

section Runs

variable {s : NwmUds} {taken : Finset ℕ}

theorem initialized_beginHosting {networkInfo : NetworkInfo} {t : NwmUds}
    (h : s.beginHostingNetwork networkInfo = .ok t) :
    1 < networkInfo.maxNodes ∧ networkInfo.applicationDataSize.toNat ≤ applicationDataSize ∧
      IsHosting t := by
  obtain ⟨_, hmax, hrest⟩ := bind_eq_ok.mp h
  obtain ⟨_, hdata, hrest⟩ := bind_eq_ok.mp hrest
  obtain ⟨nodes, _, hrest⟩ := bind_eq_ok.mp hrest
  obtain ⟨nodeInfo, _, hpure⟩ := bind_eq_ok.mp hrest
  cases hpure
  have hone : 1 < networkInfo.maxNodes := assert_eq_ok.mp hmax
  refine ⟨hone, assert_eq_ok.mp hdata, rfl, fun hzero => ?_⟩
  have hzero' : networkInfo.maxNodes = 0 := hzero
  rw [hzero'] at hone
  exact absurd hone (by decide)

/-- Without a network only the beginning of one changes the records. -/
theorem HostsNothing.step (h : HostsNothing s) (hinit : s.initialized = true) (event : HostEvent)
    (hc : KeepsAgreement s event) : ∃ t, hostStep s event = .ok t ∧ HostInvariant t := by
  obtain ⟨status, networkNodeId, heq, hstatus⟩ := h.status
  have hnone : ∀ client, s.nodeMap.find client = none := by
    intro client
    rw [h.nodeMap]
    rfl
  have hkeep : HostInvariant s := ⟨hinit, Or.inr h⟩
  cases event with
  | beginHostingNetwork networkInfo =>
      have hmask : MarksSlots s.connectionStatus.nodeBitmask.toNat ∅ := by
        rw [heq]
        exact marksSlots_zero
      have harray : s.connectionStatus.nodes.1 = slotArray 0 slotId udsMaxNodes ∅ := by
        rw [heq, slotArray_empty]
        rfl
      obtain ⟨t, ht, hinit', hrecords⟩ := beginHosting_records hc.1 hc.2.1 hmask harray rfl
        (by rw [h.nodeMap]; exact List.nodup_nil) (by rw [h.nodeMap]; rfl)
      exact ⟨t, ht, hinit'.trans hinit, Or.inl ⟨_, hrecords⟩⟩
  | authentication client seq =>
      obtain ⟨t, ht, rfl | ⟨-, -, hroom, -⟩⟩ := hostStep_authentication hinit client seq
      · exact ⟨t, ht, hkeep⟩
      · rw [heq] at hroom
        exact absurd rfl hroom
  | eapolStart client associationId node =>
      refine ⟨s, ?_, hkeep⟩
      rw [hostStep_eapolStart hinit]
      unfold NwmUds.handleEAPoLStart clientFrame
      dsimp only
      rw [hnone client]
      exact ite_self _
  | deauthentication client =>
      refine ⟨s, ?_, hkeep⟩
      rw [hostStep_deauthentication hinit]
      unfold NwmUds.handleDeauthenticationFrame clientFrame
      dsimp only
      rw [hnone client]
      exact ite_self _
  | disconnectNetwork =>
      refine ⟨_, rfl, ?_⟩
      unfold NwmUds.disconnectNetwork
      dsimp only
      split
      · exact ⟨hinit, Or.inr ⟨rfl, _, _, rfl, Or.inr rfl⟩⟩
      · rw [NwmUds.sendPacket_eq]
        exact ⟨hinit, Or.inr ⟨rfl, _, _, rfl, Or.inl rfl⟩⟩
  | destroyNetwork =>
      refine ⟨_, rfl, ?_⟩
      unfold NwmUds.destroyNetwork
      split
      · exact hkeep
      · exact ⟨hinit, Or.inr ⟨rfl, _, _, rfl, Or.inl rfl⟩⟩

/-- A host keeps its records in agreement. -/
theorem RecordsSlots.step (h : RecordsSlots s taken) (hinit : s.initialized = true)
    (event : HostEvent) (hc : KeepsAgreement s event) :
    ∃ t, hostStep s event = .ok t ∧ HostInvariant t := by
  cases event with
  | beginHostingNetwork networkInfo =>
      obtain ⟨hmax, hdata, hclients⟩ := hc
      have hids : connectedIds s.nodeMap = [] := by
        unfold connectedIds
        rw [List.map_eq_nil_iff, List.filter_eq_nil_iff]
        intro entry hentry hcon
        rw [hclients h.isHosting entry hentry] at hcon
        cases hcon
      have htaken : insert 0 taken = {0} := by
        ext i
        rw [Finset.mem_insert, Finset.mem_singleton]
        constructor
        · rintro (hzero | hi)
          · exact hzero
          · by_contra hne
            have hmem := (h.clients (slotId i)).mpr ⟨i, hi, hne, rfl⟩
            rw [hids] at hmem
            cases hmem
        · exact Or.inl
      obtain ⟨t, ht, hinit', hrecords⟩ :=
        beginHosting_records hmax hdata h.mask h.array htaken h.keys hids
      exact ⟨t, ht, hinit'.trans hinit, Or.inl ⟨_, hrecords⟩⟩
  | authentication client seq =>
      obtain ⟨t, ht, rfl | ⟨-, hfind, -, sent, rfl⟩⟩ :=
        hostStep_authentication hinit client seq
      · exact ⟨t, ht, hinit, Or.inl ⟨taken, h⟩⟩
      · exact ⟨_, ht, hinit, Or.inl ⟨taken, h.authentication hfind sent⟩⟩
  | eapolStart client associationId node =>
      have hstay : s.handleEAPoLStart
          (clientFrame s .data client (generateEAPoLStartFrame associationId node)) = .ok s →
          ∃ t, hostStep s (.eapolStart client associationId node) = .ok t ∧ HostInvariant t := by
        intro hsame
        rw [hostStep_eapolStart hinit]
        exact ⟨s, hsame, hinit, Or.inl ⟨taken, h⟩⟩
      unfold NwmUds.handleEAPoLStart clientFrame at hstay
      dsimp only at hstay
      rw [if_neg (not_not.mpr h.status)] at hstay
      cases hfind : s.nodeMap.find client with
      | none =>
          rw [hfind] at hstay
          exact hstay rfl
      | some known =>
          rw [hfind] at hstay
          dsimp only at hstay
          cases hknown : known.connected with
          | true =>
              rw [hknown] at hstay
              exact hstay (if_pos rfl)
          | false =>
              obtain ⟨hroom, hsixteen⟩ := hc h.isHosting known hfind hknown
              obtain ⟨t, ht, hinit', hrecords⟩ :=
                h.eapolStart hinit hfind hknown hroom hsixteen associationId node
              exact ⟨t, ht, hinit', Or.inl hrecords⟩
  | deauthentication client =>
      obtain ⟨t, ht, hinit', hrecords⟩ := h.deauthentication hinit client
      exact ⟨t, ht, hinit', Or.inl hrecords⟩
  | disconnectNetwork =>
      refine ⟨_, rfl, ?_⟩
      unfold NwmUds.disconnectNetwork
      dsimp only
      rw [if_pos h.status]
      exact ⟨hinit, Or.inr ⟨rfl, _, _, rfl, Or.inr rfl⟩⟩
  | destroyNetwork =>
      refine ⟨_, rfl, ?_⟩
      unfold NwmUds.destroyNetwork
      rw [if_neg (not_not.mpr h.status)]
      exact ⟨hinit, Or.inr ⟨rfl, _, _, rfl, Or.inl rfl⟩⟩

theorem recordsSlots_of_isHosting (h : HostInvariant s) (hhosting : IsHosting s) :
    ∃ taken, RecordsSlots s taken := by
  rcases h.2 with hrecords | hnothing
  · exact hrecords
  · exact absurd hhosting hnothing.not_isHosting

/-- A client that starts when it may not get a slot ends the run. -/
theorem RecordsSlots.eapolStart_faults (h : RecordsSlots s taken) (hinit : s.initialized = true)
    {client : MacAddress} {known : Node} (hfind : s.nodeMap.find client = some known)
    (hknown : known.connected = false)
    (hroom : ¬ (s.connectionStatus.totalNodes < s.connectionStatus.maxNodes ∧
      s.connectionStatus.maxNodes.toNat ≤ udsMaxNodes)) (associationId : UInt16)
    (node : NodeInfo) (t : NwmUds) :
    hostStep s (.eapolStart client associationId node) ≠ .ok t := by
  intro ht
  rw [hostStep_eapolStart hinit] at ht
  by_cases hfull : s.connectionStatus.maxNodes = s.connectionStatus.totalNodes
  · unfold NwmUds.handleEAPoLStart clientFrame at ht
    dsimp only at ht
    rw [if_neg (not_not.mpr h.status), hfind] at ht
    dsimp only at ht
    rw [if_neg (by rw [hknown]; decide)] at ht
    obtain ⟨_, hassert, -⟩ := bind_eq_ok.mp ht
    exact assert_eq_ok.mp hassert hfull
  · have hcard := h.card_le
    rw [← h.total] at hcard
    have hless : s.connectionStatus.totalNodes.toNat < s.connectionStatus.maxNodes.toNat :=
      Nat.lt_of_le_of_ne hcard fun heq => hfull (UInt8.toNat_inj.mp heq.symm)
    have hfits : StartFits s
        (clientFrame s .data client (generateEAPoLStartFrame associationId node)) := by
      rw [← handleEAPoLStart_ne_undefined_iff, ht]
      exact ok_ne_error t
    obtain ⟨-, hslots⟩ := hfits h.status known hfind hknown hfull
    have hfree : taken.card < s.connectionStatus.maxNodes.toNat := by
      rw [← h.total]
      exact hless
    obtain ⟨i, hi, hnot, hfirst⟩ := exists_first_free hfree
    obtain ⟨-, -, hsixteen⟩ := hslots i (h.isFirstFreeSlot hi hnot hfirst)
    rw [h.networkMax] at hsixteen
    exact hroom ⟨UInt8.lt_iff_toNat_lt.mpr hless, Nat.le_trans hsixteen (Nat.min_le_right _ _)⟩

/-- A step that breaks the condition faults or leaves the records in disagreement. -/
theorem not_membershipHolds_of_step (h : HostInvariant s) {event : HostEvent}
    (hc : ¬ KeepsAgreement s event) {t : NwmUds} (ht : hostStep s event = .ok t) :
    ¬ MembershipHolds t := by
  intro hholds
  apply hc
  cases event with
  | beginHostingNetwork networkInfo =>
      obtain ⟨hmax, hdata, hhosting'⟩ := initialized_beginHosting ht
      refine ⟨hmax, hdata, fun hhosting => ?_⟩
      obtain ⟨taken, hrecords⟩ := recordsSlots_of_isHosting h hhosting
      by_contra hclient
      exact hrecords.beginHosting_disagrees hclient ht (hholds hhosting')
  | eapolStart client associationId node =>
      intro hhosting known hfind hknown
      obtain ⟨taken, hrecords⟩ := recordsSlots_of_isHosting h hhosting
      by_contra hroom
      exact hrecords.eapolStart_faults h.1 hfind hknown hroom associationId node t ht
  | authentication client seq => trivial
  | deauthentication client => trivial
  | disconnectNetwork => trivial
  | destroyNetwork => trivial

/-- A run of a host gets to its end with the records in agreement while a network is hosted, exactly
when each of its steps meets the condition. -/
theorem hostMembership_iff (s : NwmUds) (hready : ReadyToHost s) (events : List HostEvent) :
    Completes hostStep MembershipHolds s events ↔ EveryStep hostStep KeepsAgreement s events := by
  apply completes_iff_everyStep (q := HostInvariant)
  · exact fun s h => membershipHolds_of_invariant h
  · intro s event h hc
    rcases h.2 with ⟨taken, hrecords⟩ | hnothing
    · exact hrecords.step h.1 event hc
    · exact hnothing.step h.1 event hc
  · exact fun s event t h hc ht => not_membershipHolds_of_step h hc ht
  · obtain ⟨hinit, hmap, networkNodeId, hstatus⟩ := hready
    exact ⟨hinit, Or.inr ⟨hmap, _, _, hstatus, Or.inl rfl⟩⟩

/-- A game that has initialized the service. -/
def freshHost : NwmUds := NwmUds.initializeUds { roomMember := none } {}

theorem hostMembership_iff_twoNodes :
    Completes hostStep MembershipHolds freshHost [.beginHostingNetwork { maxNodes := 2 }] := by
  have hready : ReadyToHost freshHost := ⟨rfl, rfl, 0, rfl⟩
  apply (hostMembership_iff freshHost hready _).mpr
  refine ⟨⟨by decide, by decide, fun hhosting => ?_⟩, fun _ _ => trivial⟩
  exact absurd hhosting.1 (by decide)

/-- Two clients are let in while one of the two places is left; the second one to start finds none,
and the assertion fails. -/
theorem hostMembership_lastSlot :
    ¬ ∀ events, Completes hostStep MembershipHolds freshHost events := by
  intro hall
  obtain ⟨t, ht⟩ := (hall
    [.beginHostingNetwork { maxNodes := 2 }, .authentication (Block.replicate 6 1) .seq1,
      .authentication (Block.replicate 6 2) .seq1, .eapolStart (Block.replicate 6 1) 1 {},
      .eapolStart (Block.replicate 6 2) 1 {}]).exists_run
  have hfault : (run hostStep freshHost
    [.beginHostingNetwork { maxNodes := 2 }, .authentication (Block.replicate 6 1) .seq1,
      .authentication (Block.replicate 6 2) .seq1, .eapolStart (Block.replicate 6 1) 1 {},
      .eapolStart (Block.replicate 6 2) 1 {}]).toBool = false := by
    decide
  rw [ht] at hfault
  cases hfault

end Runs

end Borked3DS.Analysis
