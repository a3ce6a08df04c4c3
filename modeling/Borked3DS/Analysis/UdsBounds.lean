import Borked3DS.Library.FaultAvoidance
import Borked3DS.Interface.LocalNetworks

/-!
# Packets that the service handles within their bounds

For each handler exactly which packets it handles without an access outside the packet and the
arrays, and from it the same for whole runs of the service.
-/

set_option autoImplicit false

namespace Borked3DS.Analysis

open Borked3DS.Library Borked3DS.Model Borked3DS.Model.Network Borked3DS.Model.NWM
open Borked3DS.Interface

section Arrays

variable {α : Type}

theorem assert_ne_undefined {c : Prop} [Decidable c] {site : AssertSite} :
    assert c site ≠ .error .undefined := by
  unfold assert
  rw [ite_ne_error_iff]
  exact ⟨fun _ => ok_ne_error _, fun _ h => by cases h⟩

/-- What follows an assertion counts when the assertion holds. -/
theorem assert_bind_ne_undefined_iff {c : Prop} [Decidable c] {site : AssertSite}
    {f : Unit → Exec α} :
    (assert c site >>= f) ≠ .error .undefined ↔ (c → f () ≠ .error .undefined) := by
  rw [bind_ne_error_iff, and_iff_right assert_ne_undefined]
  constructor
  · intro h hc
    exact h () (assert_eq_ok.mpr hc)
  · intro h _ hok
    exact h (assert_eq_ok.mp hok)

theorem blockWrite_ne_undefined_iff {n : ℕ} {xs : Block α n} {i : ℕ} {x : α} :
    xs.write i x ≠ .error .undefined ↔ i < n := by
  unfold Block.write
  by_cases h : i < n
  · simp [h]
  · simp [h]

theorem writeAt_ne_undefined_iff {xs : List α} {i : ℕ} {x : α} :
    writeAt xs i x ≠ .error .undefined ↔ i < xs.length := by
  unfold writeAt
  by_cases h : i < xs.length
  · simp [h]
  · simp [h]

theorem length_of_writeAt {xs ys : List α} {i : ℕ} {x : α} (h : writeAt xs i x = .ok ys) :
    ys.length = xs.length := by
  unfold writeAt at h
  split at h
  · cases h
    exact List.length_set
  · cases h

end Arrays

section Words

theorem word16_take {bytes : List UInt8} {n offset : ℕ} (h : offset + 2 ≤ n) :
    word16 (bytes.take n) offset = word16 bytes offset := by
  unfold word16
  rw [List.drop_take, List.take_take, Nat.min_eq_left (by omega)]

theorem word16_drop (bytes : List UInt8) (n offset : ℕ) :
    word16 (bytes.drop n) offset = word16 bytes (n + offset) := by
  unfold word16
  rw [List.drop_drop]

/-- Two bytes that are read as a number. -/
theorem ofBigEndian_two (bytes : List UInt8) (offset : ℕ) :
    ofBigEndian ((bytes.drop offset).take 2) = (word16 bytes offset).toNat := by
  have hlt := ofBigEndian_lt ((bytes.drop offset).take 2)
  have hlength : ((bytes.drop offset).take 2).length ≤ 2 := List.length_take_le _ _
  have hsmall : ofBigEndian ((bytes.drop offset).take 2) < 2 ^ 16 :=
    Nat.lt_of_lt_of_le hlt (Nat.pow_le_pow_right (by decide) hlength)
  unfold word16
  rw [UInt16.toNat_ofNat_of_lt' hsmall]

end Words

section Frames

variable {data : List UInt8}

theorem getFrameEtherType_ne_undefined_iff :
    getFrameEtherType data ≠ .error .undefined ↔ 8 ≤ data.length := by
  unfold getFrameEtherType
  rw [bind_pure_ne_error_iff, readRun_ne_error_iff]
  exact Iff.of_eq (by rw [Nat.zero_add]; rfl)

theorem getFrameEtherType_eq_ok {type : ℕ} (h : getFrameEtherType data = .ok type) :
    type = (word16 data 6).toNat := by
  obtain ⟨header, hheader, hpure⟩ := bind_eq_ok.mp h
  obtain ⟨-, rfl⟩ := readRun_eq_ok.mp hheader
  cases hpure
  rw [ofBigEndian_two, List.drop_zero]
  exact congrArg UInt16.toNat (word16_take (by decide))

theorem getEAPoLFrameType_ne_undefined_iff :
    getEAPoLFrameType data ≠ .error .undefined ↔ 10 ≤ data.length := by
  unfold getEAPoLFrameType
  rw [bind_pure_ne_error_iff, readRun_ne_error_iff]
  rfl

theorem getEAPoLFrameType_eq_ok {type : ℕ} (h : getEAPoLFrameType data = .ok type) :
    type = (word16 data 8).toNat := by
  obtain ⟨bytes, hbytes, hpure⟩ := bind_eq_ok.mp h
  obtain ⟨-, rfl⟩ := readRun_eq_ok.mp hbytes
  cases hpure
  exact ofBigEndian_two data 8

theorem parseSecureDataHeader_ne_undefined_iff :
    parseSecureDataHeader data ≠ .error .undefined ↔ 22 ≤ data.length := by
  unfold parseSecureDataHeader
  rw [bind_pure_ne_error_iff, readRun_ne_error_iff]
  rfl

theorem protocolSize_of_parse {header : SecureDataHeader}
    (h : parseSecureDataHeader data = .ok header) : header.protocolSize = word16 data 8 := by
  obtain ⟨bytes, hbytes, hpure⟩ := bind_eq_ok.mp h
  obtain ⟨-, rfl⟩ := readRun_eq_ok.mp hbytes
  cases hpure
  rw [word16_take (by decide), word16_drop]
  rfl

theorem deserializeNodeInfoFromFrame_ne_undefined_iff :
    deserializeNodeInfoFromFrame data ≠ .error .undefined ↔ 56 ≤ data.length := by
  unfold deserializeNodeInfoFromFrame
  rw [bind_pure_ne_error_iff, readRun_ne_error_iff]
  rfl

theorem parseEAPoLLogoffFrame_ne_undefined_iff :
    parseEAPoLLogoffFrame data ≠ .error .undefined ↔ 672 ≤ data.length := by
  unfold parseEAPoLLogoffFrame
  rw [bind_pure_ne_error_iff, readRun_ne_error_iff]
  rfl

/-- What a logoff packet says, in terms of its bytes. -/
theorem parseEAPoLLogoffFrame_eq_ok {logoff : EAPoLLogoffPacket}
    (h : parseEAPoLLogoffFrame data = .ok logoff) :
    logoff.maxNodes = data.getD 27 0 ∧
      logoff.nodes.map NodeInfo.networkNodeId =
        (List.range udsMaxNodes).map (logoffNodeId data) := by
  obtain ⟨bytes, hbytes, hpure⟩ := bind_eq_ok.mp h
  obtain ⟨-, rfl⟩ := readRun_eq_ok.mp hbytes
  cases hpure
  constructor
  · simp [List.getD, llcHeaderSize, eapolLogoffPacketSize]
  · unfold readRecords
    rw [List.map_map]
    apply List.map_congr_left
    intro entry hentry
    rw [List.mem_range] at hentry
    show word16 (((((data.drop 8).take 664).drop 24).drop (40 * entry)).take 40) 32 = _
    have hroom : 40 * entry + 42 ≤ 664 := by
      have : entry < 16 := hentry
      omega
    rw [word16_take (by decide), word16_drop, word16_drop, word16_take (by omega), word16_drop]
    unfold logoffNodeId
    congr 1
    omega

theorem generateEAPoLLogoffFrame_ne_undefined_iff {networkNodeId : UInt16} {nodes : List NodeInfo}
    {maxNodes totalNodes : UInt8} :
    generateEAPoLLogoffFrame networkNodeId nodes maxNodes totalNodes ≠ .error .undefined ↔
      maxNodes.toNat ≤ min nodes.length udsMaxNodes := by
  unfold generateEAPoLLogoffFrame
  rw [Nat.le_min]
  have hread : readRun Fault.undefined nodes 0 maxNodes.toNat ≠ .error .undefined ↔
      maxNodes.toNat ≤ nodes.length := by
    rw [readRun_ne_error_iff, Nat.zero_add]
  apply bind_ne_error_iff_and hread
  · intro hlength
    exact ⟨_, readRun_eq_ok.mpr ⟨by omega, rfl⟩⟩
  · intro hlength sent hsent
    obtain ⟨-, rfl⟩ := readRun_eq_ok.mp hsent
    rw [bind_pure_ne_error_iff, writeRun_ne_error_iff, Nat.zero_add, List.length_replicate,
      List.drop_zero, List.length_take, Nat.min_eq_left hlength]

end Frames

section Handlers

variable {s : NwmUds} {packet : WifiPacket}

theorem readNodeMap_ne_undefined_iff {data : List UInt8} (entries : ℕ) {offset : ℕ} (m : NodeMap)
    (hoffset : offset ≤ data.length) :
    NwmUds.readNodeMap data entries offset m ≠ .error .undefined ↔ offset + 8 * entries ≤ data.length := by
  induction entries generalizing offset m with
  | zero =>
      exact iff_of_true (ok_ne_error m) (by omega)
  | succ entries ih =>
      unfold NwmUds.readNodeMap
      rw [bind_ne_error_iff, readRun_ne_error_iff]
      constructor
      · rintro ⟨haddress, hrest⟩
        have hid := hrest _ (readRun_eq_ok.mpr ⟨haddress, rfl⟩)
        rw [bind_ne_error_iff, readRun_ne_error_iff] at hid
        obtain ⟨hid, hrest⟩ := hid
        have htail := hrest _ (readRun_eq_ok.mpr ⟨hid, rfl⟩)
        rw [ih _ (by omega)] at htail
        omega
      · intro h
        refine ⟨by omega, fun address _ => ?_⟩
        rw [bind_ne_error_iff, readRun_ne_error_iff]
        refine ⟨by omega, fun id _ => ?_⟩
        rw [ih _ (by omega)]
        omega

theorem handleNodeMapPacket_ne_undefined_iff :
    s.handleNodeMapPacket packet ≠ .error .undefined ↔
      (s.connectionStatus.status ≠ .connectedAsHost → NodeMapFits packet.data) := by
  unfold NwmUds.handleNodeMapPacket
  rw [ite_ne_error_iff, and_iff_right fun _ => ok_ne_error s]
  apply imp_congr_right
  intro _
  have hcount : readRun Fault.undefined packet.data 0 8 ≠ .error .undefined ↔
      8 ≤ packet.data.length := by
    rw [readRun_ne_error_iff, Nat.zero_add]
  apply bind_ne_error_iff_and hcount
  · intro hlength
    exact ⟨_, readRun_eq_ok.mpr ⟨by omega, rfl⟩⟩
  · intro hlength numEntries hread
    obtain ⟨-, rfl⟩ := readRun_eq_ok.mp hread
    rw [bind_pure_ne_error_iff, readNodeMap_ne_undefined_iff _ [] hlength]
    rfl

theorem handleAuthenticationFrame_ne_undefined_iff :
    s.handleAuthenticationFrame packet ≠ .error .undefined ↔
      authenticationFrameSize ≤ packet.data.length := by
  unfold NwmUds.handleAuthenticationFrame
  rw [bind_ne_error_iff]
  have hseq : getAuthenticationSeqNumber packet.data ≠ .error .undefined ↔
      authenticationFrameSize ≤ packet.data.length := by
    unfold getAuthenticationSeqNumber
    rw [bind_pure_ne_error_iff, readRun_ne_error_iff, Nat.zero_add]
  rw [hseq]
  apply and_iff_left
  intro seq _
  simp only [ite_ne_error_iff]
  exact ⟨fun _ => ok_ne_error _, fun _ => ⟨fun _ => ok_ne_error _, fun _ =>
    ⟨fun _ => ok_ne_error _, fun _ => ⟨fun _ => ok_ne_error _, fun _ => ok_ne_error _⟩⟩⟩⟩

theorem handleAssociationResponseFrame_ne_undefined_iff :
    s.handleAssociationResponseFrame packet ≠ .error .undefined ↔
      associationResponseFrameSize ≤ packet.data.length := by
  unfold NwmUds.handleAssociationResponseFrame
  rw [bind_ne_error_iff]
  have hresult : getAssociationResult packet.data ≠ .error .undefined ↔
      associationResponseFrameSize ≤ packet.data.length := by
    unfold getAssociationResult
    rw [bind_pure_ne_error_iff, readRun_ne_error_iff, Nat.zero_add]
  rw [hresult]
  apply and_iff_left
  rintro ⟨status, associationId⟩ _
  rw [assert_bind_ne_undefined_iff, ite_ne_error_iff]
  exact fun _ => ⟨fun _ => ok_ne_error _, fun _ => ok_ne_error _⟩

/-- The slot that is given away is the first one that is free. -/
theorem getNextAvailableNodeId_eq_ok {nodeId : UInt16} :
    s.getNextAvailableNodeId = .ok nodeId ↔
      ∃ index, IsFirstFreeSlot s.connectionStatus index ∧ nodeId = UInt16.ofNat (index + 1) := by
  have hfind : ∀ index, ((List.range s.connectionStatus.maxNodes.toNat).find? fun index =>
      !s.connectionStatus.nodeBitmask.toNat.testBit index) = some index ↔
        IsFirstFreeSlot s.connectionStatus index := by
    intro index
    rw [List.find?_range_eq_some]
    unfold IsFirstFreeSlot
    simp only [Bool.not_eq_true', List.mem_range, Bool.not_not]
    exact ⟨fun ⟨hclear, hlt, hset⟩ => ⟨hlt, hclear, hset⟩,
      fun ⟨hlt, hclear, hset⟩ => ⟨hclear, hlt, hset⟩⟩
  unfold NwmUds.getNextAvailableNodeId
  dsimp only
  split
  · rename_i index hindex
    constructor
    · intro h
      cases h
      exact ⟨index, (hfind index).mp hindex, rfl⟩
    · rintro ⟨other, hother, rfl⟩
      rw [(hfind other).mpr hother] at hindex
      cases hindex
      rfl
  · rename_i hnone
    constructor
    · intro h
      cases h
    · rintro ⟨other, hother, -⟩
      rw [(hfind other).mpr hother] at hnone
      cases hnone

theorem getNextAvailableNodeId_ne_undefined : s.getNextAvailableNodeId ≠ .error .undefined := by
  unfold NwmUds.getNextAvailableNodeId
  dsimp only
  split
  · exact ok_ne_error _
  · intro h
    cases h

/-- The place of the slot, taken from its id. -/
theorem toNat_slotId {status : ConnectionStatus} {index : ℕ} (h : IsFirstFreeSlot status index) :
    (UInt16.ofNat (index + 1)).toNat - 1 = index := by
  have hmax := status.maxNodes.toNat_lt
  have hlt := h.1
  rw [UInt16.toNat_ofNat_of_lt' (by show index + 1 < 2 ^ 16; omega), Nat.add_sub_cancel]

theorem takeSlot_ne_undefined_iff {address : MacAddress} {node : NodeInfo} {nodeId : UInt16} :
    s.takeSlot address node nodeId ≠ .error .undefined ↔
      nodeId.toNat - 1 < udsMaxNodes ∧ nodeId.toNat - 1 < s.nodeInfo.length := by
  unfold NwmUds.takeSlot
  dsimp only
  rw [bind_ne_error_iff, blockWrite_ne_undefined_iff]
  apply and_congr_right
  intro hindex
  have hwrite : ∃ nodes, s.connectionStatus.nodes.write (nodeId.toNat - 1) nodeId = .ok nodes :=
    ⟨_, if_pos hindex⟩
  constructor
  · intro h
    obtain ⟨nodes, hnodes⟩ := hwrite
    have hinfo := h nodes hnodes
    rwa [bind_pure_ne_error_iff, writeAt_ne_undefined_iff] at hinfo
  · intro h nodes _
    rwa [bind_pure_ne_error_iff, writeAt_ne_undefined_iff]

/-- A client that takes a slot leaves the lengths as they were. -/
theorem sizes_of_takeSlot {t : NwmUds} {address : MacAddress} {node : NodeInfo} {nodeId : UInt16}
    (h : s.takeSlot address node nodeId = .ok t) :
    t.nodeInfo.length = s.nodeInfo.length ∧ t.networkInfo.maxNodes = s.networkInfo.maxNodes := by
  obtain ⟨nodes, -, hrest⟩ := bind_eq_ok.mp h
  obtain ⟨nodeInfo, hinfo, hpure⟩ := bind_eq_ok.mp hrest
  cases hpure
  exact ⟨length_of_writeAt hinfo, rfl⟩

theorem exists_takeSlot {address : MacAddress} {node : NodeInfo} {nodeId : UInt16}
    (h : nodeId.toNat - 1 < udsMaxNodes ∧ nodeId.toNat - 1 < s.nodeInfo.length) :
    ∃ t, s.takeSlot address node nodeId = .ok t := by
  unfold NwmUds.takeSlot Block.write writeAt
  dsimp only
  rw [if_pos h.1, ok_bind, if_pos h.2]
  exact ⟨_, rfl⟩

/-- What is sent when a client has got a slot. -/
def announceSlot (nodeId : UInt16) (s : NwmUds) : Exec NwmUds := do
  let s := s.broadcastNodeMap
  let data ← generateEAPoLLogoffFrame nodeId s.nodeInfo s.networkInfo.maxNodes
    s.networkInfo.totalNodes
  pure (s.sendPacket
    { type := .data, data, destinationAddress := broadcastMac, channel := s.networkChannel })

theorem announceSlot_ne_undefined_iff {nodeId : UInt16} :
    announceSlot nodeId s ≠ .error .undefined ↔
      s.networkInfo.maxNodes.toNat ≤ min s.nodeInfo.length udsMaxNodes := by
  unfold announceSlot NwmUds.broadcastNodeMap
  dsimp only
  rw [bind_pure_ne_error_iff, generateEAPoLLogoffFrame_ne_undefined_iff, NwmUds.sendPacket_eq]

theorem handleEAPoLStart_ne_undefined_iff :
    s.handleEAPoLStart packet ≠ .error .undefined ↔ StartFits s packet := by
  unfold NwmUds.handleEAPoLStart StartFits
  rw [ite_ne_error_iff, and_iff_right fun _ => ok_ne_error s, not_not]
  apply imp_congr_right
  intro _
  cases hknown : s.nodeMap.find packet.transmitterAddress with
  | none => exact iff_of_true (ok_ne_error s) fun known h => by cases h
  | some known =>
      dsimp only
      by_cases hconnected : known.connected = true
      · rw [if_pos hconnected]
        refine iff_of_true (ok_ne_error s) fun other h hother => ?_
        cases h
        rw [hconnected] at hother
        cases hother
      rw [if_neg hconnected]
      have hsome : (∀ other, some known = some other → other.connected = false →
          s.connectionStatus.maxNodes ≠ s.connectionStatus.totalNodes →
            56 ≤ packet.data.length ∧ ∀ index, IsFirstFreeSlot s.connectionStatus index →
              index < udsMaxNodes ∧ index < s.nodeInfo.length ∧
                s.networkInfo.maxNodes.toNat ≤ min s.nodeInfo.length udsMaxNodes) ↔
          (s.connectionStatus.maxNodes ≠ s.connectionStatus.totalNodes →
            56 ≤ packet.data.length ∧ ∀ index, IsFirstFreeSlot s.connectionStatus index →
              index < udsMaxNodes ∧ index < s.nodeInfo.length ∧
                s.networkInfo.maxNodes.toNat ≤ min s.nodeInfo.length udsMaxNodes) := by
        constructor
        · intro h
          exact h known rfl (eq_false_of_ne_true hconnected)
        · intro h other hother _
          exact h
      rw [hsome, assert_bind_ne_undefined_iff]
      apply imp_congr_right
      intro _
      apply bind_ne_error_iff_and deserializeNodeInfoFromFrame_ne_undefined_iff
      · intro hlength
        exact exists_readRun_eq_ok hlength
      · intro _ node _
        rw [bind_ne_error_iff, and_iff_right getNextAvailableNodeId_ne_undefined]
        have hslot : ∀ index, IsFirstFreeSlot s.connectionStatus index →
            ((s.takeSlot packet.transmitterAddress node (UInt16.ofNat (index + 1)) >>=
              announceSlot (UInt16.ofNat (index + 1))) ≠ .error .undefined ↔
              index < udsMaxNodes ∧ index < s.nodeInfo.length ∧
                s.networkInfo.maxNodes.toNat ≤ min s.nodeInfo.length udsMaxNodes) := by
          intro index hfree
          have htake : s.takeSlot packet.transmitterAddress node (UInt16.ofNat (index + 1)) ≠
              .error .undefined ↔ index < udsMaxNodes ∧ index < s.nodeInfo.length := by
            rw [takeSlot_ne_undefined_iff, toNat_slotId hfree]
          rw [← and_assoc]
          apply bind_ne_error_iff_and htake
          · intro hplace
            exact exists_takeSlot (by rwa [toNat_slotId hfree])
          · intro _ t ht
            obtain ⟨hsize, hmax⟩ := sizes_of_takeSlot ht
            rw [announceSlot_ne_undefined_iff, hsize, hmax]
        constructor
        · intro h index hfree
          exact (hslot index hfree).mp (h _ (getNextAvailableNodeId_eq_ok.mpr ⟨index, hfree, rfl⟩))
        · intro h nodeId hnodeId
          obtain ⟨index, hfree, rfl⟩ := getNextAvailableNodeId_eq_ok.mp hnodeId
          exact (hslot index hfree).mpr (h index hfree)

/-- The nodes enter when each has its place. -/
theorem enterNodes_ne_undefined_iff (nodes : List NodeInfo) (status : ConnectionStatus)
    (nodeInfo : List NodeInfo) :
    NwmUds.enterNodes nodes (status, nodeInfo) ≠ .error .undefined ↔
      ∀ id ∈ nodes.map NodeInfo.networkNodeId, id ≠ 0 →
        id.toNat ≤ min nodeInfo.length udsMaxNodes := by
  induction nodes generalizing status nodeInfo with
  | nil => exact iff_of_true (ok_ne_error _) fun id h => by cases h
  | cons node nodes ih =>
      unfold NwmUds.enterNodes
      rw [List.map_cons, List.forall_mem_cons]
      by_cases hzero : node.networkNodeId = 0
      · rw [if_pos hzero, ih]
        exact (and_iff_right fun hne => absurd hzero hne).symm
      rw [if_neg hzero]
      have hpositive : 0 < node.networkNodeId.toNat :=
        Nat.pos_of_ne_zero fun h => hzero (UInt16.toNat_inj.mp h)
      dsimp only
      constructor
      · intro h
        rw [bind_ne_error_iff, blockWrite_ne_undefined_iff] at h
        obtain ⟨hindex, h⟩ := h
        have hinfo := h _ (if_pos hindex)
        rw [bind_ne_error_iff, writeAt_ne_undefined_iff] at hinfo
        obtain ⟨hplace, hrest⟩ := hinfo
        have htail := hrest _ (if_pos hplace)
        rw [ih, List.length_set] at htail
        exact ⟨fun _ => by omega, htail⟩
      · rintro ⟨hhead, htail⟩
        have hfit := hhead hzero
        rw [bind_ne_error_iff, blockWrite_ne_undefined_iff]
        refine ⟨by omega, fun blocks _ => ?_⟩
        rw [bind_ne_error_iff, writeAt_ne_undefined_iff]
        refine ⟨by omega, fun infos hinfos => ?_⟩
        rwa [ih, length_of_writeAt hinfos]

/-- The packet is read and its nodes enter a list of so many places. -/
theorem enterLogoff_ne_undefined_iff {data : List UInt8} (places : UInt8 → ℕ)
    {status : EAPoLLogoffPacket → ConnectionStatus}
    {f : EAPoLLogoffPacket → ConnectionStatus × List NodeInfo → NwmUds} :
    (do
      let logoff ← parseEAPoLLogoffFrame data
      let lists ← NwmUds.enterNodes logoff.nodes
        (status logoff, List.replicate (places logoff.maxNodes) default)
      pure (f logoff lists) : Exec NwmUds) ≠ .error .undefined ↔
      LogoffFits (places (data.getD 27 0)) data := by
  apply bind_ne_error_iff_and parseEAPoLLogoffFrame_ne_undefined_iff
  · intro hlength
    exact exists_readRun_eq_ok hlength
  · intro _ logoff hlogoff
    obtain ⟨hmax, hnodes⟩ := parseEAPoLLogoffFrame_eq_ok hlogoff
    rw [bind_pure_ne_error_iff, enterNodes_ne_undefined_iff, hnodes, List.length_replicate, hmax,
      List.forall_mem_map]
    simp only [List.mem_range]

theorem handleEAPoLLogoff_ne_undefined_iff :
    s.handleEAPoLLogoff packet ≠ .error .undefined ↔
      match s.connectionStatus.status with
      | .connecting => LogoffFits (packet.data.getD 27 0).toNat packet.data
      | .connectedAsClient => LogoffFits s.networkInfo.maxNodes.toNat packet.data
      | _ => True := by
  unfold NwmUds.handleEAPoLLogoff
  cases s.connectionStatus.status with
  | connecting => exact enterLogoff_ne_undefined_iff UInt8.toNat
  | connectedAsClient =>
      exact enterLogoff_ne_undefined_iff fun _ => s.networkInfo.maxNodes.toNat
  | uninitialized => exact iff_of_true (ok_ne_error s) trivial
  | notConnected => exact iff_of_true (ok_ne_error s) trivial
  | connectedAsHost => exact iff_of_true (ok_ne_error s) trivial
  | connectedAsSpectator => exact iff_of_true (ok_ne_error s) trivial

theorem handleEAPoLPacket_ne_undefined_iff :
    s.handleEAPoLPacket packet ≠ .error .undefined ↔ EAPoLFits s packet := by
  apply bind_ne_error_iff_and getEAPoLFrameType_ne_undefined_iff
  · intro hlength
    exact exists_readRun_eq_ok hlength
  · intro _ type htype
    rw [getEAPoLFrameType_eq_ok htype]
    split
    · exact handleEAPoLStart_ne_undefined_iff
    · exact handleEAPoLLogoff_ne_undefined_iff

theorem handleSecureDataPacket_ne_undefined_iff :
    s.handleSecureDataPacket packet ≠ .error .undefined ↔ 22 ≤ packet.data.length := by
  unfold NwmUds.handleSecureDataPacket
  rw [bind_ne_error_iff, parseSecureDataHeader_ne_undefined_iff]
  apply and_iff_left
  intro header _
  dsimp only
  simp only [ite_ne_error_iff, assert_bind_ne_undefined_iff]
  exact ⟨fun _ => ok_ne_error _, fun _ => ⟨fun _ => ok_ne_error _, fun _ =>
    ⟨fun _ => ⟨fun _ => ok_ne_error _, fun _ => ok_ne_error _⟩, fun _ _ => ok_ne_error _⟩⟩⟩

theorem handleDataFrame_ne_undefined_iff :
    s.handleDataFrame packet ≠ .error .undefined ↔ DataFits s packet := by
  have hdistinct : EtherType.secureData.value ≠ EtherType.eapol.value := by decide
  apply bind_ne_error_iff_and getFrameEtherType_ne_undefined_iff
  · intro hlength
    exact exists_readRun_eq_ok (by rw [Nat.zero_add]; exact hlength)
  · intro _ type htype
    rw [getFrameEtherType_eq_ok htype]
    simp only [ite_ne_error_iff, handleEAPoLPacket_ne_undefined_iff,
      handleSecureDataPacket_ne_undefined_iff]
    apply and_congr_right
    intro _
    constructor
    · intro h hsecure
      exact (h fun heapol => hdistinct (hsecure.symm.trans heapol)).1 hsecure
    · intro h _
      exact ⟨h, fun _ => ok_ne_error _⟩

theorem freeSlot_ne_undefined_iff {nodeId : UInt16} :
    s.freeSlot nodeId ≠ .error .undefined ↔
      ((∃ info ∈ s.nodeInfo, info.networkNodeId = nodeId) →
        1 ≤ nodeId.toNat ∧ nodeId.toNat ≤ udsMaxNodes) := by
  unfold NwmUds.freeSlot
  split
  · rename_i hnone
    refine iff_of_true (ok_ne_error s) fun hsome => ?_
    obtain ⟨info, hinfo, hid⟩ := hsome
    have hfalse := List.findIdx?_eq_none_iff.mp hnone info hinfo
    exact absurd hid (of_decide_eq_false hfalse)
  · rename_i place hplace
    have hfound : ∃ info ∈ s.nodeInfo, info.networkNodeId = nodeId := by
      obtain ⟨hlt, hid, -⟩ := List.findIdx?_eq_some_iff_getElem.mp hplace
      exact ⟨_, List.getElem_mem hlt, of_decide_eq_true hid⟩
    rw [forall_prop_of_true hfound]
    by_cases hzero : nodeId = 0
    · rw [if_pos hzero, error_bind, hzero]
      exact iff_of_false (fun h => h rfl) fun h => absurd h.1 (by decide)
    · have hpositive : 0 < nodeId.toNat :=
        Nat.pos_of_ne_zero fun h => hzero (UInt16.toNat_inj.mp h)
      rw [if_neg hzero, ok_bind]
      dsimp only
      rw [bind_pure_ne_error_iff, blockWrite_ne_undefined_iff]
      omega

theorem handleDeauthenticationFrame_ne_undefined_iff :
    s.handleDeauthenticationFrame packet ≠ .error .undefined ↔
      (s.connectionStatus.status = .connectedAsHost → LeaverFits s packet) := by
  unfold NwmUds.handleDeauthenticationFrame LeaverFits
  rw [ite_ne_error_iff, and_iff_right fun _ => ok_ne_error s, not_not]
  apply imp_congr_right
  intro _
  cases s.nodeMap.find packet.transmitterAddress with
  | none => exact iff_of_true (ok_ne_error s) fun node h => by cases h
  | some node =>
      dsimp only
      rw [ite_ne_error_iff, and_iff_right fun _ => ok_ne_error _, freeSlot_ne_undefined_iff]
      constructor
      · intro h other hother hconnected
        cases hother
        exact h (by rw [hconnected]; decide)
      · intro h hconnected
        exact h node rfl (by simpa using hconnected)

/-- Exactly the packets that fit are handled within the bounds. -/
theorem onWifiPacketReceived_ne_undefined_iff :
    s.onWifiPacketReceived packet ≠ .error .undefined ↔
      (s.initialized = true → PacketFits s packet) := by
  unfold NwmUds.onWifiPacketReceived PacketFits
  rw [ite_ne_error_iff, and_iff_right fun _ => ok_ne_error s]
  have hinitialized : ¬ (!s.initialized) = true ↔ s.initialized = true := by simp
  rw [hinitialized]
  apply imp_congr_right
  intro _
  cases packet.type with
  | beacon => exact iff_of_true (ok_ne_error _) trivial
  | data => exact handleDataFrame_ne_undefined_iff
  | authentication => exact handleAuthenticationFrame_ne_undefined_iff
  | associationResponse => exact handleAssociationResponseFrame_ne_undefined_iff
  | deauthentication => exact handleDeauthenticationFrame_ne_undefined_iff
  | nodeMap => exact handleNodeMapPacket_ne_undefined_iff
  | other => exact iff_of_true (ok_ne_error _) trivial

end Handlers

section Requests

variable {s : NwmUds}

/-- A packet is taken out of the queue of a channel. -/
theorem takePacket_ne_undefined_iff {next : List UInt8} {buffSize maxSize : ℕ} {α : Type}
    {tooLarge : α} {f : SecureDataHeader → List UInt8 → α} :
    (do
      let secureData ← parseSecureDataHeader next
      if secureData.getActualDataSize > maxSize then pure tooLarge
      else do
        let data ← readRun .undefined next (llcHeaderSize + secureDataHeaderSize)
          secureData.getActualDataSize
        let outputBuffer ← writeRun .undefined (List.replicate buffSize (0 : UInt8)) 0 data
        pure (f secureData outputBuffer) : Exec α) ≠ .error .undefined ↔
      22 ≤ next.length ∧ (announcedSize next ≤ maxSize →
        22 + announcedSize next ≤ next.length ∧ announcedSize next ≤ buffSize) := by
  apply bind_ne_error_iff_and parseSecureDataHeader_ne_undefined_iff
  · intro hlength
    exact exists_readRun_eq_ok hlength
  · intro _ header hheader
    have hsize : header.getActualDataSize = announcedSize next := by
      unfold SecureDataHeader.getActualDataSize announcedSize
      rw [protocolSize_of_parse hheader]
    have hlarge : (pure tooLarge : Exec α) ≠ .error .undefined := ok_ne_error tooLarge
    rw [hsize, ite_ne_error_iff, and_iff_right fun _ => hlarge, gt_iff_lt, Nat.not_lt]
    apply imp_congr_right
    intro _
    apply bind_ne_error_iff_and readRun_ne_error_iff
    · intro hinside
      exact ⟨_, readRun_eq_ok.mpr ⟨hinside, rfl⟩⟩
    · intro hinside data hdata
      obtain ⟨-, rfl⟩ := readRun_eq_ok.mp hdata
      rw [bind_pure_ne_error_iff, writeRun_ne_error_iff, Nat.zero_add, List.length_replicate,
        List.length_take, List.length_drop, Nat.min_eq_left (by omega)]

/-- Exactly the queued packets that fit are pulled within the bounds. -/
theorem pullPacket_ne_undefined_iff {bindNodeId aligned size : UInt32} :
    s.pullPacket bindNodeId aligned size ≠ .error .undefined ↔
      QueuedFits s bindNodeId aligned size := by
  unfold NwmUds.pullPacket QueuedFits
  dsimp only
  have hstatus : ¬ (s.connectionStatus.status ≠ .connectedAsHost ∧
      s.connectionStatus.status ≠ .connectedAsClient ∧
      s.connectionStatus.status ≠ .connectedAsSpectator) ↔
      s.connectionStatus.status ∈
        [NetworkStatus.connectedAsHost, .connectedAsClient, .connectedAsSpectator] := by
    cases s.connectionStatus.status <;> decide
  rw [ite_ne_error_iff, and_iff_right fun _ => ok_ne_error _, hstatus]
  apply imp_congr_right
  intro _
  split
  · rename_i hnone
    exact iff_of_true (ok_ne_error _) fun bound h => by rw [hnone] at h; cases h
  · rename_i bound hbound
    have hone : (∀ other, (s.channelData.find? fun bound => bound.bindNodeId = bindNodeId) =
        some other → ∀ next ∈ other.receivedPackets.head?, 22 ≤ next.length ∧
          (announcedSize next ≤ size.toNat →
            22 + announcedSize next ≤ next.length ∧
              announcedSize next ≤ min aligned.toNat 0x172 * 4)) ↔
        ∀ next ∈ bound.receivedPackets.head?, 22 ≤ next.length ∧
          (announcedSize next ≤ size.toNat →
            22 + announcedSize next ≤ next.length ∧
              announcedSize next ≤ min aligned.toNat 0x172 * 4) := by
      rw [hbound]
      exact ⟨fun h => h bound rfl, fun h other hother => by cases hother; exact h⟩
    rw [hone]
    cases hqueue : bound.receivedPackets with
    | nil => exact iff_of_true (ok_ne_error _) fun next h => by cases h
    | cons next rest =>
        have hhead : (∀ other ∈ (next :: rest).head?, 22 ≤ other.length ∧
            (announcedSize other ≤ size.toNat →
              22 + announcedSize other ≤ other.length ∧
                announcedSize other ≤ min aligned.toNat 0x172 * 4)) ↔
            22 ≤ next.length ∧ (announcedSize next ≤ size.toNat →
              22 + announcedSize next ≤ next.length ∧
                announcedSize next ≤ min aligned.toNat 0x172 * 4) := by
          rw [List.head?_cons]
          exact ⟨fun h => h next rfl, fun h other hother => by cases hother; exact h⟩
        rw [hhead]
        exact takePacket_ne_undefined_iff

/-- A call stays within the bounds exactly when what it handles fits. -/
theorem staysInBounds_iff (s : NwmUds) (call : ServiceCall) :
    StaysInBounds s call ↔ WithinBounds s call := by
  cases call with
  | receive packet => exact onWifiPacketReceived_ne_undefined_iff
  | pullPacket bindNodeId aligned size =>
      have hstep : serviceStep s (.pullPacket bindNodeId aligned size) ≠ .error .undefined ↔
          s.pullPacket bindNodeId aligned size ≠ .error .undefined := by
        rw [serviceStep, bind_ne_error_iff]
        exact and_iff_left fun _ _ => ok_ne_error _
      exact hstep.trans pullPacket_ne_undefined_iff
  | _ => exact Iff.rfl

end Requests

end Borked3DS.Analysis
