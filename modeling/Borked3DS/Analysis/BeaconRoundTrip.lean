import Borked3DS.Interface.LocalNetworks

/-!
# No beacon carries its nodes

The size of the encrypted tags is computed from `NodeInfo`, which is larger than the `BeaconNodeInfo`
that the encrypted buffer is made of. From two nodes on the generator therefore reads behind the end
of the buffer, or gives up on a tag that is too long. The decoder is not to blame: from tags that
carry the buffer it takes the nodes that were put in.
-/

set_option autoImplicit false

namespace Borked3DS.Analysis

open Borked3DS.Library Borked3DS.Model Borked3DS.Model.NWM Borked3DS.Interface

section Lengths

variable (c : BeaconCrypto) (info : NetworkInfo) (nodes : List NodeInfo)

@[simp] theorem length_process (counter bytes : List UInt8) :
    (c.process counter bytes).length = bytes.length :=
  List.length_mapIdx

@[simp] theorem length_beaconNodeInfo (node : NodeInfo) :
    (beaconNodeInfo node).length = beaconNodeInfoSize := by
  unfold beaconNodeInfo beaconNodeInfoSize
  simp

theorem length_flatMap_beaconNodeInfo :
    (nodes.flatMap beaconNodeInfo).length = beaconNodeInfoSize * nodes.length :=
  length_flatMap_of_size length_beaconNodeInfo nodes

/-- The buffer that is hashed: an empty header and the nodes. -/
theorem length_serializedNodes :
    (serializedNodes c nodes).length = beaconDataSize + beaconNodeInfoSize * nodes.length := by
  have hmd5 := (c.md5 ((List.replicate beaconDataSize 0 ++
    nodes.flatMap beaconNodeInfo).drop 16)).2
  have hlength : (List.replicate beaconDataSize (0 : UInt8) ++
      nodes.flatMap beaconNodeInfo).length =
      beaconDataSize + beaconNodeInfoSize * nodes.length := by
    rw [List.length_append, List.length_replicate, length_flatMap_beaconNodeInfo]
  unfold serializedNodes
  dsimp only
  rw [length_overwrite, hlength]
  rw [hmd5, hlength]
  unfold beaconDataSize
  omega

theorem length_generatedEncryptedData :
    (generatedEncryptedData c info nodes).length =
      beaconDataSize + beaconNodeInfoSize * nodes.length := by
  unfold generatedEncryptedData
  rw [length_process, length_serializedNodes]

end Lengths

section Generator

variable {c : BeaconCrypto} {info : NetworkInfo} {nodes : List NodeInfo}

/-- The first tag reads as much as the sizes of the nodes allow. -/
theorem firstTag_eq_ok {tag : List UInt8}
    (h : generateNintendoFirstEncryptedDataTag c info nodes = .ok tag) :
    min encryptedDataSizeCutoff (nodes.length * nodeInfoSize) ≤
      (generatedEncryptedData c info nodes).length := by
  obtain ⟨payload, hpayload, -⟩ := bind_eq_ok.mp h
  unfold readRun at hpayload
  split at hpayload
  · rename_i hle
    rwa [Nat.zero_add] at hle
  · cases hpayload

/-- The second tag reads what is left of them. -/
theorem secondTag_eq_ok {tag : List UInt8}
    (h : generateNintendoSecondEncryptedDataTag c info nodes = .ok tag) :
    nodes.length * nodeInfoSize ≤ encryptedDataSizeCutoff ∨
      nodes.length * nodeInfoSize ≤ (generatedEncryptedData c info nodes).length := by
  unfold generateNintendoSecondEncryptedDataTag at h
  split at h
  · rename_i hsmall
    exact .inl hsmall
  · rename_i hlarge
    obtain ⟨u, -, h⟩ := bind_eq_ok.mp h
    obtain ⟨payload, hpayload, -⟩ := bind_eq_ok.mp h
    unfold readRun at hpayload
    split at hpayload
    · rename_i hle
      right
      omega
    · cases hpayload

/-- There is no frame for a network of two nodes or more. -/
theorem generateBeaconFrame_ne_ok (hnodes : 2 ≤ nodes.length) (frame : List UInt8) :
    generateBeaconFrame c info nodes ≠ .ok frame := by
  intro h
  obtain ⟨tags, htags, -⟩ := bind_eq_ok.mp h
  obtain ⟨u, -, htags⟩ := bind_eq_ok.mp htags
  obtain ⟨networkInfoTag, -, htags⟩ := bind_eq_ok.mp htags
  obtain ⟨first, hfirst, htags⟩ := bind_eq_ok.mp htags
  obtain ⟨second, hsecond, -⟩ := bind_eq_ok.mp htags
  have hread := firstTag_eq_ok hfirst
  have hread' := secondTag_eq_ok hsecond
  rw [length_generatedEncryptedData] at hread hread'
  unfold encryptedDataSizeCutoff nodeInfoSize beaconDataSize beaconNodeInfoSize at hread hread'
  omega

end Generator

section RoundTrip

/-- No beacon of a network of two nodes or more carries its nodes. -/
theorem beacon_never_roundTrips (c : BeaconCrypto) (info : NetworkInfo) (nodes : List NodeInfo)
    (hnodes : 2 ≤ nodes.length) : ¬ BeaconRoundTrips c info nodes := by
  rintro ⟨frame, front, first, second, hcarries⟩
  exact generateBeaconFrame_ne_ok hnodes frame hcarries.generated

/-- Digests of zeros and no cipher. -/
def plainCrypto : BeaconCrypto where
  md5 := fun _ => .replicate 16 0
  sha1 := fun _ => .replicate 20 0
  keystream := fun _ _ => 0

/-- A network of two nodes. -/
def smallNetwork : NetworkInfo :=
  { ouiValue := nintendoOUI, ouiType := NintendoTagId.networkInfo.value, maxNodes := 2 }

theorem beacon_never_roundTrips_small :
    2 ≤ [NodeInfo.mk 1 (.replicate 10 0) 1, {}].length ∧
      ¬ BeaconRoundTrips plainCrypto smallNetwork [⟨1, .replicate 10 0, 1⟩, {}] :=
  ⟨by decide, beacon_never_roundTrips plainCrypto smallNetwork [⟨1, .replicate 10 0, 1⟩, {}]
    (by decide)⟩

/-- The first encrypted tag of two nodes is 80 bytes of a buffer of 78. -/
theorem beacon_roundTrips_smallNetwork :
    ¬ ∀ (c : BeaconCrypto) (info : NetworkInfo) (nodes : List NodeInfo), 2 ≤ nodes.length →
      info.maxNodes.toNat = nodes.length → nodes.length ≤ udsMaxNodes →
        BeaconRoundTrips c info nodes := by
  intro hall
  obtain ⟨frame, front, first, second, hcarries⟩ := hall plainCrypto smallNetwork
    [⟨1, .replicate 10 0, 1⟩, {}] (by decide) rfl (by decide)
  exact generateBeaconFrame_ne_ok (by decide) frame hcarries.generated

end RoundTrip

end Borked3DS.Analysis
