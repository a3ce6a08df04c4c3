import Borked3DS.Interface.CIAInstall

/-!
# When the ways to load a CIA agree

Each loader on bytes at an offset does what it does on the bytes behind the offset, and nothing it
reads lies outside of them. From memory it sees all the bytes behind the offset, from a file those
that the header declares.
-/

set_option autoImplicit false

namespace Borked3DS.Analysis

open Borked3DS.Library Borked3DS.Model Borked3DS.Model.Cia Borked3DS.Interface

section Sections

variable {bytes : List UInt8} {offset size : ℕ}

/-- A run inside the bytes behind an offset. -/
theorem readRun_behind (hoffset : offset ≤ bytes.length) {i n : ℕ}
    (h : i + n ≤ (bytes.drop offset).length) :
    readRun Fault.undefined bytes (offset + i) n = .ok (((bytes.drop offset).drop i).take n) := by
  rw [List.length_drop] at h
  unfold readRun
  rw [if_pos (by omega), List.drop_drop]

theorem sectionType_lt (bytes : List UInt8) : sectionType bytes < 2 ^ 32 := by
  have hlt := ofLittleEndian_lt ((bytes.drop 0).take 4).reverse
  have hlength : ((bytes.drop 0).take 4).reverse.length ≤ 4 := by
    rw [List.length_reverse]
    exact List.length_take_le _ _
  calc sectionType bytes < 256 ^ ((bytes.drop 0).take 4).reverse.length := hlt
    _ ≤ 256 ^ 4 := Nat.pow_le_pow_right (by decide) hlength
    _ = 2 ^ 32 := by decide

theorem sectionType_take (h : 4 ≤ size) : sectionType (bytes.take size) = sectionType bytes := by
  unfold sectionType bigEndianAt
  rw [List.drop_zero, List.drop_zero, List.take_take, Nat.min_eq_left h]

/-- The body stands behind the signature, and both are short. -/
theorem bodyStart_bounds (signatureType : ℕ) :
    4 + getSignatureSize signatureType ≤ bodyStart signatureType ∧
      bodyStart signatureType ≤ 0x240 := by
  unfold bodyStart
  have hcases : getSignatureSize signatureType = 0x200 ∨ getSignatureSize signatureType = 0x100 ∨
      getSignatureSize signatureType = 0x3C ∨ getSignatureSize signatureType = 0 := by
    unfold getSignatureSize
    split
    · exact .inl rfl
    · split
      · exact .inr (.inl rfl)
      · split
        · exact .inr (.inr (.inl rfl))
        · exact .inr (.inr (.inr rfl))
  rcases hcases with h | h | h | h <;>
    · rw [h]
      decide

end Sections

section Tickets

variable {bytes : List UInt8} {offset size : ℕ} {t : Ticket}

/-- What loading a ticket from some bytes does. -/
def ticketOutcome (t : Ticket) (bytes : List UInt8) : ResultStatus × Ticket :=
  if bytes.length < 4 then (.error, t)
  else if getSignatureSize (sectionType bytes) = 0 ∨ bytes.length < ticketEnd bytes then
    (.error, { t with signatureType := sectionType bytes })
  else
    (.success,
      { signatureType := sectionType bytes
        ticketSignature := (bytes.drop 4).take (getSignatureSize (sectionType bytes))
        ticketBody := (bytes.drop (bodyStart (sectionType bytes))).take ticketBodySize })

/-- Inside the bytes a ticket is loaded from those behind the offset. -/
theorem ticketLoad_eq (t : Ticket) (hlength : bytes.length < 2 ^ 63)
    (hoffset : offset ≤ bytes.length) :
    t.load bytes offset = .ok (ticketOutcome t (bytes.drop offset)) := by
  have htotal : u64Sub bytes.length offset = (bytes.drop offset).length := by
    rw [u64Sub_of_le hoffset (by omega), List.length_drop]
  unfold Ticket.load ticketOutcome
  dsimp only
  rw [htotal]
  by_cases hshort : (bytes.drop offset).length < 4
  · rw [if_pos hshort, if_pos hshort]
  · rw [if_neg hshort, if_neg hshort]
    have htype := readRun_behind (i := 0) (n := 4) hoffset (by omega)
    have hsame : bigEndianAt (((bytes.drop offset).drop 0).take 4) 0 4 =
        sectionType (bytes.drop offset) := sectionType_take (Nat.le_refl 4)
    rw [Nat.add_zero] at htype
    rw [htype, ok_bind, hsame]
    by_cases hsignature : getSignatureSize (sectionType (bytes.drop offset)) = 0
    · rw [if_pos hsignature, if_pos (.inl hsignature)]
      rfl
    · have hend : ticketEnd (bytes.drop offset) =
          bodyStart (sectionType (bytes.drop offset)) + ticketBodySize := if_neg hsignature
      rw [if_neg hsignature, hend]
      by_cases hbody : (bytes.drop offset).length <
          bodyStart (sectionType (bytes.drop offset)) + ticketBodySize
      · rw [if_pos hbody, if_pos (.inr hbody)]
        rfl
      · have hbounds := (bodyStart_bounds (sectionType (bytes.drop offset))).1
        rw [if_neg hbody, if_neg (by rintro (h | h) <;> contradiction),
          readRun_behind hoffset (by omega), ok_bind, readRun_behind hoffset (by omega), ok_bind]
        rfl

/-- Outside the bytes the size of what is left wraps. -/
theorem ticketLoad_outside (t : Ticket) (hoffset : bytes.length < offset) (hlt : offset < 2 ^ 63) :
    t.load bytes offset = .error .undefined := by
  have htotal : ¬ u64Sub bytes.length offset < 4 := by
    rw [u64Sub_of_lt hoffset]
    omega
  have hread : readRun Fault.undefined bytes offset 4 = .error .undefined := by
    unfold readRun
    rw [if_neg (by omega)]
  unfold Ticket.load
  dsimp only
  rw [if_neg htotal, hread]
  rfl

theorem ticketOutcome_short (h : bytes.length < 4) : ticketOutcome t bytes = (.error, t) := by
  unfold ticketOutcome
  rw [if_pos h]

theorem ticketOutcome_success :
    (ticketOutcome t bytes).1 = .success ↔ HoldsTicket bytes := by
  unfold ticketOutcome HoldsTicket
  split
  · simp only [reduceCtorEq, false_iff]
    omega
  · split
    · rename_i hbad
      simp only [reduceCtorEq, false_iff]
      rintro ⟨-, hsignature, hend⟩
      rcases hbad with h | h
      · exact hsignature h
      · omega
    · rename_i hshort hgood
      simp only [true_iff]
      rw [not_or, Nat.not_lt] at hgood
      exact ⟨by omega, hgood⟩

theorem ticketOutcome_signatureType (h : 4 ≤ bytes.length) :
    (ticketOutcome t bytes).2.signatureType = sectionType bytes := by
  unfold ticketOutcome
  rw [if_neg (by omega)]
  split <;> rfl

theorem ticketEnd_take (h : 4 ≤ size) : ticketEnd (bytes.take size) = ticketEnd bytes := by
  unfold ticketEnd
  rw [sectionType_take h]

/-- A size that covers what is looked at makes no difference. -/
theorem ticketOutcome_take (hsize : 4 ≤ size) (hle : size ≤ bytes.length)
    (hcovers : bytes.length < ticketEnd bytes ∨ ticketEnd bytes ≤ size) :
    ticketOutcome t (bytes.take size) = ticketOutcome t bytes := by
  have hlength : (bytes.take size).length = size := by
    rw [List.length_take, Nat.min_eq_left hle]
  have hsome : ¬ size < 4 := by omega
  have hsome' : ¬ bytes.length < 4 := by omega
  unfold ticketOutcome
  rw [hlength, sectionType_take hsize, ticketEnd_take hsize, if_neg hsome, if_neg hsome']
  by_cases hsignature : getSignatureSize (sectionType bytes) = 0
  · rw [if_pos (.inl hsignature), if_pos (.inl hsignature)]
  · rcases hcovers with hshort | hcovers
    · rw [if_pos (.inr (by omega)), if_pos (.inr hshort)]
    · have hbounds := (bodyStart_bounds (sectionType bytes)).1
      have hend : ticketEnd bytes = bodyStart (sectionType bytes) + ticketBodySize :=
        if_neg hsignature
      have hgood : ∀ n, ticketEnd bytes ≤ n →
          ¬ (getSignatureSize (sectionType bytes) = 0 ∨ n < ticketEnd bytes) := by
        rintro n hn (h | h)
        · exact hsignature h
        · omega
      rw [if_neg (hgood size hcovers), if_neg (hgood bytes.length (by omega)), List.drop_take,
        List.take_take, Nat.min_eq_left (by omega), List.drop_take, List.take_take,
        Nat.min_eq_left (by omega)]

/-- A size that cuts a whole ticket off leaves the body as it was. -/
theorem ticketOutcome_cut (hsize : 4 ≤ size) (hle : size ≤ bytes.length)
    (hcut : size < ticketEnd bytes) :
    ticketOutcome t (bytes.take size) = (.error, { t with signatureType := sectionType bytes }) := by
  have hlength : (bytes.take size).length = size := by
    rw [List.length_take, Nat.min_eq_left hle]
  unfold ticketOutcome
  rw [hlength, sectionType_take hsize, ticketEnd_take hsize, if_neg (by omega), if_pos (.inr hcut)]

/-- Whole bodies are loaded. -/
theorem ticketOutcome_body (hsignature : getSignatureSize (sectionType bytes) ≠ 0)
    (hwhole : ticketEnd bytes ≤ bytes.length) :
    (ticketOutcome t bytes).2.ticketBody =
      (bytes.drop (bodyStart (sectionType bytes))).take ticketBodySize := by
  have hend : ticketEnd bytes = bodyStart (sectionType bytes) + ticketBodySize := if_neg hsignature
  have hsome : ¬ bytes.length < 4 := by
    have hbounds := (bodyStart_bounds (sectionType bytes)).1
    omega
  have hgood : ¬ (getSignatureSize (sectionType bytes) = 0 ∨ bytes.length < ticketEnd bytes) := by
    rintro (h | h)
    · exact hsignature h
    · omega
  unfold ticketOutcome
  rw [if_neg hsome, if_neg hgood]

end Tickets

section Metadata

variable {bytes : List UInt8} {offset size : ℕ} {tmd : TitleMetadata}

/-- The chunks at the head of some bytes. -/
def chunksOf : List UInt8 → ℕ → List ContentChunk
  | _, 0 => []
  | bytes, count + 1 =>
      ContentChunk.ofBytes (bytes.take contentChunkSize) ::
        chunksOf (bytes.drop contentChunkSize) count

theorem chunksOf_take {count : ℕ} (h : count * contentChunkSize ≤ size) :
    chunksOf (bytes.take size) count = chunksOf bytes count := by
  induction count generalizing bytes size with
  | zero => rfl
  | succ count ih =>
      rw [Nat.succ_mul] at h
      rw [chunksOf, chunksOf, List.take_take, Nat.min_eq_left (by omega), List.drop_take,
        ih (by omega)]

theorem loadChunks_eq {count : ℕ} (h : offset + count * contentChunkSize ≤ bytes.length) :
    TitleMetadata.loadChunks bytes offset count = .ok (chunksOf (bytes.drop offset) count) := by
  induction count generalizing offset with
  | zero => rfl
  | succ count ih =>
      rw [Nat.succ_mul] at h
      have hread : readRun Fault.undefined bytes offset contentChunkSize =
          .ok ((bytes.drop offset).take contentChunkSize) := by
        unfold readRun
        rw [if_pos (by omega)]
      rw [TitleMetadata.loadChunks, hread, ok_bind, ih (by omega), ok_bind, chunksOf,
        List.drop_drop]
      rfl

/-- What loading title metadata from some bytes does. -/
def tmdOutcome (tmd : TitleMetadata) (bytes : List UInt8) : ResultStatus × TitleMetadata :=
  if bytes.length < 4 then (.error, tmd)
  else if getSignatureSize (sectionType bytes) = 0 ∨ bytes.length < tmdBodyEnd bytes then
    (.error, { tmd with signatureType := sectionType bytes })
  else
    let tmd :=
      { tmd with
        signatureType := sectionType bytes
        tmdSignature := (bytes.drop 4).take (getSignatureSize (sectionType bytes))
        tmdBody := (bytes.drop (bodyStart (sectionType bytes))).take tmdBodySize }
    if bytes.length < tmdEnd bytes then (.errorInvalidFormat, tmd)
    else
      (.success,
        { tmd with
          tmdChunks :=
            tmd.tmdChunks ++ chunksOf (bytes.drop (tmdBodyEnd bytes)) (declaredChunks bytes) })

/-- Inside the bytes title metadata is loaded from those behind the offset. -/
theorem tmdLoad_eq (tmd : TitleMetadata) (hlength : bytes.length < 2 ^ 63)
    (hoffset : offset ≤ bytes.length) :
    tmd.load bytes offset = .ok (tmdOutcome tmd (bytes.drop offset)) := by
  have htotal : u64Sub bytes.length offset = (bytes.drop offset).length := by
    rw [u64Sub_of_le hoffset (by omega), List.length_drop]
  unfold TitleMetadata.load tmdOutcome
  dsimp only
  rw [htotal]
  by_cases hshort : (bytes.drop offset).length < 4
  · rw [if_pos hshort, if_pos hshort]
  · rw [if_neg hshort, if_neg hshort]
    have htype := readRun_behind (i := 0) (n := 4) hoffset (by omega)
    have hsame : bigEndianAt (((bytes.drop offset).drop 0).take 4) 0 4 =
        sectionType (bytes.drop offset) := sectionType_take (Nat.le_refl 4)
    rw [Nat.add_zero] at htype
    rw [htype, ok_bind, hsame]
    by_cases hsignature : getSignatureSize (sectionType (bytes.drop offset)) = 0
    · rw [if_pos hsignature, if_pos (.inl hsignature)]
      rfl
    · have hend : tmdBodyEnd (bytes.drop offset) =
          bodyStart (sectionType (bytes.drop offset)) + tmdBodySize := if_neg hsignature
      have hchunks : tmdEnd (bytes.drop offset) = tmdBodyEnd (bytes.drop offset) +
          declaredChunks (bytes.drop offset) * contentChunkSize := if_neg hsignature
      rw [if_neg hsignature, hchunks, hend]
      by_cases hbody : (bytes.drop offset).length <
          bodyStart (sectionType (bytes.drop offset)) + tmdBodySize
      · rw [if_pos hbody, if_pos (.inr hbody)]
        rfl
      · have hbounds := (bodyStart_bounds (sectionType (bytes.drop offset))).1
        rw [if_neg hbody, if_neg (by rintro (h | h) <;> contradiction),
          readRun_behind hoffset (by omega), ok_bind, readRun_behind hoffset (by omega), ok_bind]
        have hcount : TitleMetadata.contentCount (((bytes.drop offset).drop
            (bodyStart (sectionType (bytes.drop offset)))).take tmdBodySize) =
              declaredChunks (bytes.drop offset) := rfl
        rw [hcount]
        by_cases hcut : (bytes.drop offset).length <
            bodyStart (sectionType (bytes.drop offset)) + tmdBodySize +
              declaredChunks (bytes.drop offset) * contentChunkSize
        · rw [if_pos hcut, if_pos hcut]
          rfl
        · have hload : TitleMetadata.loadChunks bytes
              (offset + (bodyStart (sectionType (bytes.drop offset)) + tmdBodySize))
              (declaredChunks (bytes.drop offset)) =
              .ok (chunksOf (bytes.drop
                (offset + (bodyStart (sectionType (bytes.drop offset)) + tmdBodySize)))
                (declaredChunks (bytes.drop offset))) := by
            apply loadChunks_eq
            rw [List.length_drop] at hcut
            omega
          rw [if_neg hcut, if_neg hcut, hload, ok_bind, ← List.drop_drop]
          rfl

/-- Outside the bytes the size of what is left wraps. -/
theorem tmdLoad_outside (tmd : TitleMetadata) (hoffset : bytes.length < offset)
    (hlt : offset < 2 ^ 63) : tmd.load bytes offset = .error .undefined := by
  have htotal : ¬ u64Sub bytes.length offset < 4 := by
    rw [u64Sub_of_lt hoffset]
    omega
  have hread : readRun Fault.undefined bytes offset 4 = .error .undefined := by
    unfold readRun
    rw [if_neg (by omega)]
  unfold TitleMetadata.load
  dsimp only
  rw [if_neg htotal, hread]
  rfl

theorem tmdOutcome_short (h : bytes.length < 4) : tmdOutcome tmd bytes = (.error, tmd) := by
  unfold tmdOutcome
  rw [if_pos h]

theorem tmdBodyEnd_le (bytes : List UInt8) : tmdBodyEnd bytes ≤ tmdEnd bytes := by
  unfold tmdEnd
  split
  · rename_i hsignature
    unfold tmdBodyEnd
    rw [if_pos hsignature]
  · exact Nat.le_add_right _ _

theorem tmdOutcome_success : (tmdOutcome tmd bytes).1 = .success ↔ HoldsTmd bytes := by
  have hle := tmdBodyEnd_le bytes
  unfold tmdOutcome HoldsTmd
  split
  · simp only [reduceCtorEq, false_iff]
    omega
  · split
    · rename_i hbad
      simp only [reduceCtorEq, false_iff]
      rintro ⟨-, hsignature, hend⟩
      rcases hbad with h | h
      · exact hsignature h
      · omega
    · rename_i hshort hgood
      rw [not_or, Nat.not_lt] at hgood
      dsimp only
      split
      · simp only [reduceCtorEq, false_iff]
        rintro ⟨-, -, hend⟩
        omega
      · simp only [true_iff]
        exact ⟨by omega, hgood.1, by omega⟩

theorem tmdOutcome_signatureType (h : 4 ≤ bytes.length) :
    (tmdOutcome tmd bytes).2.signatureType = sectionType bytes := by
  unfold tmdOutcome
  rw [if_neg (by omega)]
  split
  · rfl
  · dsimp only
    split <;> rfl

theorem tmdBodyEnd_take (h : 4 ≤ size) : tmdBodyEnd (bytes.take size) = tmdBodyEnd bytes := by
  unfold tmdBodyEnd
  rw [sectionType_take h]

/-- A size that covers the body covers what declares the number of chunks. -/
theorem declaredChunks_take (hsignature : getSignatureSize (sectionType bytes) ≠ 0)
    (h : 4 ≤ size) (hcovers : tmdBodyEnd bytes ≤ size) :
    declaredChunks (bytes.take size) = declaredChunks bytes ∧
      tmdEnd (bytes.take size) = tmdEnd bytes := by
  have hend : tmdBodyEnd bytes = bodyStart (sectionType bytes) + tmdBodySize := if_neg hsignature
  have hcount : declaredChunks (bytes.take size) = declaredChunks bytes := by
    unfold declaredChunks
    rw [sectionType_take h, List.drop_take, List.take_take, Nat.min_eq_left (by omega)]
  refine ⟨hcount, ?_⟩
  unfold tmdEnd
  rw [hcount, sectionType_take h, tmdBodyEnd_take h]

/-- A size that covers what is looked at makes no difference. -/
theorem tmdOutcome_take (hsize : 4 ≤ size) (hle : size ≤ bytes.length)
    (hcovers : bytes.length < tmdBodyEnd bytes ∨
      tmdBodyEnd bytes ≤ size ∧ (bytes.length < tmdEnd bytes ∨ tmdEnd bytes ≤ size)) :
    tmdOutcome tmd (bytes.take size) = tmdOutcome tmd bytes := by
  have hlength : (bytes.take size).length = size := by
    rw [List.length_take, Nat.min_eq_left hle]
  have hsome : ¬ size < 4 := by omega
  have hsome' : ¬ bytes.length < 4 := by omega
  unfold tmdOutcome
  rw [hlength, sectionType_take hsize, tmdBodyEnd_take hsize, if_neg hsome, if_neg hsome']
  by_cases hsignature : getSignatureSize (sectionType bytes) = 0
  · rw [if_pos (.inl hsignature), if_pos (.inl hsignature)]
  · rcases hcovers with hshort | ⟨hcovers, hchunks⟩
    · rw [if_pos (.inr (by omega)), if_pos (.inr hshort)]
    · have hbounds := (bodyStart_bounds (sectionType bytes)).1
      have hend : tmdBodyEnd bytes = bodyStart (sectionType bytes) + tmdBodySize :=
        if_neg hsignature
      have hgood : ∀ n, tmdBodyEnd bytes ≤ n →
          ¬ (getSignatureSize (sectionType bytes) = 0 ∨ n < tmdBodyEnd bytes) := by
        rintro n hn (h | h)
        · exact hsignature h
        · omega
      obtain ⟨hcount, htmdEnd⟩ := declaredChunks_take hsignature hsize hcovers
      rw [if_neg (hgood size hcovers), if_neg (hgood bytes.length (by omega)), List.drop_take,
        List.take_take, Nat.min_eq_left (by omega), List.drop_take, List.take_take,
        Nat.min_eq_left (by omega), hcount, htmdEnd]
      dsimp only
      rcases hchunks with hcut | hchunks
      · rw [if_pos (by omega), if_pos hcut]
      · have hexpected : tmdEnd bytes =
            tmdBodyEnd bytes + declaredChunks bytes * contentChunkSize := if_neg hsignature
        rw [if_neg (by omega), if_neg (by omega), List.drop_take, chunksOf_take (by omega)]

/-- Whole chunks are added to those that are there. -/
theorem tmdOutcome_chunks (h : HoldsTmd bytes) :
    (tmdOutcome tmd bytes).2.tmdChunks =
      tmd.tmdChunks ++ chunksOf (bytes.drop (tmdBodyEnd bytes)) (declaredChunks bytes) := by
  obtain ⟨hsome, hsignature, hend⟩ := h
  have hbody := tmdBodyEnd_le bytes
  have hshort : ¬ bytes.length < 4 := by omega
  have hgood : ¬ (getSignatureSize (sectionType bytes) = 0 ∨ bytes.length < tmdBodyEnd bytes) := by
    rintro (h | h)
    · exact hsignature h
    · omega
  have hwhole : ¬ bytes.length < tmdEnd bytes := by omega
  unfold tmdOutcome
  rw [if_neg hshort, if_neg hgood]
  dsimp only
  rw [if_neg hwhole]

/-- A size that cuts a whole body off leaves it as it was. -/
theorem tmdOutcome_cut (hsize : 4 ≤ size) (hle : size ≤ bytes.length)
    (hcut : size < tmdBodyEnd bytes) :
    tmdOutcome tmd (bytes.take size) =
      (.error, { tmd with signatureType := sectionType bytes }) := by
  have hlength : (bytes.take size).length = size := by
    rw [List.length_take, Nat.min_eq_left hle]
  have hsome : ¬ size < 4 := by omega
  unfold tmdOutcome
  rw [hlength, sectionType_take hsize, tmdBodyEnd_take hsize, if_neg hsome, if_pos (.inr hcut)]

/-- A size that covers the body but cuts whole chunks off is malformed. -/
theorem tmdOutcome_malformed (hsignature : getSignatureSize (sectionType bytes) ≠ 0)
    (hsize : 4 ≤ size) (hle : size ≤ bytes.length) (hbody : tmdBodyEnd bytes ≤ size)
    (hcut : size < tmdEnd bytes) :
    (tmdOutcome tmd (bytes.take size)).1 = .errorInvalidFormat := by
  have hlength : (bytes.take size).length = size := by
    rw [List.length_take, Nat.min_eq_left hle]
  have hsome : ¬ size < 4 := by omega
  have hgood : ¬ (getSignatureSize (sectionType bytes) = 0 ∨ size < tmdBodyEnd bytes) := by
    rintro (h | h)
    · exact hsignature h
    · omega
  unfold tmdOutcome
  rw [hlength, sectionType_take hsize, tmdBodyEnd_take hsize,
    (declaredChunks_take hsignature hsize hbody).2, if_neg hsome, if_neg hgood]
  dsimp only
  rw [if_pos hcut]

/-- Whole bodies are loaded. -/
theorem tmdOutcome_body (hsignature : getSignatureSize (sectionType bytes) ≠ 0)
    (hwhole : tmdBodyEnd bytes ≤ bytes.length) :
    (tmdOutcome tmd bytes).2.tmdBody =
      (bytes.drop (bodyStart (sectionType bytes))).take tmdBodySize := by
  have hend : tmdBodyEnd bytes = bodyStart (sectionType bytes) + tmdBodySize := if_neg hsignature
  have hsome : ¬ bytes.length < 4 := by
    have hbounds := (bodyStart_bounds (sectionType bytes)).1
    omega
  have hgood : ¬ (getSignatureSize (sectionType bytes) = 0 ∨ bytes.length < tmdBodyEnd bytes) := by
    rintro (h | h)
    · exact hsignature h
    · omega
  unfold tmdOutcome
  rw [if_neg hsome, if_neg hgood]
  dsimp only
  split <;> rfl

end Metadata

end Borked3DS.Analysis
