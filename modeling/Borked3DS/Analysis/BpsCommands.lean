import Mathlib.Data.Nat.Bitwise
import Mathlib.Data.Nat.ModEq
import Mathlib.Tactic.Ring
import Borked3DS.Interface.Patches

/-!
# Patch streams and patch commands

Reading a stream of a patch, and one turn of the patcher against the meaning of its action.
-/

set_option autoImplicit false

namespace Borked3DS.Analysis

open Borked3DS.Library Borked3DS.Model Borked3DS.Model.Bps Borked3DS.Interface

/-!
## Reading a patch stream

What the operations of a stream do to the bytes that are still unread, and that reading a number is
decoding it.
-/

/-- The bytes of a stream from its position on. -/
def unread (s : Stream) : List UInt8 := s.data.drop s.offset

/-- A buffer that a `std::vector` can hold. -/
def Holds (s : Stream) : Prop := s.data.length < 2 ^ 63

theorem length_unread (s : Stream) : (unread s).length = s.data.length - s.offset :=
  List.length_drop

theorem offset_eq (s : Stream) : s.offset = s.data.length - (unread s).length := by
  have hle := s.offset_le
  rw [length_unread]
  omega

section Streams

variable {s t : Stream} {n : ℕ}

/-- Streams over one buffer with the same bytes left are the same. -/
theorem stream_ext (hdata : s.data = t.data) (hunread : unread s = unread t) : s = t := by
  have hs := offset_eq s
  have ht := offset_eq t
  rw [hdata, hunread, ← ht] at hs
  cases s
  cases t
  subst hdata
  subst hs
  rfl

/-- The sum that a bound is checked with does not wrap. -/
theorem u64_offset (hs : Holds s) (hn : n ≤ 2 ^ 32) : u64 (s.offset + n) = s.offset + n := by
  have hle := s.offset_le
  unfold Holds at hs
  exact u64_of_lt (by omega)

theorem size_lt_iff (hs : Holds s) (hn : n ≤ 2 ^ 32) :
    s.size < u64 (s.offset + n) ↔ (unread s).length < n := by
  have hle := s.offset_le
  rw [u64_offset hs hn, length_unread]
  unfold Stream.size
  omega

/-- Reading more than is left fails. -/
theorem read_of_lt (hs : Holds s) (hn : n ≤ 2 ^ 32) (h : (unread s).length < n) :
    s.read n = .ok (none, s) := by
  unfold Stream.read
  rw [dif_pos ((size_lt_iff hs hn).mpr h)]

/-- Reading what is left gives its head and leaves the rest. -/
theorem read_of_le (hs : Holds s) (hn : n ≤ 2 ^ 32) (h : n ≤ (unread s).length) :
    ∃ t, s.read n = .ok (some ((unread s).take n), t) ∧ t.data = s.data ∧
      unread t = (unread s).drop n := by
  have hle := s.offset_le
  have hlen := length_unread s
  have hin : ¬ s.size < u64 (s.offset + n) := by
    rw [size_lt_iff hs hn]
    omega
  have hread : readRun Fault.undefined s.data s.offset n = .ok ((unread s).take n) :=
    if_pos (by omega)
  refine ⟨⟨s.data, u64 (s.offset + n), Nat.le_of_not_lt hin⟩, ?_, rfl, ?_⟩
  · unfold Stream.read
    rw [dif_neg hin, hread, ok_bind]
    rfl
  · show s.data.drop (u64 (s.offset + n)) = (s.data.drop s.offset).drop n
    rw [u64_offset hs hn, List.drop_drop]

/-- Copying from a stream to another one that has no room fails. -/
theorem copyFrom_full (other : Stream) (hs : Holds s) (hn : n ≤ 2 ^ 32)
    (h : (unread s).length < n) : s.copyFrom other n = .ok (false, s, other) := by
  unfold Stream.copyFrom
  rw [dif_pos ((size_lt_iff hs hn).mpr h)]

/-- Copying more than is left fails. -/
theorem copyFrom_short {other : Stream} (hs : Holds s) (hother : Holds other) (hn : n ≤ 2 ^ 32)
    (hroom : n ≤ (unread s).length) (h : (unread other).length < n) :
    s.copyFrom other n = .ok (false, s, other) := by
  have hin : ¬ s.size < u64 (s.offset + n) := by
    rw [size_lt_iff hs hn]
    omega
  unfold Stream.copyFrom
  rw [dif_neg hin, read_of_lt hother hn h, ok_bind]
  rfl

/-- Copying overwrites the head of what is left. -/
theorem copyFrom_of_le {other : Stream} (hs : Holds s) (hother : Holds other) (hn : n ≤ 2 ^ 32)
    (hroom : n ≤ (unread s).length) (h : n ≤ (unread other).length) :
    ∃ t other', s.copyFrom other n = .ok (true, t, other') ∧
      t.data = overwrite s.data s.offset ((unread other).take n) ∧ t.offset = s.offset + n ∧
      other'.data = other.data ∧ unread other' = (unread other).drop n := by
  have hle := s.offset_le
  have hlen := length_unread s
  have hin : ¬ s.size < u64 (s.offset + n) := by
    rw [size_lt_iff hs hn]
    omega
  obtain ⟨other', hread, hdata, hrest⟩ := read_of_le hother hn h
  have hfits : s.offset + ((unread other).take n).length ≤ s.data.length := by
    rw [List.length_take]
    omega
  refine ⟨⟨overwrite s.data s.offset ((unread other).take n), u64 (s.offset + n), ?_⟩, other', ?_,
    rfl, u64_offset hs hn, hdata, hrest⟩
  · rw [length_overwrite hfits]
    exact Nat.le_of_not_lt hin
  · unfold Stream.copyFrom
    rw [dif_neg hin, hread, ok_bind]
    dsimp only
    rw [dif_pos hfits]
    rfl

theorem readU8_nil (hs : Holds s) (h : unread s = []) : s.readU8 = .ok (none, s) := by
  unfold Stream.readU8
  rw [read_of_lt hs (by omega) (by rw [h]; decide), ok_bind]
  rfl

theorem readU8_cons {x : UInt8} {xs : List UInt8} (hs : Holds s) (h : unread s = x :: xs) :
    ∃ t, s.readU8 = .ok (some x, t) ∧ t.data = s.data ∧ unread t = xs := by
  obtain ⟨t, hread, hdata, hrest⟩ := read_of_le hs (n := 1) (by omega) (by rw [h]; simp)
  rw [h] at hread hrest
  refine ⟨t, ?_, hdata, hrest⟩
  unfold Stream.readU8
  rw [hread, ok_bind]
  rfl

theorem readU32_of_lt (hs : Holds s) (h : (unread s).length < 4) : s.readU32 = .ok (none, s) := by
  unfold Stream.readU32
  rw [read_of_lt hs (by omega) h, ok_bind]
  rfl

theorem readU32_of_le (hs : Holds s) (h : 4 ≤ (unread s).length) :
    ∃ t, s.readU32 = .ok (some (ofLittleEndian ((unread s).take 4)), t) ∧ t.data = s.data ∧
      unread t = (unread s).drop 4 := by
  obtain ⟨t, hread, hdata, hrest⟩ := read_of_le hs (by omega) h
  refine ⟨t, ?_, hdata, hrest⟩
  unfold Stream.readU32
  rw [hread, ok_bind]
  rfl

theorem seek_of_le (h : n ≤ s.data.length) :
    ∃ t, s.seek n = (true, t) ∧ t.data = s.data ∧ unread t = s.data.drop n ∧ t.offset = n := by
  have hin : ¬ s.size < n := Nat.not_lt.mpr h
  unfold Stream.seek
  rw [dif_neg hin]
  exact ⟨_, rfl, rfl, rfl, rfl⟩

theorem seek_of_lt (h : s.data.length < n) : s.seek n = (false, s) := by
  have hout : s.size < n := h
  unfold Stream.seek
  rw [dif_pos hout]

end Streams

section Numbers

theorem and_127 (x : ℕ) : x &&& 0x7f = x % 128 := Nat.and_two_pow_sub_one_eq_mod x 7

theorem length_numberRest (bytes : List UInt8) : (numberRest bytes).length ≤ bytes.length - 1 := by
  induction bytes with
  | nil => exact Nat.le_refl _
  | cons x xs ih =>
      rw [numberRest, List.length_cons]
      split <;> omega

/-- The step of a number: a byte with seven bits of it, then the others. -/
theorem number_step (data shift x v : ℕ) :
    u32 (u32 (u32 (data + u32 (x * shift)) + u32 (shift <<< 7)) + u32 (shift <<< 7) * v) =
      u32 (data + shift * (x + 128 * (1 + v))) := by
  have hcongr : data + x * shift + shift * 128 + shift * 128 * v =
      data + shift * (x + 128 * (1 + v)) := by ring
  unfold u32
  rw [Nat.shiftLeft_eq, ← hcongr]
  have hmul : shift * 128 % 2 ^ 32 * v ≡ shift * 128 * v [MOD 2 ^ 32] :=
    (Nat.mod_modEq _ _).mul_right v
  have hhead : ((data + x * shift % 2 ^ 32) % 2 ^ 32 + shift * 2 ^ 7 % 2 ^ 32) % 2 ^ 32 ≡
      data + x * shift + shift * 128 [MOD 2 ^ 32] := by
    unfold Nat.ModEq
    omega
  exact hhead.add hmul

/-- The loop of `ReadNumber` adds the number, shifted, and stops behind it. -/
theorem readNumberLoop_eq {fuel : ℕ} {s : Stream} (data shift : ℕ) (hs : Holds s)
    (hdata : data < 2 ^ 32) (hfuel : (unread s).length < fuel) :
    ∃ t, Stream.readNumberLoop fuel s data shift =
        .ok (u32 (data + shift * numberValue (unread s)), t) ∧
      t.data = s.data ∧ unread t = numberRest (unread s) := by
  induction fuel generalizing s data shift with
  | zero => omega
  | succ fuel ih =>
      rw [Stream.readNumberLoop]
      cases hunread : unread s with
      | nil =>
          rw [readU8_nil hs hunread, ok_bind]
          refine ⟨s, ?_, rfl, hunread⟩
          rw [numberValue, Nat.mul_zero, Nat.add_zero, u32_of_lt hdata]
          rfl
      | cons x xs =>
          obtain ⟨t, hread, ht, hxs⟩ := readU8_cons hs hunread
          rw [hread, ok_bind]
          dsimp only
          rw [numberValue, numberRest, and_127]
          by_cases hlast : isLastByte x = true
          · have hbit : x.toNat &&& 0x80 ≠ 0 := of_decide_eq_true hlast
            rw [if_pos hbit, if_pos hlast, if_pos hlast]
            refine ⟨t, ?_, ht, hxs⟩
            rw [Nat.add_zero, Nat.mul_comm shift]
            unfold u32
            rw [Nat.add_mod_mod]
            rfl
          · have hbit : ¬ (x.toNat &&& 0x80 ≠ 0) := fun h => hlast (decide_eq_true h)
            have hlen : (unread t).length < fuel := by
              rw [hunread, List.length_cons] at hfuel
              rw [hxs]
              omega
            have htholds : Holds t := by
              unfold Holds
              rw [ht]
              exact hs
            rw [if_neg hbit, if_neg hlast, if_neg hlast]
            obtain ⟨t', hloop, ht', hrest⟩ := ih
              (u32 (u32 (data + u32 (x.toNat % 128 * shift)) + u32 (shift <<< 7)))
              (u32 (shift <<< 7)) htholds (u32_lt _) hlen
            rw [hxs] at hloop hrest
            refine ⟨t', ?_, ht'.trans ht, hrest⟩
            rw [hloop, number_step]

/-- Reading a number is decoding the unread bytes. -/
theorem readNumber_eq {s : Stream} (hs : Holds s) :
    ∃ t, s.readNumber = .ok ((decodeNumber (unread s)).1, t) ∧ t.data = s.data ∧
      unread t = (decodeNumber (unread s)).2 := by
  have hfuel : (unread s).length < s.size + 1 := by
    rw [length_unread]
    unfold Stream.size
    omega
  obtain ⟨t, hloop, hdata, hrest⟩ := readNumberLoop_eq 0 1 hs (Nat.two_pow_pos 32) hfuel
  rw [Nat.zero_add, Nat.one_mul] at hloop
  exact ⟨t, hloop, hdata, hrest⟩

theorem decodeNumber_lt (bytes : List UInt8) : (decodeNumber bytes).1 < 2 ^ 32 := u32_lt _

end Numbers

end Borked3DS.Analysis

/-!
## Handling a patch command

One turn of the patcher against the meaning of the action at the head of the unread bytes. The
patcher holds what the actions so far have made, with zeros behind it.
-/

namespace Borked3DS.Analysis

open Borked3DS.Library Borked3DS.Model Borked3DS.Model.Bps Borked3DS.Interface

/-- The patcher stands where some actions have led, before the rest of the patch. -/
structure Represents (source patch : List UInt8) (a : PatchApplier) (s : BpsState)
    (rest : List UInt8) : Prop where
  source_data : a.source.data = source
  patch_data : a.patch.data = patch
  unread_patch : unread a.patch = rest
  out_le : s.out.length ≤ source.length
  target_data : a.target.data = s.out ++ List.replicate (source.length - s.out.length) 0
  target_offset : a.target.offset = s.out.length
  source_copy : a.sourceRelativeOffset = s.sourceOffset
  target_copy : a.targetRelativeOffset = s.targetOffset
  sourceOffset_le : s.sourceOffset ≤ source.length
  targetOffset_le : s.targetOffset ≤ source.length

/-- A turn either goes on to what an action has made, or fails. -/
def Handles (source patch : List UInt8) (result : Exec (Bool × PatchApplier)) :
    Option (BpsState × List UInt8) → Prop
  | some (s, rest) => ∃ a, result = .ok (true, a) ∧ Represents source patch a s rest
  | none => ∃ a, result = .ok (false, a)

theorem length_copyWithin (out : List UInt8) (offset n : ℕ) :
    (copyWithin out offset n).length = out.length + n := by
  induction n generalizing out offset with
  | zero => rfl
  | succ n ih =>
      rw [copyWithin, ih, List.length_append, List.length_singleton]
      omega

section Offsets

variable {offset data : ℕ}

/-- Moving an offset adds the signed number, modulo `2 ^ 64`. -/
theorem moveOffset_eq (hoffset : offset < 2 ^ 63) (hdata : data < 2 ^ 32) :
    (moveOffset offset data : ℤ) = (offset + signedDelta data) % 2 ^ 64 := by
  have hbit : data &&& 1 = data % 2 := Nat.and_two_pow_sub_one_eq_mod data 1
  have hshift : data >>> 1 = data / 2 := Nat.shiftRight_eq_div_pow data 1
  unfold moveOffset signedDelta u64Sub u64
  rw [hbit, hshift]
  by_cases hodd : data % 2 = 1
  · rw [if_pos (by omega), if_pos hodd]
    omega
  · rw [if_neg (by omega), if_neg hodd]
    omega

theorem moveOffset_of_nonneg (hoffset : offset < 2 ^ 63) (hdata : data < 2 ^ 32)
    (h : 0 ≤ offset + signedDelta data) :
    moveOffset offset data = (offset + signedDelta data).toNat := by
  have hmove := moveOffset_eq hoffset hdata
  unfold signedDelta at *
  split at hmove <;> omega

/-- An offset that would be negative is huge. -/
theorem moveOffset_of_neg (hoffset : offset < 2 ^ 63) (hdata : data < 2 ^ 32)
    (h : offset + signedDelta data < 0) :
    (moveOffset offset data : ℤ) = offset + signedDelta data + 2 ^ 64 ∧
      2 ^ 63 ≤ moveOffset offset data := by
  have hmove := moveOffset_eq hoffset hdata
  unfold signedDelta at *
  split at hmove <;> omega

end Offsets

section Commands

variable {source patch rest : List UInt8} {a : PatchApplier} {s : BpsState} {length : ℕ}

namespace Represents

theorem holds_source (h : Represents source patch a s rest) (hsource : source.length < 2 ^ 63) :
    Holds a.source := by
  unfold Holds
  rw [h.source_data]
  exact hsource

theorem holds_patch (h : Represents source patch a s rest) (hpatch : patch.length < 2 ^ 63) :
    Holds a.patch := by
  unfold Holds
  rw [h.patch_data]
  exact hpatch

theorem length_target (h : Represents source patch a s rest) :
    a.target.data.length = source.length := by
  have hle := h.out_le
  rw [h.target_data, List.length_append, List.length_replicate]
  omega

theorem holds_target (h : Represents source patch a s rest) (hsource : source.length < 2 ^ 63) :
    Holds a.target := by
  unfold Holds
  rw [h.length_target]
  exact hsource

theorem length_unread_target (h : Represents source patch a s rest) :
    (unread a.target).length = source.length - s.out.length := by
  rw [length_unread, h.length_target, h.target_offset]

/-- Writing at the position of the target puts bytes behind what is made. -/
theorem overwrite_target (h : Represents source patch a s rest) {bytes : List UInt8}
    (hroom : s.out.length + bytes.length ≤ source.length) :
    overwrite a.target.data a.target.offset bytes =
      s.out ++ bytes ++ List.replicate (source.length - (s.out ++ bytes).length) 0 := by
  have hwrite : writeRun Fault.undefined
      (s.out ++ List.replicate (source.length - s.out.length) 0) s.out.length bytes = _ :=
    writeRun_append_replicate (by omega)
  rw [writeRun_ok (by rw [List.length_append, List.length_replicate]; omega)] at hwrite
  rw [h.target_data, h.target_offset, Except.ok.inj hwrite, List.length_append]
  congr 2
  omega

end Represents

/-- Reading the next number moves on in the patch alone. -/
theorem readNumber_represents (h : Represents source patch a s rest)
    (hpatch : patch.length < 2 ^ 63) :
    ∃ p, a.patch.readNumber = .ok ((decodeNumber rest).1, p) ∧
      Represents source patch { a with patch := p } s (decodeNumber rest).2 := by
  obtain ⟨p, hread, hdata, hunread⟩ := readNumber_eq (h.holds_patch hpatch)
  rw [h.unread_patch] at hread hunread
  exact ⟨p, hread, { h with patch_data := hdata.trans h.patch_data, unread_patch := hunread }⟩

theorem sourceRead_handles (h : Represents source patch a s rest)
    (hsource : source.length < 2 ^ 63) (hlength : length ≤ 2 ^ 32) :
    Handles source patch (a.sourceRead length)
      (((BpsAction.sourceRead length).perform source source.length s).map (·, rest)) := by
  have hle := h.out_le
  have htarget := h.length_unread_target
  obtain ⟨src, hseek, hdata, hunread, _⟩ :=
    seek_of_le (s := a.source) (n := a.target.offset) (by rw [h.source_data, h.target_offset]; omega)
  rw [h.source_data, h.target_offset] at hunread
  have hsrc : Holds src := by
    unfold Holds
    rw [hdata]
    exact h.holds_source hsource
  have hleft : (unread src).length = source.length - s.out.length := by
    rw [hunread, List.length_drop]
  unfold PatchApplier.sourceRead BpsAction.perform
  rw [hseek]
  dsimp only
  by_cases hroom : s.out.length + length ≤ source.length
  · obtain ⟨t, src', hcopy, htdata, htoffset, hsdata, hsrest⟩ :=
      copyFrom_of_le (h.holds_target hsource) hsrc hlength (by omega) (by omega)
    have hbytes : ((source.drop s.out.length).take length).length = length := by
      rw [List.length_take, List.length_drop]
      omega
    rw [hunread, h.overwrite_target (by omega)] at htdata
    rw [hcopy, if_pos ⟨hroom, hroom⟩]
    refine ⟨_, rfl, { h with
      source_data := hsdata.trans (hdata.trans h.source_data)
      out_le := ?_
      target_data := htdata
      target_offset := ?_ }⟩
    · rw [List.length_append]
      omega
    · rw [List.length_append, hbytes]
      exact htoffset.trans (congrArg (· + length) h.target_offset)
  · rw [copyFrom_full src (h.holds_target hsource) hlength (by omega),
      if_neg (fun hc => hroom hc.1)]
    exact ⟨_, rfl⟩

theorem targetRead_handles (h : Represents source patch a s rest)
    (hsource : source.length < 2 ^ 63) (hpatch : patch.length < 2 ^ 63)
    (hlength : length ≤ 2 ^ 32) (hle : length ≤ rest.length) :
    Handles source patch (a.targetRead length)
      (((BpsAction.targetRead (rest.take length)).perform source source.length s).map
        (·, rest.drop length)) := by
  have hbytes : (rest.take length).length = length := by
    rw [List.length_take]
    omega
  have hleft : length ≤ (unread a.patch).length := by rw [h.unread_patch]; exact hle
  have htarget := h.length_unread_target
  have hout := h.out_le
  unfold PatchApplier.targetRead BpsAction.perform
  dsimp only
  rw [hbytes]
  by_cases hroom : s.out.length + length ≤ source.length
  · obtain ⟨t, p, hcopy, htdata, htoffset, hpdata, hprest⟩ :=
      copyFrom_of_le (h.holds_target hsource) (h.holds_patch hpatch) hlength (by omega) hleft
    rw [h.unread_patch, h.overwrite_target (by omega)] at htdata
    rw [hcopy, if_pos hroom]
    refine ⟨_, rfl, { h with
      patch_data := hpdata.trans h.patch_data
      unread_patch := ?_
      out_le := ?_
      target_data := htdata
      target_offset := ?_ }⟩
    · rw [← h.unread_patch]
      exact hprest
    · rw [List.length_append]
      omega
    · rw [List.length_append, hbytes]
      exact htoffset.trans (congrArg (· + length) h.target_offset)
  · rw [copyFrom_full a.patch (h.holds_target hsource) hlength (by omega), if_neg hroom]
    exact ⟨_, rfl⟩

/-- A command whose own bytes are cut short fails. -/
theorem targetRead_short (h : Represents source patch a s rest)
    (hsource : source.length < 2 ^ 63) (hpatch : patch.length < 2 ^ 63)
    (hlength : length ≤ 2 ^ 32) (hlt : rest.length < length) :
    ∃ a', a.targetRead length = .ok (false, a') := by
  have hleft : (unread a.patch).length < length := by rw [h.unread_patch]; exact hlt
  unfold PatchApplier.targetRead
  by_cases hroom : length ≤ (unread a.target).length
  · rw [copyFrom_short (h.holds_target hsource) (h.holds_patch hpatch) hlength hroom hleft]
    exact ⟨_, rfl⟩
  · rw [copyFrom_full a.patch (h.holds_target hsource) hlength (by omega)]
    exact ⟨_, rfl⟩

theorem sourceCopy_handles (h : Represents source patch a s rest)
    (hsource : source.length < 2 ^ 63) (hpatch : patch.length < 2 ^ 63)
    (hlength : length ≤ 2 ^ 32) :
    Handles source patch (a.sourceCopy length)
      (((BpsAction.sourceCopy length (signedDelta (decodeNumber rest).1)).perform source
        source.length s).map (·, (decodeNumber rest).2)) := by
  obtain ⟨p, hread, hp⟩ := readNumber_represents h hpatch
  have hcopy := h.sourceOffset_le
  have hdata := decodeNumber_lt rest
  have htarget := h.length_unread_target
  have hout := h.out_le
  unfold PatchApplier.sourceCopy BpsAction.perform
  rw [hread, ok_bind, h.source_copy]
  dsimp only
  generalize hstart : (s.sourceOffset : ℤ) + signedDelta (decodeNumber rest).1 = start
  by_cases hneg : start < 0
  · obtain ⟨-, hhuge⟩ := moveOffset_of_neg (by omega) hdata (hstart ▸ hneg)
    rw [seek_of_lt (by rw [h.source_data]; omega), if_neg (by omega)]
    exact ⟨_, rfl⟩
  · have hmove : moveOffset s.sourceOffset (decodeNumber rest).1 = start.toNat := by
      rw [moveOffset_of_nonneg (by omega) hdata (by omega), hstart]
    rw [hmove]
    by_cases hinside : start.toNat ≤ source.length
    · obtain ⟨src, hseek, hsdata, hsrest, -⟩ :=
        seek_of_le (s := a.source) (n := start.toNat) (by rw [h.source_data]; exact hinside)
      rw [h.source_data] at hsrest
      have hsrc : Holds src := by
        unfold Holds
        rw [hsdata]
        exact h.holds_source hsource
      have hleft : (unread src).length = source.length - start.toNat := by
        rw [hsrest, List.length_drop]
      rw [hseek]
      dsimp only
      by_cases hroom : s.out.length + length ≤ source.length
      · by_cases hend : start.toNat + length ≤ source.length
        · have hbytes : ((source.drop start.toNat).take length).length = length := by
            rw [List.length_take, List.length_drop]
            omega
          obtain ⟨t, src', hfrom, htdata, htoffset, hsdata', -⟩ :=
            copyFrom_of_le (h.holds_target hsource) hsrc hlength (by omega) (by omega)
          rw [hsrest, h.overwrite_target (by omega)] at htdata
          rw [hfrom, if_pos ⟨hroom, by omega, by omega⟩]
          refine ⟨_, rfl, { hp with
            source_data := hsdata'.trans (hsdata.trans h.source_data)
            out_le := ?_
            target_data := htdata
            target_offset := ?_
            source_copy := u64_of_lt (by omega)
            sourceOffset_le := hend }⟩
          · rw [List.length_append]
            omega
          · rw [List.length_append, hbytes]
            exact htoffset.trans (congrArg (· + length) h.target_offset)
        · rw [copyFrom_short (h.holds_target hsource) hsrc hlength (by omega) (by omega),
            if_neg (by omega)]
          exact ⟨_, rfl⟩
      · rw [copyFrom_full src (h.holds_target hsource) hlength (by omega),
          if_neg (fun hc => hroom hc.1)]
        exact ⟨_, rfl⟩
    · rw [seek_of_lt (by rw [h.source_data]; omega), if_neg (by omega)]
      exact ⟨_, rfl⟩

/-- The byte by byte copy of a target that holds what is made and zeros. The place to read may catch
up with what the copy itself has written. -/
theorem copyBytes_eq {out : List UInt8} {size offset n : ℕ} {t : Stream} (hsize : size < 2 ^ 63)
    (hdata : t.data = out ++ List.replicate (size - out.length) 0)
    (hroom : out.length + n ≤ size) (hend : offset + n ≤ size) :
    ∃ t', PatchApplier.copyBytes n out.length offset t = .ok (offset + n, t') ∧
      t'.data = copyWithin out offset n ++ List.replicate (size - (out.length + n)) 0 ∧
      t'.offset = t.offset := by
  induction n generalizing out offset t with
  | zero => exact ⟨t, rfl, hdata, rfl⟩
  | succ n ih =>
      have hlen : t.data.length = size := by
        rw [hdata, List.length_append, List.length_replicate]
        omega
      have hread : readAt Fault.undefined t.data offset = .ok (out.getD offset 0) := by
        apply readAt_eq_ok.mpr
        rw [hdata, List.getD_eq_getElem?_getD]
        by_cases hin : offset < out.length
        · rw [List.getElem?_append_left hin, List.getElem?_eq_getElem hin]
          rfl
        · rw [List.getElem?_append_right (Nat.le_of_not_lt hin), List.getElem?_replicate,
            if_pos (by omega), List.getElem?_eq_none (Nat.le_of_not_lt hin)]
          rfl
      have hplace : out.length < t.size := by
        unfold Stream.size
        omega
      have hset : t.data.set out.length (out.getD offset 0) =
          (out ++ [out.getD offset 0]) ++
            List.replicate (size - (out ++ [out.getD offset 0]).length) 0 := by
        have hzeros : List.replicate (size - out.length) (0 : UInt8) =
            0 :: List.replicate (size - (out ++ [out.getD offset 0]).length) 0 := by
          rw [List.length_append, List.length_singleton, ← List.replicate_succ]
          congr 1
          omega
        rw [hdata, hzeros, List.set_append_right _ _ (Nat.le_refl _), Nat.sub_self,
          List.set_cons_zero, List.append_assoc]
        rfl
      unfold PatchApplier.copyBytes Stream.store
      rw [hread, ok_bind, if_pos hplace, ok_bind, u64_of_lt (by omega)]
      have hnext : offset + 1 + n ≤ size := by omega
      obtain ⟨t', hcopy, hdata', hoffset⟩ := ih
        (t := { t with
          data := t.data.set out.length (out.getD offset 0)
          offset_le := by rw [List.length_set]; exact t.offset_le }) hset
        (by rw [List.length_append, List.length_singleton]; omega) hnext
      rw [List.length_append, List.length_singleton] at hcopy hdata'
      refine ⟨t', ?_, ?_, hoffset⟩
      · rw [hcopy]
        congr 2
        omega
      · rw [hdata', copyWithin]
        congr 2
        omega

theorem targetCopy_handles (h : Represents source patch a s rest)
    (hsource : source.length < 2 ^ 63) (hpatch : patch.length < 2 ^ 63)
    (hlength : length ≤ 2 ^ 32)
    (hsafe : ¬ (BpsAction.targetCopy length (signedDelta (decodeNumber rest).1)).Escapes
      source.length s) :
    Handles source patch (a.targetCopy length)
      (((BpsAction.targetCopy length (signedDelta (decodeNumber rest).1)).perform source
        source.length s).map (·, (decodeNumber rest).2)) := by
  obtain ⟨p, hread, hp⟩ := readNumber_represents h hpatch
  have hcopy := h.targetOffset_le
  have hdata := decodeNumber_lt rest
  have hout := h.out_le
  have hsize : a.target.size = source.length := h.length_target
  dsimp only [BpsAction.Escapes] at hsafe
  unfold PatchApplier.targetCopy BpsAction.perform
  rw [hread, ok_bind, h.target_copy, hsize, h.target_offset, u64_of_lt (by omega)]
  dsimp only
  by_cases hroom : s.out.length + length ≤ source.length
  · rw [if_neg (by omega)]
    generalize hstart : (s.targetOffset : ℤ) + signedDelta (decodeNumber rest).1 = start at *
    by_cases hneg : start < 0
    · obtain ⟨hmove, hhuge⟩ := moveOffset_of_neg (by omega) hdata (hstart ▸ hneg)
      have hbefore : start + length < 0 := by
        by_contra hreach
        exact hsafe ⟨hroom, hneg, by omega⟩
      have hwrap : u64 (moveOffset s.targetOffset (decodeNumber rest).1 + length) =
          moveOffset s.targetOffset (decodeNumber rest).1 + length := u64_of_lt (by omega)
      rw [hwrap, if_pos (by omega), if_neg (by omega)]
      exact ⟨_, rfl⟩
    · have hmove : moveOffset s.targetOffset (decodeNumber rest).1 = start.toNat := by
        rw [moveOffset_of_nonneg (by omega) hdata (by omega), hstart]
      have hstart_le : start ≤ 2 ^ 63 + 2 ^ 32 := by
        unfold signedDelta at hstart
        split at hstart <;> omega
      rw [hmove, u64_of_lt (by omega)]
      by_cases hend : start.toNat + length ≤ source.length
      · obtain ⟨t, hbytes, htdata, htoffset⟩ :=
          copyBytes_eq (t := a.target) hsource h.target_data hroom hend
        have hlen : t.data.length = source.length := by
          rw [htdata, List.length_append, length_copyWithin, List.length_replicate]
          omega
        have hplace : u64 (t.offset + length) = s.out.length + length := by
          rw [htoffset, h.target_offset]
          exact u64_of_lt (by omega)
        obtain ⟨t', hseek, htdata', -, htoffset'⟩ :=
          seek_of_le (s := t) (n := s.out.length + length) (by omega)
        rw [if_neg (by omega), hbytes, ok_bind, if_pos ⟨hroom, by omega, by omega⟩]
        dsimp only
        rw [hplace, hseek]
        refine ⟨_, rfl, { hp with
          out_le := ?_
          target_data := ?_
          target_offset := ?_
          target_copy := rfl
          targetOffset_le := hend }⟩
        · rw [length_copyWithin]
          exact hroom
        · rw [length_copyWithin]
          exact htdata'.trans htdata
        · rw [length_copyWithin]
          exact htoffset'
      · rw [if_pos (by omega), if_neg (by omega)]
        exact ⟨_, rfl⟩
  · rw [if_pos (by omega), if_neg (fun hc => hroom hc.1)]
    exact ⟨_, rfl⟩

/-- A copy that escapes passes the check, since its sum wraps, and reads before the target. -/
theorem targetCopy_fault (h : Represents source patch a s rest)
    (hsource : source.length < 2 ^ 63) (hpatch : patch.length < 2 ^ 63)
    (hescape : (BpsAction.targetCopy length (signedDelta (decodeNumber rest).1)).Escapes
      source.length s) : a.targetCopy length = .error .undefined := by
  obtain ⟨p, hread, hp⟩ := readNumber_represents h hpatch
  obtain ⟨hroom, hneg, hreach⟩ := hescape
  have hcopy := h.targetOffset_le
  have hsize : a.target.size = source.length := h.length_target
  obtain ⟨hmove, hhuge⟩ := moveOffset_of_neg (by omega) (decodeNumber_lt rest) hneg
  have hwrap : u64 (moveOffset s.targetOffset (decodeNumber rest).1 + length) ≤ source.length := by
    unfold u64
    omega
  unfold PatchApplier.targetCopy
  rw [hread, ok_bind, h.target_copy, hsize, h.target_offset, u64_of_lt (by omega)]
  dsimp only
  rw [if_neg (by omega), if_neg (by omega)]
  cases length with
  | zero => omega
  | succ length =>
      have hout : a.target.data.length ≤ moveOffset s.targetOffset (decodeNumber rest).1 := by
        rw [h.length_target]
        omega
      unfold PatchApplier.copyBytes
      rw [readAt_of_length_le hout]
      rfl

/-- What the next turn should make of what is made. -/
def nextState (source : List UInt8) (s : BpsState) (rest : List UInt8) :
    Option (BpsState × List UInt8) :=
  (decodeAction rest).bind fun next =>
    (next.1.perform source source.length s).map (·, next.2)

theorem nextState_of_decode {action : BpsAction} {mid : List UInt8}
    (hhead : decodeAction rest = some (action, mid)) :
    nextState source s rest = (action.perform source source.length s).map (·, mid) := by
  unfold nextState
  rw [hhead]
  rfl

/-- A turn reads a number, whose lowest two bits are the command. -/
theorem handleCommand_eq {data : ℕ} {mid : List UInt8} (h : Represents source patch a s rest)
    (hpatch : patch.length < 2 ^ 63) (hnumber : decodeNumber rest = (data, mid)) :
    ∃ p, Represents source patch { a with patch := p } s mid ∧
      a.handleCommand = match data % 4 with
        | 0 => PatchApplier.sourceRead { a with patch := p } (data / 4 + 1)
        | 1 => PatchApplier.targetRead { a with patch := p } (data / 4 + 1)
        | 2 => PatchApplier.sourceCopy { a with patch := p } (data / 4 + 1)
        | 3 => PatchApplier.targetCopy { a with patch := p } (data / 4 + 1)
        | _ => .ok (false, { a with patch := p }) := by
  obtain ⟨p, hread, hp⟩ := readNumber_represents h hpatch
  have hdata := decodeNumber_lt rest
  rw [hnumber] at hread hp hdata
  dsimp only at hread hp hdata
  have hkind : data &&& 3 = data % 4 := Nat.and_two_pow_sub_one_eq_mod data 2
  have hlength : u32 (data >>> 2 + 1) = data / 4 + 1 := by
    rw [Nat.shiftRight_eq_div_pow]
    exact u32_of_lt (by omega)
  refine ⟨p, hp, ?_⟩
  unfold PatchApplier.handleCommand
  rw [hread, ok_bind]
  dsimp only
  rw [hkind, hlength]
  rfl

/-- A turn does what the action at the head of the unread bytes means. -/
theorem handleCommand_handles (h : Represents source patch a s rest)
    (hsource : source.length < 2 ^ 63) (hpatch : patch.length < 2 ^ 63)
    (hsafe : ∀ action mid, decodeAction rest = some (action, mid) →
      ¬ action.Escapes source.length s) :
    Handles source patch a.handleCommand (nextState source s rest) := by
  have hdata := decodeNumber_lt rest
  cases hnumber : decodeNumber rest with
  | mk data mid =>
      obtain ⟨p, hp, hturn⟩ := handleCommand_eq h hpatch hnumber
      have hfits : data / 4 + 1 ≤ 2 ^ 32 := by
        rw [hnumber] at hdata
        omega
      have hlt : data % 4 < 4 := Nat.mod_lt _ (by decide)
      unfold nextState
      unfold decodeAction at hsafe ⊢
      rw [hnumber] at hsafe ⊢
      rw [hturn]
      dsimp only at hsafe ⊢
      generalize data % 4 = kind at hsafe hlt ⊢
      match kind with
      | 0 => exact sourceRead_handles hp hsource hfits
      | 1 =>
          by_cases hbytes : data / 4 + 1 ≤ mid.length
          · rw [if_pos hbytes]
            exact targetRead_handles hp hsource hpatch hfits hbytes
          · rw [if_neg hbytes]
            exact targetRead_short hp hsource hpatch hfits (Nat.lt_of_not_le hbytes)
      | 2 => exact sourceCopy_handles hp hsource hpatch hfits
      | 3 => exact targetCopy_handles hp hsource hpatch hfits (hsafe _ _ rfl)
      | kind + 4 => omega

/-- A turn that reaches an escaping action faults. -/
theorem handleCommand_fault {action : BpsAction} {mid : List UInt8}
    (h : Represents source patch a s rest)
    (hsource : source.length < 2 ^ 63) (hpatch : patch.length < 2 ^ 63)
    (hhead : decodeAction rest = some (action, mid)) (hescape : action.Escapes source.length s) :
    a.handleCommand = .error .undefined := by
  cases hnumber : decodeNumber rest with
  | mk data mid' =>
      obtain ⟨p, hp, hturn⟩ := handleCommand_eq h hpatch hnumber
      have hlt : data % 4 < 4 := Nat.mod_lt _ (by decide)
      unfold decodeAction at hhead
      rw [hnumber] at hhead
      rw [hturn]
      dsimp only at hhead ⊢
      generalize data % 4 = kind at hhead hlt ⊢
      match kind with
      | 0 =>
          cases hhead
          exact hescape.elim
      | 1 =>
          by_cases hbytes : data / 4 + 1 ≤ mid'.length
          · rw [if_pos hbytes] at hhead
            cases hhead
            exact hescape.elim
          · rw [if_neg hbytes] at hhead
            cases hhead
      | 2 =>
          cases hhead
          exact hescape.elim
      | 3 =>
          cases hhead
          exact targetCopy_fault hp hsource hpatch hescape
      | kind + 4 => omega

end Commands

end Borked3DS.Analysis
