import Borked3DS.Interface.MovieRuns

/-!
# Movies are played back as they were recorded

Each sample is written in seven bytes and read back from them. A recording puts them one behind the
other, the file has them behind its header, and the playback takes them in the same order.
-/

set_option autoImplicit false

namespace Borked3DS.Analysis

open Borked3DS.Library Borked3DS.Model Borked3DS.Model.Core Borked3DS.Interface

/-! ## Bytes behind bytes -/

section Bytes

variable {front rest : List UInt8} {m k n width : ℕ}

theorem drop_behind (h : front.length = m) : (front ++ rest).drop (m + k) = rest.drop k := by
  rw [← h, List.drop_append, List.drop_of_length_le (Nat.le_add_right _ _), List.nil_append,
    Nat.add_sub_cancel_left]

theorem fieldAt_behind (h : front.length = m) :
    fieldAt (front ++ rest) (m + k) n = fieldAt rest k n := by
  unfold fieldAt
  rw [drop_behind h]

theorem fieldAt_front (h : n < 256 ^ width) :
    fieldAt (toLittleEndian width n ++ rest) 0 width = n := @fieldAt_append [] rest width n h

theorem length_u16Bytes (x : UInt16) : (u16Bytes x).length = 2 := length_toLittleEndian 2 _

theorem u16At_behind (h : front.length = m) : u16At (front ++ rest) (m + k) = u16At rest k := by
  unfold u16At
  rw [fieldAt_behind h]

theorem u16At_front (x : UInt16) : u16At (u16Bytes x ++ rest) 0 = x := by
  unfold u16At u16Bytes
  rw [fieldAt_front x.toNat_lt, UInt16.ofNat_toNat]

/-- The last two bytes of a sample. -/
theorem u16At_last (x : UInt16) : u16At (u16Bytes x) 0 = x := by
  have h := @u16At_front [] x
  rwa [List.append_nil] at h

end Bytes

/-! ## Samples -/

section Samples

variable {given : Sample}

theorem length_payload (given : Sample) : given.payload.length = 6 := by
  cases given <;> simp [Sample.payload, u16Bytes]

theorem length_controllerState (given : Sample) :
    given.controllerState.length = CONTROLLER_STATE_SIZE := by
  unfold Sample.controllerState
  rw [List.length_cons, length_payload]
  rfl

/-- Three numbers in a row are read back. -/
theorem u16At_triple (x y z : UInt16) :
    u16At (u16Bytes x ++ u16Bytes y ++ u16Bytes z) 0 = x ∧
      u16At (u16Bytes x ++ u16Bytes y ++ u16Bytes z) 2 = y ∧
      u16At (u16Bytes x ++ u16Bytes y ++ u16Bytes z) 4 = z := by
  rw [List.append_assoc]
  refine ⟨u16At_front x, ?_, ?_⟩
  · exact (u16At_behind (k := 0) (length_u16Bytes x)).trans (u16At_front y)
  · exact ((u16At_behind (k := 2) (length_u16Bytes x)).trans
      (u16At_behind (k := 0) (length_u16Bytes y))).trans (u16At_last z)

theorem zl_apart_zr : zlField.Apart zrField := by decide

/-- The fields of a sample are in its payload. -/
theorem sameFields_assign {sample : Sample} (h : given.type = sample.type) :
    SameFields sample (given.assign sample.payload) := by
  cases sample with
  | padAndCircle padState x y =>
    cases given <;> cases h
    case padAndCircle padState' x' y' =>
    have hpad : copyFields padFields padState 0 < 256 ^ 2 :=
      copyFields_lt (by decide : 0 < 2 ^ 16) (by decide)
    dsimp only [Sample.payload, Sample.assign, SameFields]
    rw [List.append_assoc, fieldAt_front hpad]
    refine ⟨?_, ?_, ?_⟩
    · intro f hf
      rw [get_copyFields (by decide) hf, get_copyFields (by decide) hf]
    · exact (u16At_behind (k := 0) (length_toLittleEndian 2 _)).trans (u16At_front x)
    · exact ((u16At_behind (k := 2) (length_toLittleEndian 2 _)).trans
        (u16At_behind (k := 0) (length_u16Bytes x))).trans (u16At_last y)
  | touch x y valid =>
    cases given <;> cases h
    case touch x' y' valid' =>
    have hvalid : validField.get valid < 256 ^ 1 :=
      Nat.lt_trans BitField.get_lt (by decide : 2 ^ 7 < 256 ^ 1)
    dsimp only [Sample.payload, Sample.assign, SameFields]
    rw [List.append_assoc, List.append_assoc]
    refine ⟨u16At_front x, ?_, ?_⟩
    · exact (u16At_behind (k := 0) (length_u16Bytes x)).trans (u16At_front y)
    · have hfield : fieldAt (u16Bytes x ++ (u16Bytes y ++
          (toLittleEndian 1 (validField.get valid) ++ [0]))) 4 1 = validField.get valid :=
        ((fieldAt_behind (k := 2) (length_u16Bytes x)).trans
          (fieldAt_behind (k := 0) (length_u16Bytes y))).trans (fieldAt_front hvalid)
      rw [hfield, BitField.get_assign]
      exact Nat.mod_eq_of_lt BitField.get_lt
  | accelerometer x y z =>
    cases given <;> cases h
    exact u16At_triple x y z
  | gyroscope x y z =>
    cases given <;> cases h
    exact u16At_triple x y z
  | irRst padState x y =>
    cases given <;> cases h
    case irRst padState' x' y' =>
    have hzl : zlField.get padState < 256 ^ 1 :=
      Nat.lt_trans BitField.get_lt (by decide : 2 ^ 1 < 256 ^ 1)
    have hzr : zrField.get padState < 256 ^ 1 :=
      Nat.lt_trans BitField.get_lt (by decide : 2 ^ 1 < 256 ^ 1)
    dsimp only [Sample.payload, Sample.assign, SameFields]
    rw [List.append_assoc, List.append_assoc]
    have hzlAt : fieldAt (u16Bytes x ++ (u16Bytes y ++ (toLittleEndian 1 (zlField.get padState) ++
        toLittleEndian 1 (zrField.get padState)))) 4 1 = zlField.get padState :=
      ((fieldAt_behind (k := 2) (length_u16Bytes x)).trans
        (fieldAt_behind (k := 0) (length_u16Bytes y))).trans (fieldAt_front hzl)
    have hzrAt : fieldAt (u16Bytes x ++ (u16Bytes y ++ (toLittleEndian 1 (zlField.get padState) ++
        toLittleEndian 1 (zrField.get padState)))) 5 1 = zrField.get padState := by
      have hlast := @fieldAt_front [] _ _ hzr
      rw [List.append_nil] at hlast
      exact (((fieldAt_behind (k := 3) (length_u16Bytes x)).trans
        (fieldAt_behind (k := 1) (length_u16Bytes y))).trans
          (fieldAt_behind (k := 0) (length_toLittleEndian 1 _))).trans hlast
    rw [hzlAt, hzrAt]
    refine ⟨?_, ?_, u16At_front x, ?_⟩
    · rw [BitField.get_assign_of_apart (Or.symm zl_apart_zr), BitField.get_assign]
      exact Nat.mod_eq_of_lt BitField.get_lt
    · rw [BitField.get_assign]
      exact Nat.mod_eq_of_lt BitField.get_lt
    · exact (u16At_behind (k := 0) (length_u16Bytes x)).trans (u16At_front y)
  | extraHidResponse cStick buttons =>
    cases given <;> cases h
    case extraHidResponse cStick' buttons' =>
    have hhex : copyFields heldFields buttons (copyFields stickFields cStick
        (copyFields batteryFields buttons 0)) < 256 ^ 4 :=
      copyFields_lt (copyFields_lt (copyFields_lt (by decide : 0 < 2 ^ 32) (by decide))
        (by decide)) (by decide)
    dsimp only [Sample.payload, Sample.assign, SameFields]
    rw [fieldAt_front hhex]
    refine ⟨?_, ?_⟩
    · intro f hf
      have hheld : ∀ g ∈ heldFields, g.Apart f := by
        revert f
        decide
      rw [get_copyFields (by decide) hf, get_copyFields_of_apart hheld,
        get_copyFields (by decide) hf]
    · intro f hf
      rcases List.mem_append.mp hf with hbattery | hheld
      · have hapart : (∀ g ∈ heldFields, g.Apart f) ∧ ∀ g ∈ stickFields, g.Apart f := by
          rw [List.mem_singleton.mp hbattery]
          decide
        rw [get_copyFields_of_apart hapart.1, get_copyFields (by decide) hbattery,
          get_copyFields_of_apart hapart.1, get_copyFields_of_apart hapart.2,
          get_copyFields (by decide) hbattery]
      · rw [get_copyFields (by decide) hheld, get_copyFields (by decide) hheld]

/-- A sample that is recorded is played back to a call of its type. -/
theorem sameFields_play {sample : Sample} (h : given.type = sample.type) :
    SameFields sample (given.play sample.controllerState) := by
  unfold Sample.controllerState Sample.play
  dsimp only
  rw [if_pos (congrArg _ h.symm)]
  exact sameFields_assign h

end Samples

/-! ## Recordings -/

section Recordings

variable {movie : Movie} {given sample : Sample} {recorded : List Sample}

/-- The samples of a recording, one behind the other. -/
def inputOf (recorded : List Sample) : List UInt8 := recorded.flatMap Sample.controllerState

theorem length_inputOf (recorded : List Sample) :
    (inputOf recorded).length = CONTROLLER_STATE_SIZE * recorded.length := by
  induction recorded with
  | nil => rfl
  | cons given recorded ih =>
    change (given.controllerState ++ inputOf recorded).length = _
    rw [List.length_append, ih, length_controllerState, List.length_cons, Nat.mul_succ,
      Nat.add_comm]

/-- A sample is recorded behind the others. -/
theorem recordedInput_record (h : movie.currentByte = movie.recordedInput.length) :
    (movie.record given).recordedInput = movie.recordedInput ++ given.controllerState := by
  unfold Movie.record overwrite resize
  dsimp only
  rw [h, length_controllerState, List.take_of_length_le (Nat.le_add_right _ _),
    Nat.add_sub_cancel_left, List.take_left, List.drop_of_length_le, List.append_nil]
  simp

theorem handle_recording (h : movie.playMode = .Recording) :
    movie.handle given = .ok (movie.record given, given) := by
  unfold Movie.handle
  rw [h]

/-- A recording appends the samples, in their order. -/
theorem handleAll_recording (hmode : movie.playMode = .Recording)
    (hbyte : movie.currentByte = movie.recordedInput.length) :
    ∃ movie', handleAll movie recorded = .ok (movie', recorded) ∧
      movie'.recordedInput = movie.recordedInput ++ inputOf recorded := by
  induction recorded generalizing movie with
  | nil => exact ⟨movie, rfl, (List.append_nil _).symm⟩
  | cons given recorded ih =>
    have hinput : (movie.record given).recordedInput =
        movie.recordedInput ++ given.controllerState := recordedInput_record hbyte
    have hnext : (movie.record given).currentByte =
        (movie.record given).recordedInput.length := by
      rw [hinput, List.length_append, length_controllerState, ← hbyte]
      rfl
    obtain ⟨movie', hrest, hall⟩ := @ih (movie.record given) hmode hnext
    refine ⟨movie', ?_, ?_⟩
    · rw [handleAll, handle_recording hmode, ok_bind]
      dsimp only
      rw [hrest, ok_bind]
    · rw [hall, hinput, List.append_assoc]
      rfl

end Recordings

/-! ## Files -/

section Files

variable {g_scm_rev : List Char}

/-- The digits of a byte. -/
theorem hexDigit_hexDigits {k : ℕ} (h : k < 16) : hexDigit (hexDigits.getD k '0') = some k := by
  revert k
  decide

/-- The text of a hash is read back. -/
theorem hexDecode_hexText (hash : List UInt8) : hexDecode (hexText hash) = hash := by
  unfold hexDecode
  induction hash with
  | nil => rfl
  | cons byte hash ih =>
    have hbyte := byte.toNat_lt
    have htext : hexText (byte :: hash) = hexDigits.getD (byte.toNat / 16) '0' ::
        hexDigits.getD (byte.toNat % 16) '0' :: hexText hash := rfl
    rw [htext, List.filterMap_cons_some (hexDigit_hexDigits (by omega)),
      List.filterMap_cons_some (hexDigit_hexDigits (Nat.mod_lt _ (by decide))), hexPairs, ih,
      Nat.div_add_mod, UInt8.ofNat_toNat]

/-- The fields of a header with a fixed size have that size. -/
structure HeaderSized (header : CTMHeader) : Prop where
  filetype : header.filetype.length = 4
  revision : header.revision.length = 20
  author : header.author.length = 32

theorem length_toBytes {header : CTMHeader} (h : HeaderSized header) :
    header.toBytes.length = CTM_HEADER_SIZE := by
  unfold CTMHeader.toBytes
  simp only [List.length_append, length_toLittleEndian, List.length_replicate, h.filetype,
    h.revision, h.author]
  rfl

theorem take_behind {front rest : List UInt8} {m : ℕ} (h : front.length = m) :
    (front ++ rest).take m = front := by
  rw [← h, List.take_left]

/-- What is checked of a header, and what the playback takes from it. -/
theorem header_ofBytes {header : CTMHeader} (h : HeaderSized header) :
    (CTMHeader.ofBytes header.toBytes).filetype = header.filetype ∧
      (CTMHeader.ofBytes header.toBytes).revision = header.revision ∧
      (CTMHeader.ofBytes header.toBytes).inputCount = header.inputCount := by
  unfold CTMHeader.ofBytes CTMHeader.toBytes
  dsimp only
  refine ⟨take_behind h.filetype, ?_, ?_⟩
  · change (List.drop (4 + (8 + 0)) _).take 20 = _
    rw [drop_behind h.filetype, drop_behind (length_toLittleEndian 8 _), List.drop_zero,
      take_behind h.revision]
  · change UInt64.ofNat (fieldAt _ (4 + (8 + (20 + (8 + (8 + (32 + (4 + 0))))))) 8) = _
    rw [fieldAt_behind h.filetype, fieldAt_behind (length_toLittleEndian 8 _),
      fieldAt_behind h.revision, fieldAt_behind (length_toLittleEndian 8 _),
      fieldAt_behind (length_toLittleEndian 8 _), fieldAt_behind h.author,
      fieldAt_behind (length_toLittleEndian 4 _), fieldAt_front header.inputCount.toNat_lt,
      UInt64.ofNat_toNat]

/-- The file of a movie: a header whose fields have their sizes, and the samples. -/
theorem saveMovie_ok (movie : Movie) (h : IsHash g_scm_rev) :
    ∃ header, HeaderSized header ∧ header.filetype = headerMagicBytes ∧
      hexText header.revision = g_scm_rev ∧
      header.inputCount = getInputCount movie.recordedInput ∧
      movie.saveMovie g_scm_rev = .ok (header.toBytes ++ movie.recordedInput) := by
  obtain ⟨hash, hlength, rfl⟩ := h
  have hread : readRun Fault.undefined (hexDecode (hexText hash)) 0 20 = .ok hash := by
    unfold readRun
    rw [hexDecode_hexText, Nat.zero_add, if_pos (Nat.le_of_eq hlength.symm), List.drop_zero,
      ← hlength, List.take_length]
  unfold Movie.saveMovie
  rw [hread, ok_bind]
  refine ⟨_, ⟨rfl, hlength, ?_⟩, rfl, rfl, rfl, rfl⟩
  unfold resize
  simp only [List.length_append, List.length_take, List.length_replicate]
  omega

/-- The file of a movie that is not empty is valid. -/
theorem validateMovie_file {header : CTMHeader} {input : List UInt8} (h : HeaderSized header)
    (hmagic : header.filetype = headerMagicBytes) (hrevision : hexText header.revision = g_scm_rev)
    (hcount : header.inputCount = getInputCount input) (hsome : input ≠ []) :
    validateMovie g_scm_rev (header.toBytes ++ input) = .OK := by
  obtain ⟨hfiletype, hrevision', hcount'⟩ := header_ofBytes h
  have hlength := length_toBytes h
  have hpositive := List.length_pos_of_ne_nil hsome
  unfold validateMovie validateHeader validateInput
  rw [if_neg (by rw [List.length_append, hlength]; omega), take_behind hlength]
  dsimp only
  rw [hfiletype, hrevision', hcount', hmagic, hrevision]
  have hdrop : (header.toBytes ++ input).drop CTM_HEADER_SIZE = input :=
    (drop_behind (k := 0) hlength)
  rw [hdrop, hcount]
  simp

/-- The playback of the file of a movie begins with its first sample. -/
theorem startPlayback_file {header : CTMHeader} {input : List UInt8} (player : Movie)
    (h : HeaderSized header) (hmagic : header.filetype = headerMagicBytes)
    (hrevision : hexText header.revision = g_scm_rev) (hsome : input ≠ []) :
    (player.startPlayback g_scm_rev (header.toBytes ++ input)).playMode = .Playing ∧
      (player.startPlayback g_scm_rev (header.toBytes ++ input)).recordedInput = input ∧
      (player.startPlayback g_scm_rev (header.toBytes ++ input)).currentByte = 0 := by
  obtain ⟨hfiletype, hrevision', -⟩ := header_ofBytes h
  have hlength := length_toBytes h
  have hpositive := List.length_pos_of_ne_nil hsome
  have hvalid : validateHeader g_scm_rev (CTMHeader.ofBytes header.toBytes) ≠ .Invalid := by
    unfold validateHeader
    rw [hfiletype, hrevision', hmagic, hrevision]
    simp
  unfold Movie.startPlayback
  rw [if_pos (by rw [List.length_append, hlength]; omega), take_behind hlength]
  dsimp only
  rw [if_pos hvalid]
  exact ⟨rfl, (drop_behind (k := 0) hlength), rfl⟩

end Files

/-! ## Playback -/

section Playback

variable {movie : Movie} {sample given : Sample} {recorded : List Sample} {front : List UInt8}

/-- A call takes the sample at the current place. -/
theorem handle_playing (hmode : movie.playMode = .Playing)
    (hinput : movie.recordedInput = front ++ inputOf (sample :: recorded))
    (hbyte : movie.currentByte = front.length) :
    movie.handle given = .ok (Movie.checkInputEnd { movie with
      currentByte := movie.currentByte + CONTROLLER_STATE_SIZE
      currentInput := movie.countInput given }, given.play sample.controllerState) := by
  have hlength := length_controllerState sample
  have hsplit : inputOf (sample :: recorded) = sample.controllerState ++ inputOf recorded := rfl
  have hleft : movie.currentByte + CONTROLLER_STATE_SIZE ≤ movie.recordedInput.length := by
    rw [hinput, hsplit, hbyte, List.length_append, List.length_append, hlength]
    omega
  have hread : readRun Fault.undefined movie.recordedInput movie.currentByte
      CONTROLLER_STATE_SIZE = .ok sample.controllerState := by
    unfold readRun
    rw [if_pos hleft, hinput, hbyte, List.drop_left, hsplit, ← hlength, List.take_left]
  unfold Movie.handle Movie.play
  rw [hmode]
  dsimp only
  rw [assert, if_pos hleft, ok_bind, hread, ok_bind, ok_bind]

/-- What is left of the input is played to calls of the types that were recorded. -/
theorem playsBack_of_input {calls : List Sample}
    (hinput : movie.recordedInput = front ++ inputOf recorded)
    (hbyte : movie.currentByte = front.length)
    (hmode : movie.playMode = if recorded = [] then .MovieFinished else .Playing)
    (htypes : calls.map Sample.type = recorded.map Sample.type) :
    PlaysBack movie recorded calls := by
  induction recorded generalizing movie front calls with
  | nil =>
    obtain rfl := List.map_eq_nil_iff.mp htypes
    exact hmode.trans (if_pos rfl)
  | cons sample recorded ih =>
    cases calls with
    | nil => cases htypes
    | cons given calls =>
      obtain ⟨htype, hrest⟩ := List.cons.inj htypes
      rw [if_neg (List.cons_ne_nil _ _)] at hmode
      refine ⟨hmode, _, _, handle_playing hmode hinput hbyte, sameFields_play htype, ?_⟩
      have hlength := length_controllerState sample
      have hnext : movie.recordedInput =
          (front ++ sample.controllerState) ++ inputOf recorded := by
        rw [hinput, List.append_assoc]
        rfl
      have hend : movie.currentByte + CONTROLLER_STATE_SIZE + CONTROLLER_STATE_SIZE >
          movie.recordedInput.length ↔ recorded = [] := by
        rw [hnext, hbyte, List.length_append, List.length_append, hlength, length_inputOf]
        unfold CONTROLLER_STATE_SIZE
        rw [← List.length_eq_zero_iff]
        omega
      have hcheck : Movie.checkInputEnd { movie with
          currentByte := movie.currentByte + CONTROLLER_STATE_SIZE
          currentInput := movie.countInput given } = { movie with
          currentByte := movie.currentByte + CONTROLLER_STATE_SIZE
          currentInput := movie.countInput given
          playMode := if recorded = [] then .MovieFinished else .Playing } := by
        unfold Movie.checkInputEnd
        dsimp only
        by_cases hlast : recorded = []
        · rw [if_pos (hend.mpr hlast), if_pos hlast]
        · rw [if_neg fun h => hlast (hend.mp h), if_neg hlast, hmode]
      rw [hcheck]
      refine ih hnext ?_ rfl hrest
      dsimp only
      rw [hbyte, List.length_append, hlength]

end Playback

/-- Samples that are recorded from the beginning of a movie and saved are played back to calls of
the same types. -/
theorem movieRoundTrips {g_scm_rev : List Char} {recorder : Movie} {recorded given : List Sample}
    (player : Movie) (hrevision : IsHash g_scm_rev) (hfresh : FreshRecording recorder)
    (hsome : recorded ≠ []) (htypes : given.map Sample.type = recorded.map Sample.type) :
    MovieRoundTrips g_scm_rev recorder player recorded given := by
  have hbyte : recorder.currentByte = recorder.recordedInput.length := by
    rw [hfresh.currentByte, hfresh.recordedInput]
    rfl
  obtain ⟨movie, hrecord, hinput⟩ :
      ∃ movie, handleAll recorder recorded = .ok (movie, recorded) ∧
        movie.recordedInput = recorder.recordedInput ++ inputOf recorded :=
    handleAll_recording hfresh.playMode hbyte
  rw [hfresh.recordedInput, List.nil_append] at hinput
  have hne : movie.recordedInput ≠ [] := by
    intro hnil
    have hlength := length_inputOf recorded
    rw [← hinput, hnil] at hlength
    have hpositive := List.length_pos_of_ne_nil hsome
    unfold CONTROLLER_STATE_SIZE at hlength
    rw [List.length_nil] at hlength
    omega
  obtain ⟨header, hsized, hmagic, htext, hcount, hsave⟩ := saveMovie_ok movie hrevision
  obtain ⟨hmode, hplayed, hstart⟩ := startPlayback_file player hsized hmagic htext hne
  refine ⟨movie, _, hrecord, hsave, validateMovie_file hsized hmagic htext hcount hne, ?_⟩
  have hfront := hplayed.trans (hinput.trans (List.nil_append (inputOf recorded)).symm)
  refine playsBack_of_input hfront hstart ?_ htypes
  rw [hmode, if_neg hsome]

theorem movieRoundTrips_twoSamples :
    MovieRoundTrips (hexText (List.replicate 20 0xA5)) { playMode := .Recording } {}
      [.touch 160 120 1, .padAndCircle 0x301 0xFF00 7]
      [.touch 0 0 0, .padAndCircle 0x10000002 0 0] :=
  movieRoundTrips {} ⟨_, rfl, rfl⟩ ⟨rfl, rfl, rfl⟩ (by decide) rfl

/-- The file of a movie without samples is refused. -/
theorem not_movieRoundTrips_empty :
    ¬ MovieRoundTrips (hexText (List.replicate 20 0xA5)) { playMode := .Recording } {} [] [] := by
  rintro ⟨movie, file, hrecord, hsave, hvalid, -⟩
  cases hrecord
  have hfile : ((Movie.saveMovie { playMode := .Recording }
      (hexText (List.replicate 20 0xA5))).toOption.map fun file =>
        validateMovie (hexText (List.replicate 20 0xA5)) file) = some .Invalid := by
    decide +kernel
  rw [hsave] at hfile
  have hinvalid := Option.some.inj hfile
  dsimp only at hinvalid
  rw [hvalid] at hinvalid
  cases hinvalid

end Borked3DS.Analysis
