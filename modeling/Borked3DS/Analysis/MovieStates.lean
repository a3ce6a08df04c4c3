import Borked3DS.Analysis.MoviePlayback
import Borked3DS.Interface.MovieRuns

/-!
# When savestates keep a movie consistent

A load writes the place and the clock of the state before it looks at the movie that the state is
of. So a load that is refused has moved the movie, and one that is not may have moved it to a place
that the mode it leaves does not allow.
-/

set_option autoImplicit false

namespace Borked3DS.Analysis

open Borked3DS.Library Borked3DS.Model Borked3DS.Model.Core Borked3DS.Interface

/-! ## Input -/

section Input

variable {movie : Movie}

/-- A recorded sample is the last one. -/
theorem onSample_record (h : OnSample movie) (given : Sample)
    (hmode : movie.playMode = .Recording) : OnSample (movie.record given) := by
  have hlength : (movie.record given).recordedInput.length =
      movie.currentByte + CONTROLLER_STATE_SIZE := by
    have hinside := h.inside
    unfold Movie.record overwrite resize
    simp only [List.length_append, List.length_take, List.length_drop, List.length_replicate,
      length_controllerState]
    omega
  refine ⟨Nat.dvd_add h.whole (Nat.dvd_refl _), Nat.le_of_eq hlength.symm,
    fun _ => hlength.symm, fun hplaying => ?_⟩
  cases hmode.symm.trans hplaying

theorem onSample_checkInputEnd (hwhole : CONTROLLER_STATE_SIZE ∣ movie.currentByte)
    (hinside : movie.currentByte ≤ movie.recordedInput.length)
    (hmode : movie.playMode = .Playing) : OnSample movie.checkInputEnd := by
  unfold Movie.checkInputEnd
  split
  · exact ⟨hwhole, hinside, nofun, nofun⟩
  · rename_i hleft
    exact ⟨hwhole, hinside, fun h => (nomatch hmode.symm.trans h), fun _ => Nat.le_of_not_lt hleft⟩

/-- The assertion holds on a sample, and the next place is on one. -/
theorem handle_onSample (h : OnSample movie) (given : Sample) :
    ∃ movie' left, movie.handle given = .ok (movie', left) ∧ OnSample movie' := by
  unfold Movie.handle
  cases hmode : movie.playMode with
  | None => exact ⟨_, _, rfl, h⟩
  | MovieFinished => exact ⟨_, _, rfl, h⟩
  | Recording => exact ⟨_, _, rfl, onSample_record h given hmode⟩
  | Playing =>
      have hleft := h.playing hmode
      dsimp only
      rw [assert, if_pos hleft, ok_bind, Movie.play, readRun, if_pos hleft, ok_bind, ok_bind]
      exact ⟨_, _, rfl, onSample_checkInputEnd (Nat.dvd_add h.whole (Nat.dvd_refl _)) hleft hmode⟩

/-- A file that is not refused needs a sample behind its header. -/
theorem startPlayback_onSample_iff (g_scm_rev : List Char) (movieFile : List UInt8)
    (h : OnSample movie) : OnSample (movie.startPlayback g_scm_rev movieFile) ↔
      (validateMovie g_scm_rev movieFile ≠ .Invalid →
        CTM_HEADER_SIZE + CONTROLLER_STATE_SIZE ≤ movieFile.length) := by
  unfold Movie.startPlayback validateMovie
  by_cases hsize : CTM_HEADER_SIZE < movieFile.length
  · rw [if_pos hsize, if_neg (Nat.not_le_of_lt hsize)]
    dsimp only
    by_cases hmagic : headerMagicBytes ≠
        (CTMHeader.ofBytes (movieFile.take CTM_HEADER_SIZE)).filetype
    · have hinvalid : validateHeader g_scm_rev
          (CTMHeader.ofBytes (movieFile.take CTM_HEADER_SIZE)) = .Invalid := if_pos hmagic
      rw [if_pos hmagic, if_neg (not_not_intro hinvalid)]
      exact iff_of_true h fun hvalid => absurd rfl hvalid
    · have hvalid : validateHeader g_scm_rev
          (CTMHeader.ofBytes (movieFile.take CTM_HEADER_SIZE)) ≠ .Invalid := by
        rw [validateHeader, if_neg hmagic]
        split <;> nofun
      have haccepted : (if validateHeader g_scm_rev
            (CTMHeader.ofBytes (movieFile.take CTM_HEADER_SIZE)) ≠ .OK then
          validateHeader g_scm_rev (CTMHeader.ofBytes (movieFile.take CTM_HEADER_SIZE))
        else if (CTMHeader.ofBytes (movieFile.take CTM_HEADER_SIZE)).inputCount = 0 then .OK
        else validateInput (movieFile.drop CTM_HEADER_SIZE)
          (CTMHeader.ofBytes (movieFile.take CTM_HEADER_SIZE)).inputCount) ≠ .Invalid := by
        split
        · exact hvalid
        · split
          · nofun
          · unfold validateInput
            split <;> nofun
      rw [if_neg hmagic, if_pos hvalid]
      have hleft : movieFile.length - CTM_HEADER_SIZE =
          (movieFile.drop CTM_HEADER_SIZE).length := List.length_drop.symm
      refine ⟨fun hplaying _ => ?_, fun hroom => ⟨Nat.dvd_zero _, Nat.zero_le _, nofun, fun _ => ?_⟩⟩
      · have hroom := hplaying.playing rfl
        dsimp only at hroom
        omega
      · have hroom := hroom haccepted
        dsimp only
        omega
  · rw [if_neg hsize, if_pos (Nat.le_of_not_lt hsize)]
    exact iff_of_true h fun hvalid => absurd rfl hvalid

end Input

/-! ## Loads -/

section Loads

variable {movie state : Movie}

/-- The movie with the place and the clock of a state. -/
def movedTo (movie state : Movie) : Movie :=
  { movie with
    currentByte := state.currentByte
    currentInput := state.currentInput
    initTime := state.initTime
    baseTicks := state.baseTicks }

theorem load_otherMovie (h : movie.id ≠ state.id) :
    ∃ e, movie.load state.save = (movedTo movie state, some e) := by
  unfold Movie.load
  dsimp only
  rw [if_pos (by exact h)]
  exact ⟨_, rfl⟩

theorem load_noMovie (h : movie.id = state.id) (hno : movie.id = 0) :
    movie.load state.save = (movedTo movie state, none) := by
  unfold Movie.load
  dsimp only
  rw [if_neg (not_not_intro (by exact h)), if_pos hno]
  rfl

section SameMovie

variable (h : movie.id = state.id) (hmovie : movie.id ≠ 0)

include h hmovie

/-- A state that was made behind the end of the input leaves the movie there, -/
theorem load_finished_readWrite (hreadOnly : movie.readOnly = false)
    (hstate : state.playMode = .MovieFinished) :
    movie.load state.save = ({ movedTo movie state with
      recordedInput := state.recordedInput
      playMode := .MovieFinished }, none) := by
  have hpost : state.save.postMovie = true := decide_eq_true hstate
  unfold Movie.load movedTo
  dsimp only
  rw [if_neg (not_not_intro (by exact h)), if_neg hmovie, if_pos hpost, hreadOnly]
  rfl

/-- in read-only mode with its own input. -/
theorem load_finished_readOnly (hreadOnly : movie.readOnly = true)
    (hstate : state.playMode = .MovieFinished) :
    movie.load state.save = ({ movedTo movie state with playMode := .MovieFinished }, none) := by
  have hpost : state.save.postMovie = true := decide_eq_true hstate
  unfold Movie.load movedTo
  dsimp only
  rw [if_neg (not_not_intro (by exact h)), if_neg hmovie, if_pos hpost, hreadOnly, if_pos rfl]
  rfl

theorem load_readWrite (hreadOnly : movie.readOnly = false)
    (hstate : state.playMode ≠ .MovieFinished) :
    movie.load state.save = ({ movedTo movie state with
      recordedInput := state.recordedInput
      playMode := .Recording
      rerecordCount := movie.rerecordCount + 1 }, none) := by
  have hpost : ¬ state.save.postMovie = true := by simpa [Movie.save] using hstate
  unfold Movie.load movedTo
  dsimp only
  rw [if_neg (not_not_intro (by exact h)), if_neg hmovie, if_neg hpost, hreadOnly]
  rfl

theorem load_earlier (hreadOnly : movie.readOnly = true)
    (hstate : state.playMode ≠ .MovieFinished)
    (hless : state.recordedInput.length < movie.recordedInput.length)
    (hbegins : state.recordedInput <+: movie.recordedInput) :
    movie.load state.save = ({ movedTo movie state with
      playMode := .Playing
      totalInput := getInputCount movie.recordedInput }, none) := by
  have hpost : ¬ state.save.postMovie = true := by simpa [Movie.save] using hstate
  have hsize : ¬ state.save.recordedInput.length ≥ movie.recordedInput.length :=
    Nat.not_le_of_lt hless
  unfold Movie.load movedTo
  dsimp only
  rw [if_neg (not_not_intro (by exact h)), if_neg hmovie, if_neg hpost, hreadOnly, if_pos rfl,
    if_pos rfl, if_neg hsize, if_neg (not_not_intro (by exact hbegins))]
  rfl

theorem load_notEarlier (hreadOnly : movie.readOnly = true)
    (hstate : state.playMode ≠ .MovieFinished)
    (hnot : ¬ (state.recordedInput.length < movie.recordedInput.length ∧
      state.recordedInput <+: movie.recordedInput)) :
    ∃ e, movie.load state.save = (movedTo movie state, some e) := by
  have hpost : ¬ state.save.postMovie = true := by simpa [Movie.save] using hstate
  unfold Movie.load movedTo
  dsimp only
  rw [if_neg (not_not_intro (by exact h)), if_neg hmovie, if_neg hpost, hreadOnly, if_pos rfl,
    if_pos rfl]
  by_cases hsize : state.save.recordedInput.length ≥ movie.recordedInput.length
  · rw [if_pos hsize]
    exact ⟨_, rfl⟩
  · rw [if_neg hsize, if_pos (by exact fun hbegins => hnot ⟨Nat.lt_of_not_le hsize, hbegins⟩)]
    exact ⟨_, rfl⟩

end SameMovie

/-- An accepted load has to leave the movie on a sample. -/
theorem loadRight_of_accepted {movie' : Movie} (h : movie.load state.save = (movie', none)) :
    OnSample (movie.load state.save).1 ∧ LoadRight movie state ↔ OnSample movie' := by
  rw [h]
  refine ⟨And.left, fun hsample => ⟨hsample, fun hrefused => ?_, fun _ _ => ?_⟩⟩
  · rw [h] at hrefused
    exact absurd rfl hrefused
  · rw [h]

/-- A refused load must have nothing to move. -/
theorem loadRight_of_refused {e : LoadError} (hsample : OnSample movie)
    (h : movie.load state.save = (movedTo movie state, some e)) :
    OnSample (movie.load state.save).1 ∧ LoadRight movie state ↔
      SamePlace movie state ∧ ¬ (movie.readOnly = true ∧ PlayedIn movie state) := by
  rw [h]
  constructor
  · rintro ⟨-, hrefused, hresumes⟩
    rw [h] at hrefused hresumes
    exact ⟨(hrefused nofun).1, fun ⟨hreadOnly, hplayed⟩ => nomatch hresumes hreadOnly hplayed⟩
  · rintro ⟨hplace, hnot⟩
    have hbyte : movie.currentByte = (movedTo movie state).currentByte := hplace.1
    refine ⟨⟨hbyte ▸ hsample.whole, hbyte ▸ hsample.inside, ?_, ?_⟩, ?_, ?_⟩
    · exact fun hmode => hbyte ▸ hsample.recording hmode
    · exact fun hmode => hbyte ▸ hsample.playing hmode
    · rw [h]
      exact fun _ => ⟨hplace, rfl⟩
    · exact fun hreadOnly hplayed => absurd ⟨hreadOnly, hplayed⟩ hnot

/-- What a load has to meet. -/
theorem loadRight_iff (hmovie : OnSample movie) (hstate : OnSample state) :
    OnSample (movie.load state.save).1 ∧ LoadRight movie state ↔ LoadFits movie state := by
  unfold LoadFits
  by_cases hid : movie.id ≠ state.id
  · obtain ⟨e, hload⟩ := load_otherMovie hid
    rw [if_pos hid, loadRight_of_refused hmovie hload]
    exact and_iff_left fun hplayed => hid hplayed.2.2.1.symm
  have hsame := not_not.mp hid
  rw [if_neg hid]
  by_cases hno : movie.id = 0
  · rw [if_pos hno, loadRight_of_accepted (load_noMovie hsame hno)]
    exact ⟨fun h => ⟨h.inside, h.recording, h.playing⟩,
      fun ⟨hinside, hrecording, hplaying⟩ => ⟨hstate.whole, hinside, hrecording, hplaying⟩⟩
  rw [if_neg hno]
  by_cases hfinished : state.playMode = .MovieFinished
  · cases hreadOnly : movie.readOnly with
    | false =>
        rw [if_pos rfl,
          loadRight_of_accepted (load_finished_readWrite hsame hno hreadOnly hfinished)]
        exact iff_of_true ⟨hstate.whole, hstate.inside, nofun, nofun⟩ (Or.inl hfinished)
    | true =>
        rw [if_neg nofun, if_pos hfinished,
          loadRight_of_accepted (load_finished_readOnly hsame hno hreadOnly hfinished)]
        exact ⟨fun h => h.inside, fun hinside => ⟨hstate.whole, hinside, nofun, nofun⟩⟩
  cases hreadOnly : movie.readOnly with
  | false =>
      rw [if_pos rfl, loadRight_of_accepted (load_readWrite hsame hno hreadOnly hfinished),
        or_iff_right hfinished]
      exact ⟨fun h => h.recording rfl,
        fun hend => ⟨hstate.whole, hstate.inside, fun _ => hend, nofun⟩⟩
  | true =>
      rw [if_neg nofun, if_neg hfinished]
      by_cases hearlier : state.recordedInput.length < movie.recordedInput.length ∧
          state.recordedInput <+: movie.recordedInput
      · rw [if_pos hearlier, loadRight_of_accepted
          (load_earlier hsame hno hreadOnly hfinished hearlier.1 hearlier.2)]
        exact ⟨fun h => h.playing rfl, fun hleft => ⟨hstate.whole,
          Nat.le_trans (Nat.le_add_right _ _) hleft, nofun, fun _ => hleft⟩⟩
      · obtain ⟨e, hload⟩ := load_notEarlier hsame hno hreadOnly hfinished hearlier
        rw [if_neg hearlier, loadRight_of_refused hmovie hload]
        apply and_congr_right
        intro _
        apply not_congr
        constructor
        · rintro ⟨-, hplaying, -, hbegins⟩
          refine ⟨hplaying, hbegins.eq_of_length_le (Nat.le_of_not_lt fun hless => ?_)⟩
          exact hearlier ⟨hless, hbegins⟩
        · rintro ⟨hplaying, hinput⟩
          exact ⟨hreadOnly, hplaying, hsame.symm, hinput ▸ List.prefix_rfl⟩

end Loads

/-! ## Runs -/

section Runs

variable {g_scm_rev : List Char} {s t : MovieStates} {event : MovieEvent}

/-- From states on samples no step fails. -/
theorem movieStep_ok (hs : AllOnSample s) (event : MovieEvent) :
    ∃ t, movieStep g_scm_rev s event = .ok t := by
  cases event with
  | input given =>
      obtain ⟨movie', left, hhandle, -⟩ := handle_onSample (hs _ List.mem_cons_self) given
      rw [movieStep, hhandle]
      exact ⟨_, rfl⟩
  | saveState => exact ⟨_, rfl⟩
  | loadState k =>
      dsimp only [movieStep]
      cases s.states[k]? <;> exact ⟨_, rfl⟩
  | setReadOnly readOnly => exact ⟨_, rfl⟩
  | startPlayback movieFile => exact ⟨_, rfl⟩

/-- What one step has to meet. -/
theorem movieStep_right_iff (hs : AllOnSample s) (h : movieStep g_scm_rev s event = .ok t) :
    AllOnSample t ∧ MovieEventRight s event ↔ MovieEventFits g_scm_rev s event := by
  have hmovie : OnSample s.movie := hs _ List.mem_cons_self
  have hstates : ∀ state ∈ s.states, OnSample state := fun state hmem =>
    hs _ (List.mem_cons_of_mem _ hmem)
  have hnext : ∀ movie : Movie, AllOnSample { s with movie } ↔ OnSample movie := fun movie =>
    ⟨fun hall => hall _ List.mem_cons_self, fun hsample => List.forall_mem_cons.mpr
      ⟨hsample, hstates⟩⟩
  cases event with
  | input given =>
      obtain ⟨movie', left, hhandle, hsample⟩ := handle_onSample hmovie given
      rw [movieStep, hhandle] at h
      cases h
      exact iff_of_true ⟨(hnext movie').mpr hsample, trivial⟩ trivial
  | saveState =>
      cases h
      refine iff_of_true ⟨List.forall_mem_cons.mpr ⟨hmovie, fun state hmem => ?_⟩, trivial⟩ trivial
      rcases List.mem_append.mp hmem with hmem | hmem
      · exact hstates state hmem
      · exact List.mem_singleton.mp hmem ▸ hmovie
  | loadState k =>
      dsimp only [movieStep] at h
      change AllOnSample t ∧ (∀ state, s.states[k]? = some state → LoadRight s.movie state) ↔
        ∀ state, s.states[k]? = some state → LoadFits s.movie state
      cases hstate : s.states[k]? with
      | none =>
          rw [hstate] at h
          cases h
          exact iff_of_true ⟨hs, fun _ hnone => nomatch hnone⟩ fun _ hnone => nomatch hnone
      | some state =>
          rw [hstate] at h
          cases h
          simp only [hnext, Option.some.injEq, forall_eq']
          exact loadRight_iff hmovie (hstates state (List.mem_of_getElem? hstate))
  | setReadOnly readOnly =>
      cases h
      have hsample : OnSample { s.movie with readOnly } :=
        ⟨hmovie.whole, hmovie.inside, hmovie.recording, hmovie.playing⟩
      exact iff_of_true ⟨(hnext _).mpr hsample, trivial⟩ trivial
  | startPlayback movieFile =>
      cases h
      rw [hnext, startPlayback_onSample_iff g_scm_rev movieFile hmovie]
      exact and_iff_left trivial

/-- A run from a movie on a sample is right exactly when each of its loads and files fits. -/
theorem movieStatesRight_iff (g_scm_rev : List Char) {s : MovieStates} (hs : AllOnSample s)
    (events : List MovieEvent) : MovieStatesRight g_scm_rev s events ↔
      EachStep (movieStep g_scm_rev) (MovieEventFits g_scm_rev) s events :=
  completes_and_eachStep_iff (fun _ event h => movieStep_ok h event)
    (fun _ _ _ h hstep => movieStep_right_iff h hstep) hs events

theorem allOnSample_recording (readOnly : Bool) (id : UInt64) :
    AllOnSample { movie := { playMode := .Recording, readOnly, id } } :=
  List.forall_mem_cons.mpr ⟨⟨Nat.dvd_zero _, Nat.le_refl _, fun _ => rfl, nofun⟩, nofun⟩

/-- A recording goes on from where a state of it was made. -/
theorem movieStatesRight_rerecording :
    MovieStatesRight [] { movie := { playMode := .Recording, readOnly := false, id := 1 } }
      [.input (.touch 1 2 1), .saveState, .input (.touch 3 4 1), .loadState 0] := by
  refine (movieStatesRight_iff [] (allOnSample_recording false 1) _).mpr ?_
  refine fun t ht => ⟨trivial, ?_⟩
  cases ht
  refine fun t ht => ⟨trivial, ?_⟩
  cases ht
  refine fun t ht => ⟨trivial, ?_⟩
  cases ht
  refine fun t ht => ⟨fun state hstate => ?_, trivial⟩
  cases hstate
  exact Or.inr rfl

/-- A file with less than a sample behind its header is played all the same. -/
theorem not_right_of_short {movieFile : List UInt8}
    (hvalid : validateMovie g_scm_rev movieFile ≠ .Invalid)
    (hshort : movieFile.length < CTM_HEADER_SIZE + CONTROLLER_STATE_SIZE) :
    ¬ MovieStatesRight g_scm_rev s [.startPlayback movieFile] := by
  rintro ⟨⟨hs, t, ht, hall⟩, -⟩
  cases ht
  have hmovie := hs _ List.mem_cons_self
  have hroom := (startPlayback_onSample_iff g_scm_rev movieFile hmovie).mp
    (hall _ List.mem_cons_self) hvalid
  exact Nat.not_le_of_lt hshort hroom

theorem not_movieStatesRight_oneByte :
    ¬ MovieStatesRight [] {} [.startPlayback (headerMagicBytes ++ List.replicate 253 0)] :=
  not_right_of_short (by decide +kernel) (by decide +kernel)

end Runs

end Borked3DS.Analysis
