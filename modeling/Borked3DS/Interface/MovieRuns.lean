import Borked3DS.Library.Run
import Borked3DS.Model.Movie

/-!
# What movies promise

What a movie owes to its recording, and what it owes to savestates.
-/

set_option autoImplicit false

namespace Borked3DS.Interface

open Borked3DS.Library Borked3DS.Model Borked3DS.Model.Core

/-!
## What the playback of a movie owes to its recording

A recording is saved to a file, and the file is played back to the same calls: each of them gets the
fields that were recorded.
-/

/-- The text of the revision is that of a hash. -/
def IsHash (g_scm_rev : List Char) : Prop :=
  ∃ hash : List UInt8, hash.length = 20 ∧ g_scm_rev = hexText hash

/-- What is played has the fields that were recorded. -/
def SameFields : Sample → Sample → Prop
  | .padAndCircle padState x y, .padAndCircle padState' x' y' =>
      (∀ f ∈ padFields, f.get padState' = f.get padState) ∧ x' = x ∧ y' = y
  | .touch x y valid, .touch x' y' valid' =>
      x' = x ∧ y' = y ∧ validField.get valid' = validField.get valid
  | .accelerometer x y z, .accelerometer x' y' z' => x' = x ∧ y' = y ∧ z' = z
  | .gyroscope x y z, .gyroscope x' y' z' => x' = x ∧ y' = y ∧ z' = z
  | .irRst padState x y, .irRst padState' x' y' =>
      zlField.get padState' = zlField.get padState ∧
        zrField.get padState' = zrField.get padState ∧ x' = x ∧ y' = y
  | .extraHidResponse cStick buttons, .extraHidResponse cStick' buttons' =>
      (∀ f ∈ stickFields, f.get cStick' = f.get cStick) ∧
        ∀ f ∈ batteryFields ++ heldFields, f.get buttons' = f.get buttons
  | _, _ => False

/-- The calls of a movie, one after the other. -/
def handleAll : Movie → List Sample → Exec (Movie × List Sample)
  | movie, [] => .ok (movie, [])
  | movie, given :: rest => do
      let (movie, left) ← movie.handle given
      let (movie, lefts) ← handleAll movie rest
      .ok (movie, left :: lefts)

/-- A movie that is recorded from its beginning. -/
structure FreshRecording (movie : Movie) : Prop where
  playMode : movie.playMode = .Recording
  recordedInput : movie.recordedInput = []
  currentByte : movie.currentByte = 0

/-- The movie is played until its end: every call gets what was recorded, and the movie is finished
behind the last one. -/
def PlaysBack : Movie → List Sample → List Sample → Prop
  | movie, [], [] => movie.playMode = .MovieFinished
  | movie, sample :: recorded, given :: rest => movie.playMode = .Playing ∧
      ∃ movie' played, movie.handle given = .ok (movie', played) ∧ SameFields sample played ∧
        PlaysBack movie' recorded rest
  | _, _, _ => False

/-- Samples are recorded and saved, the file is valid, and it is played back. -/
def MovieRoundTrips (g_scm_rev : List Char) (recorder player : Movie)
    (recorded given : List Sample) : Prop :=
  ∃ movie file, handleAll recorder recorded = .ok (movie, recorded) ∧
    movie.saveMovie g_scm_rev = .ok file ∧ validateMovie g_scm_rev file = .OK ∧
      PlaysBack (player.startPlayback g_scm_rev file) recorded given

/-!
## What a movie owes to savestates

A movie lives through input, savestates and the playback of files. Its place has to stay on a sample
of its input, and a load that is refused must not move it.
-/

/-- A movie, and the movies as they were when the savestates were made. -/
structure MovieStates where
  movie : Movie := {}
  states : List Movie := []

inductive MovieEvent
  | input (given : Sample)
  | saveState
  | loadState (k : ℕ)
  | setReadOnly (readOnly : Bool)
  | startPlayback (movieFile : List UInt8)

/-- An exception of a load ends the load only. -/
def movieStep (g_scm_rev : List Char) (s : MovieStates) : MovieEvent → Exec MovieStates
  | .input given => do
      let (movie, _) ← s.movie.handle given
      .ok { s with movie }
  | .saveState => .ok { s with states := s.states ++ [s.movie] }
  | .loadState k =>
      match s.states[k]? with
      | none => .ok s
      | some state => .ok { s with movie := (s.movie.load state.save).1 }
  | .setReadOnly readOnly => .ok { s with movie := { s.movie with readOnly } }
  | .startPlayback movieFile =>
      .ok { s with movie := s.movie.startPlayback g_scm_rev movieFile }

/-- The place in the input is that of a sample: the end of it while recording, a whole sample before
the end while playing. -/
structure OnSample (movie : Movie) : Prop where
  whole : CONTROLLER_STATE_SIZE ∣ movie.currentByte
  inside : movie.currentByte ≤ movie.recordedInput.length
  recording : movie.playMode = .Recording → movie.currentByte = movie.recordedInput.length
  playing : movie.playMode = .Playing →
    movie.currentByte + CONTROLLER_STATE_SIZE ≤ movie.recordedInput.length

/-- So are the movie and those in the savestates. -/
def AllOnSample (s : MovieStates) : Prop := ∀ movie ∈ s.movie :: s.states, OnSample movie

/-- Two movies are at the same place, with the same clock. -/
def SamePlace (a b : Movie) : Prop :=
  a.currentByte = b.currentByte ∧ a.currentInput = b.currentInput ∧
    a.initTime = b.initTime ∧ a.baseTicks = b.baseTicks

/-- The state was made while the same movie was played. -/
def PlayedIn (movie state : Movie) : Prop :=
  state.playMode = .Playing ∧ state.id = movie.id ∧ state.recordedInput <+: movie.recordedInput

/-- A load that is refused leaves the place, the clock and the input, and in read-only mode no state
is refused that was made while the same movie was played. -/
structure LoadRight (movie state : Movie) : Prop where
  refused : (movie.load state.save).2 ≠ none → SamePlace movie (movie.load state.save).1 ∧
    (movie.load state.save).1.recordedInput = movie.recordedInput
  resumes : movie.readOnly = true → PlayedIn movie state → (movie.load state.save).2 = none

def MovieEventRight (s : MovieStates) : MovieEvent → Prop
  | .loadState k => ∀ state, s.states[k]? = some state → LoadRight s.movie state
  | _ => True

/-- Every run gets to its end without a failed assertion, on samples all along, and its loads are
right. -/
def MovieStatesRight (g_scm_rev : List Char) (s : MovieStates) (events : List MovieEvent) : Prop :=
  Completes (movieStep g_scm_rev) AllOnSample s events ∧
    EachStep (movieStep g_scm_rev) MovieEventRight s events

/-- The place of a state is one in the input of the movie. -/
def FitsMode (movie : Movie) (currentByte : ℕ) : Prop :=
  currentByte ≤ movie.recordedInput.length ∧
    (movie.playMode = .Recording → currentByte = movie.recordedInput.length) ∧
    (movie.playMode = .Playing →
      currentByte + CONTROLLER_STATE_SIZE ≤ movie.recordedInput.length)

/-- A state of another movie, of another timeline or of no less input is at the place where the
movie is; a state that is played on in the movie has a sample left there, one that is recorded on
was made at its end. -/
def LoadFits (movie state : Movie) : Prop :=
  if movie.id ≠ state.id then SamePlace movie state
  else if movie.id = 0 then FitsMode movie state.currentByte
  else if movie.readOnly = false then
    state.playMode = .MovieFinished ∨ state.currentByte = state.recordedInput.length
  else if state.playMode = .MovieFinished then
    state.currentByte ≤ movie.recordedInput.length
  else if state.recordedInput.length < movie.recordedInput.length ∧
      state.recordedInput <+: movie.recordedInput then
    state.currentByte + CONTROLLER_STATE_SIZE ≤ movie.recordedInput.length
  else SamePlace movie state ∧
    ¬ (state.playMode = .Playing ∧ state.recordedInput = movie.recordedInput)

/-- The file has a sample behind its header, and the state fits the movie. -/
def MovieEventFits (g_scm_rev : List Char) (s : MovieStates) : MovieEvent → Prop
  | .loadState k => ∀ state, s.states[k]? = some state → LoadFits s.movie state
  | .startPlayback movieFile => validateMovie g_scm_rev movieFile ≠ .Invalid →
      CTM_HEADER_SIZE + CONTROLLER_STATE_SIZE ≤ movieFile.length
  | _ => True

end Borked3DS.Interface
