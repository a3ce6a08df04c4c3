import Borked3DS.Library.BitField
import Borked3DS.Library.CheckedList
import Borked3DS.Library.ByteOrder
import Borked3DS.Model.Basic

/-!
# Movies

A movie records what the input devices give to the guest, one sample of seven bytes after the other,
and plays it back; a savestate goes back to a place in it (`movie.cpp`).
-/

set_option autoImplicit false

namespace Borked3DS.Model.Core

open Borked3DS.Library

/-! ## Samples -/

/-- SOURCE: movie.cpp:31-38 -/
inductive ControllerStateType
  | padAndCircle | touch | accelerometer | gyroscope | irRst | extraHidResponse
  deriving DecidableEq, Repr

def ControllerStateType.toByte : ControllerStateType → UInt8
  | .padAndCircle => 0
  | .touch => 1
  | .accelerometer => 2
  | .gyroscope => 3
  | .irRst => 4
  | .extraHidResponse => 5

/-- What is handed to the calls of a movie, and may be replaced by them. Where the fields of a word
are bits the word is given. -/
inductive Sample
  | padAndCircle (padState : ℕ) (circlePadX circlePadY : UInt16)
  | touch (x y : UInt16) (valid : ℕ)
  | accelerometer (x y z : UInt16)
  | gyroscope (x y z : UInt16)
  | irRst (padState : ℕ) (cStickX cStickY : UInt16)
  | extraHidResponse (cStick buttons : ℕ)
  deriving DecidableEq, Repr

def Sample.type : Sample → ControllerStateType
  | .padAndCircle .. => .padAndCircle
  | .touch .. => .touch
  | .accelerometer .. => .accelerometer
  | .gyroscope .. => .gyroscope
  | .irRst .. => .irRst
  | .extraHidResponse .. => .extraHidResponse

/-- The fields `a`, `b`, `select`, `start`, `right`, `left`, `up`, `down`, `r`, `l`, `x`, `y`,
`debug` and `gpio14`, the same in a sample and in the state of the pad.
SOURCE: movie.cpp:48-62, hid.h:46-59 -/
def padFields : List BitField := (List.range 14).map fun i => ⟨i, 1⟩

/-- SOURCE: hid.h:86 -/
def validField : BitField := ⟨0, 7⟩

/-- SOURCE: ir_rst.h:34 -/
def zlField : BitField := ⟨14, 1⟩

/-- SOURCE: ir_rst.h:35 -/
def zrField : BitField := ⟨15, 1⟩

/-- `battery_level`, the same in a sample and in a response.
SOURCE: movie.cpp:99, extra_hid.h:36 -/
def batteryFields : List BitField := [⟨0, 5⟩]

/-- `c_stick_x` and `c_stick_y`.
SOURCE: movie.cpp:103-104, extra_hid.h:32-33 -/
def stickFields : List BitField := [⟨8, 12⟩, ⟨20, 12⟩]

/-- `r_not_held`, `zl_not_held` and `zr_not_held`.
SOURCE: movie.cpp:100-102, extra_hid.h:37-39 -/
def heldFields : List BitField := [⟨7, 1⟩, ⟨5, 1⟩, ⟨6, 1⟩]

def u16Bytes (x : UInt16) : List UInt8 := toLittleEndian 2 x.toNat

def u16At (bytes : List UInt8) (offset : ℕ) : UInt16 := UInt16.ofNat (fieldAt bytes offset 2)

def CONTROLLER_STATE_SIZE : ℕ := 7

/-- The bytes of a sample behind its type. -/
def Sample.payload : Sample → List UInt8
  | .padAndCircle padState x y =>
      toLittleEndian 2 (copyFields padFields padState 0) ++ u16Bytes x ++ u16Bytes y
  | .touch x y valid =>
      u16Bytes x ++ u16Bytes y ++ toLittleEndian 1 (validField.get valid) ++ [0]
  | .accelerometer x y z => u16Bytes x ++ u16Bytes y ++ u16Bytes z
  | .gyroscope x y z => u16Bytes x ++ u16Bytes y ++ u16Bytes z
  | .irRst padState x y =>
      u16Bytes x ++ u16Bytes y ++ toLittleEndian 1 (zlField.get padState) ++
        toLittleEndian 1 (zrField.get padState)
  | .extraHidResponse cStick buttons =>
      let hex := copyFields batteryFields buttons 0
      let hex := copyFields stickFields cStick hex
      let hex := copyFields heldFields buttons hex
      toLittleEndian 4 hex ++ [0, 0]

/-- The sample that is recorded.
SOURCE: movie.cpp:368-446 -/
def Sample.controllerState (given : Sample) : List UInt8 := given.type.toByte :: given.payload

/-- What the payload of a sample of the same type leaves of what is given. -/
def Sample.assign (payload : List UInt8) : Sample → Sample
  | .padAndCircle padState _ _ =>
      .padAndCircle (copyFields padFields (fieldAt payload 0 2) padState)
        (u16At payload 2) (u16At payload 4)
  | .touch _ _ valid =>
      .touch (u16At payload 0) (u16At payload 2) (validField.assign valid (fieldAt payload 4 1))
  | .accelerometer _ _ _ => .accelerometer (u16At payload 0) (u16At payload 2) (u16At payload 4)
  | .gyroscope _ _ _ => .gyroscope (u16At payload 0) (u16At payload 2) (u16At payload 4)
  | .irRst padState _ _ =>
      .irRst (zrField.assign (zlField.assign padState (fieldAt payload 4 1))
        (fieldAt payload 5 1)) (u16At payload 0) (u16At payload 2)
  | .extraHidResponse cStick buttons =>
      let hex := fieldAt payload 0 4
      .extraHidResponse (copyFields stickFields hex cStick)
        (copyFields heldFields hex (copyFields batteryFields hex buttons))

/-- A sample of another type than expected is only reported.
SOURCE: movie.cpp:238-360 -/
def Sample.play (state : List UInt8) (given : Sample) : Sample :=
  match state with
  | [] => given
  | type :: payload => if type = given.type.toByte then given.assign payload else given

/-! ## Files -/

def headerMagicBytes : List UInt8 := [0x43, 0x54, 0x4D, 0x1B]

/-- SOURCE: movie.cpp:110-124 -/
structure CTMHeader where
  filetype : List UInt8
  programId : UInt64
  revision : List UInt8
  clockInitTime : UInt64
  id : UInt64
  author : List UInt8
  rerecordCount : UInt32
  inputCount : UInt64
  timingBaseTicks : UInt64
  deriving DecidableEq, Repr

def CTM_HEADER_SIZE : ℕ := 256

namespace CTMHeader

def toBytes (header : CTMHeader) : List UInt8 :=
  header.filetype ++ (toLittleEndian 8 header.programId.toNat ++ (header.revision ++
    (toLittleEndian 8 header.clockInitTime.toNat ++ (toLittleEndian 8 header.id.toNat ++
      (header.author ++ (toLittleEndian 4 header.rerecordCount.toNat ++
        (toLittleEndian 8 header.inputCount.toNat ++
          (toLittleEndian 8 header.timingBaseTicks.toNat ++ List.replicate 156 0))))))))

def ofBytes (bytes : List UInt8) : CTMHeader where
  filetype := bytes.take 4
  programId := UInt64.ofNat (fieldAt bytes 4 8)
  revision := (bytes.drop 12).take 20
  clockInitTime := UInt64.ofNat (fieldAt bytes 32 8)
  id := UInt64.ofNat (fieldAt bytes 40 8)
  author := (bytes.drop 48).take 32
  rerecordCount := UInt32.ofNat (fieldAt bytes 80 4)
  inputCount := UInt64.ofNat (fieldAt bytes 84 8)
  timingBaseTicks := UInt64.ofNat (fieldAt bytes 92 8)

end CTMHeader

/-- The samples of the pad among the whole samples of an input.
SOURCE: movie.cpp:126-141 -/
def getInputCount (input : List UInt8) : UInt64 :=
  UInt64.ofNat ((List.range (input.length / CONTROLLER_STATE_SIZE)).countP fun i =>
    input.getD (CONTROLLER_STATE_SIZE * i) 0 = ControllerStateType.padAndCircle.toByte)

def hexDigits : List Char := "0123456789abcdef".toList

/-- `fmt::format("{:02x}", fmt::join(bytes, ""))`. -/
def hexText (bytes : List UInt8) : List Char :=
  bytes.flatMap fun byte =>
    [hexDigits.getD (byte.toNat / 16) '0', hexDigits.getD (byte.toNat % 16) '0']

/-- The value of a hexadecimal digit. -/
def hexDigit (c : Char) : Option ℕ :=
  if '0' ≤ c ∧ c ≤ '9' then some (c.toNat - '0'.toNat)
  else if 'a' ≤ c ∧ c ≤ 'f' then some (c.toNat - 'a'.toNat + 10)
  else if 'A' ≤ c ∧ c ≤ 'F' then some (c.toNat - 'A'.toNat + 10)
  else none

/-- Two digits for each byte; a digit that is left over gives none. -/
def hexPairs : List ℕ → List UInt8
  | high :: low :: digits => UInt8.ofNat (16 * high + low) :: hexPairs digits
  | _ => []

/-- `HexDecoder`, which skips what is no digit. -/
def hexDecode (text : List Char) : List UInt8 := hexPairs (text.filterMap hexDigit)

inductive ValidationResult
  | OK | RevisionDismatch | InputCountDismatch | Invalid
  deriving DecidableEq, Repr

section Validation

variable (g_scm_rev : List Char)

/-- SOURCE: movie.cpp:456-473 -/
def validateHeader (header : CTMHeader) : ValidationResult :=
  if headerMagicBytes ≠ header.filetype then .Invalid
  else if hexText header.revision ≠ g_scm_rev then .RevisionDismatch
  else .OK

/-- SOURCE: movie.cpp:475-478 -/
def validateInput (input : List UInt8) (expectedCount : UInt64) : ValidationResult :=
  if getInputCount input = expectedCount then .OK else .InputCountDismatch

/-- SOURCE: movie.cpp:621-650 -/
def validateMovie (movieFile : List UInt8) : ValidationResult :=
  if movieFile.length ≤ CTM_HEADER_SIZE then .Invalid
  else
    let header := CTMHeader.ofBytes (movieFile.take CTM_HEADER_SIZE)
    if headerMagicBytes ≠ header.filetype then .Invalid
    else
      let result := validateHeader g_scm_rev header
      if result ≠ .OK then result
      else if header.inputCount = 0 then .OK
      else validateInput (movieFile.drop CTM_HEADER_SIZE) header.inputCount

end Validation

/-! ## The movie -/

inductive PlayMode
  | None | Recording | Playing | MovieFinished
  deriving DecidableEq, Repr

/-- SOURCE: movie.h:180-210 -/
structure Movie where
  playMode : PlayMode := .None
  recordMovieAuthor : List UInt8 := []
  initTime : UInt64 := 0
  baseTicks : UInt64 := -1
  recordedInput : List UInt8 := []
  currentByte : ℕ := 0
  currentInput : UInt64 := 0
  totalInput : UInt64 := 0
  id : UInt64 := 0
  programId : UInt64 := 0
  rerecordCount : UInt32 := 1
  readOnly : Bool := true
  deriving DecidableEq, Repr

/-- `std::vector::resize`. -/
def resize (bytes : List UInt8) (n : ℕ) : List UInt8 :=
  bytes.take n ++ List.replicate (n - bytes.length) 0

namespace Movie

variable (movie : Movie)

/-- SOURCE: movie.cpp:230-236 -/
def checkInputEnd : Movie :=
  if movie.currentByte + CONTROLLER_STATE_SIZE > movie.recordedInput.length then
    { movie with playMode := .MovieFinished }
  else movie

/-- Only samples of the pad are counted. -/
def countInput (given : Sample) : UInt64 :=
  if given.type = .padAndCircle then movie.currentInput + 1 else movie.currentInput

/-- SOURCE: movie.cpp:362-366 -/
def record (given : Sample) : Movie :=
  { movie with
    recordedInput := overwrite
      (resize movie.recordedInput (movie.currentByte + CONTROLLER_STATE_SIZE))
      movie.currentByte given.controllerState
    currentByte := movie.currentByte + CONTROLLER_STATE_SIZE
    currentInput := movie.countInput given }

/-- SOURCE: movie.cpp:238-242 -/
def play (given : Sample) : Exec (Movie × Sample) := do
  let state ← readRun .undefined movie.recordedInput movie.currentByte CONTROLLER_STATE_SIZE
  .ok ({ movie with
    currentByte := movie.currentByte + CONTROLLER_STATE_SIZE
    currentInput := movie.countInput given }, given.play state)

/-- What a call does to the movie, and to what is given to it.
SOURCE: movie.cpp:681-690 -/
def handle (given : Sample) : Exec (Movie × Sample) :=
  match movie.playMode with
  | .Playing => do
      assert (movie.currentByte + CONTROLLER_STATE_SIZE ≤ movie.recordedInput.length)
        .movieSampleLeft
      let (movie, given) ← movie.play given
      .ok (movie.checkInputEnd, given)
  | .Recording => .ok (movie.record given, given)
  | _ => .ok (movie, given)

/-- The file that is written.
SOURCE: movie.cpp:480-515 -/
def saveMovie (g_scm_rev : List Char) : Exec (List UInt8) := do
  let revision ← readRun .undefined (hexDecode g_scm_rev) 0 20
  let header : CTMHeader := {
    filetype := headerMagicBytes
    programId := movie.programId
    revision
    clockInitTime := movie.initTime
    id := movie.id
    author := resize (movie.recordMovieAuthor.take 32) 32
    rerecordCount := movie.rerecordCount
    inputCount := getInputCount movie.recordedInput
    timingBaseTicks := movie.baseTicks }
  .ok (header.toBytes ++ movie.recordedInput)

/-- SOURCE: movie.cpp:525-557 -/
def startPlayback (g_scm_rev : List Char) (movieFile : List UInt8) : Movie :=
  if CTM_HEADER_SIZE < movieFile.length then
    let header := CTMHeader.ofBytes (movieFile.take CTM_HEADER_SIZE)
    if validateHeader g_scm_rev header ≠ .Invalid then
      { movie with
        playMode := .Playing
        recordMovieAuthor := header.author.takeWhile (· ≠ 0)
        rerecordCount := header.rerecordCount
        totalInput := header.inputCount
        recordedInput := movieFile.drop CTM_HEADER_SIZE
        currentByte := 0
        currentInput := 0
        id := header.id
        programId := header.programId }
    else movie
  else movie

end Movie

/-! ## Savestates -/

/-- What a savestate has of a movie. -/
structure SavedMovie where
  currentByte : ℕ
  currentInput : UInt64
  recordedInput : List UInt8
  initTime : UInt64
  baseTicks : UInt64
  id : UInt64
  postMovie : Bool
  deriving DecidableEq, Repr

/-- The texts of the exceptions. -/
inductive LoadError
  | mustCloseMovie
  | mustLoadSameMovie
  | futureEvent
  | timelineMismatch
  deriving DecidableEq, Repr

namespace Movie

variable (movie : Movie)

/-- SOURCE: movie.cpp:152-186 -/
def save : SavedMovie where
  currentByte := movie.currentByte
  currentInput := movie.currentInput
  recordedInput := movie.recordedInput
  initTime := movie.initTime
  baseTicks := movie.baseTicks
  id := movie.id
  postMovie := movie.playMode = .MovieFinished

/-- The movie behind a load, and the exception that it throws, if it does.
SOURCE: movie.cpp:152-215 -/
def load (saved : SavedMovie) : Movie × Option LoadError :=
  let movie := { movie with
    currentByte := saved.currentByte
    currentInput := saved.currentInput
    initTime := saved.initTime
    baseTicks := saved.baseTicks }
  if movie.id ≠ saved.id then
    (movie, some (if saved.id = 0 then .mustCloseMovie else .mustLoadSameMovie))
  else if movie.id = 0 then (movie, none)
  else
    let movie := if movie.readOnly then movie
      else { movie with recordedInput := saved.recordedInput }
    if saved.postMovie then ({ movie with playMode := .MovieFinished }, none)
    else if movie.readOnly then
      if saved.recordedInput.length ≥ movie.recordedInput.length then (movie, some .futureEvent)
      else if ¬ saved.recordedInput <+: movie.recordedInput then (movie, some .timelineMismatch)
      else ({ movie with
        playMode := .Playing
        totalInput := getInputCount movie.recordedInput }, none)
    else ({ movie with
      playMode := .Recording
      rerecordCount := movie.rerecordCount + 1 }, none)

end Movie

end Borked3DS.Model.Core
