import Soundcan.Lib.CText

/-!
# The controls of fluid-ui

`getControlInstances` lists the controls of fluidsynth as JSON: their table, the values read from
fluidsynth, and for the control `Instrument` the instruments that fluidsynth has loaded. All texts
are built with `sprintf` and `strcat` in buffers of fixed sizes, and nothing is escaped.
-/

namespace Soundcan.FluidUi

open CText

/-- What `runCommand` leaves in a response buffer of a size, behind a command to fluidsynth. -/
abbrev RunCommand : Type := List Char → Nat → List Char

/-! ## Reading the values -/

/-- `setReadValue`: `none` where the value does not fit `readValue`. -/
def setReadValue (value : Option (List Char)) : Option (List Char) :=
  sprintf 30 (value.getD "NULL".toList)

/-- The value is the first line of the response to a command. -/
def readLine (command : String) (runCommand : RunCommand) : Option (List Char) :=
  setReadValue (strtok ['\n'] (runCommand command.toList 100)).head?

def readTitle : RunCommand → Option (List Char) := readLine "get midi.jack.id"

def readGain : RunCommand → Option (List Char) := readLine "get synth.gain"

def readReverbActive : RunCommand → Option (List Char) := readLine "get synth.reverb.active"

def readReverbDamp : RunCommand → Option (List Char) := readLine "get synth.reverb.damp"

def readReverbLevel : RunCommand → Option (List Char) := readLine "get synth.reverb.level"

def readReverbRoomSize : RunCommand → Option (List Char) := readLine "get synth.reverb.room-size"

def readReverbWidth : RunCommand → Option (List Char) := readLine "get synth.reverb.width"

def readChorusActive : RunCommand → Option (List Char) := readLine "get synth.chorus.active"

def readChorusDepth : RunCommand → Option (List Char) := readLine "get synth.chorus.depth"

def readChorusLevel : RunCommand → Option (List Char) := readLine "get synth.chorus.level"

def readChorusNr : RunCommand → Option (List Char) := readLine "get synth.chorus.nr"

def readChorusSpeed : RunCommand → Option (List Char) := readLine "get synth.chorus.speed"

/-- The columns of a channel's row: `bank` and `preset` stand in front of their numbers. `none`
where the row ends behind one of the words, with `atoi` of a null pointer. -/
def readColumns : List (List Char) → Int → Int → Option (Int × Int)
  | [], bank, preset => some (bank, preset)
  | token :: tokens, bank, preset =>
    if token = "bank".toList then
      match tokens with
      | [] => none
      | next :: tokens => readColumns tokens (atoi next) preset
    else if token = "preset".toList then
      match tokens with
      | [] => none
      | next :: tokens => readColumns tokens bank (atoi next)
    else readColumns tokens bank preset

def readInstrument (runCommand : RunCommand) : Option (List Char) := do
  let (bank, preset) ←
    match strtok ['\n'] (runCommand "channels -verbose".toList 1000) with
    | [] => some (-1, -1)
    | row :: _ => readColumns (strtok [' ', ','] row) (-1) (-1)
  sprintf 30 (d03 bank ++ '-' :: d03 preset)

/-! ## The table -/

inductive ValueType where
  | typeBool
  | typeInt
  | typeFloat
  | typeString
  deriving DecidableEq

def typeImage : ValueType → List Char
  | .typeBool => "boolean".toList
  | .typeInt => "integer".toList
  | .typeFloat => "float".toList
  | .typeString => "string".toList

/-- A `control_t`. -/
structure Control where
  type : ValueType
  label : List Char
  minValue : Option (List Char)
  maxValue : Option (List Char)
  points : Option (List Char)
  readFunc : RunCommand → Option (List Char)

/-- A control with numbers between two bounds. -/
def Control.bounded (type : ValueType) (label minValue maxValue : String)
    (readFunc : RunCommand → Option (List Char)) : Control :=
  ⟨type, label.toList, some minValue.toList, some maxValue.toList, none, readFunc⟩

/-- The controls in front of `END_OF_LIST`. -/
def controls : List Control :=
  [⟨.typeString, "Title".toList, none, none, none, readTitle⟩,
    .bounded .typeFloat "Gain" "0.0" "1.0" readGain,
    ⟨.typeString, "Instrument".toList, none, none, none, readInstrument⟩,
    .bounded .typeInt "Reverb active" "0" "1" readReverbActive,
    .bounded .typeFloat "Reverb damp" "0.0" "1.0" readReverbDamp,
    .bounded .typeFloat "Reverb level" "0.0" "1.0" readReverbLevel,
    .bounded .typeFloat "Reverb room-size" "0.0" "1.0" readReverbRoomSize,
    .bounded .typeFloat "Reverb width" "0.0" "100.0" readReverbWidth,
    .bounded .typeInt "Chorus active" "0" "1" readChorusActive,
    .bounded .typeFloat "Chorus depth" "4.0" "10.0" readChorusDepth,
    .bounded .typeFloat "Chorus level" "0.25" "2.5" readChorusLevel,
    .bounded .typeInt "Chorus nr" "0" "10" readChorusNr,
    .bounded .typeFloat "Chorus speed" "0.101" "5.0" readChorusSpeed]

def nmbControls : Nat := controls.length

/-! ## The listing -/

/-- The record of an instrument's line. `none` also where the line has no symbol, which would be
read behind it. -/
def instrumentRecord (sInstrument : List Char) : Option (List Char) :=
  if sInstrument.length < 8 then none
  else sprintf 200 ("\x7b\"value\":\"".toList ++ sInstrument.take 7 ++ "\",\"symbol\":\"".toList ++
    sInstrument.drop 8 ++ "\"\x7d".toList)

/-- The loop of `initControl` over the lines of the response. -/
def initPoints : Bool → List (List Char) → List Char → Option (List Char)
  | _, [], instrumentPoints => some instrumentPoints
  | comma, sInstrument :: lines, instrumentPoints => do
    let instrumentPoints ←
      if comma then strcat 20000 instrumentPoints [','] else some instrumentPoints
    let record ← instrumentRecord sInstrument
    let instrumentPoints ← strcat 20000 instrumentPoints record
    initPoints true lines instrumentPoints

/-- `initControl`: the table with the instruments in its third entry. -/
def initControl (runCommand : RunCommand) : Option (List Control) := do
  let response := runCommand "inst 1".toList 5000
  let instrumentPoints ← initPoints false (strtok ['\n'] response) ['[']
  let instrumentPoints ← strcat 20000 instrumentPoints [']']
  some (controls.modify 2 fun control => { control with points := some instrumentPoints })

/-- A `sprintf` to `record` and the `strcat` of it to the response. -/
def strcatRecord (response record : List Char) : Option (List Char) := do
  let record ← sprintf 20000 record
  strcat 50000 response record

/-- The same for a text that may be missing. -/
def strcatOptional (response : List Char) (record : List Char → List Char) :
    Option (List Char) → Option (List Char)
  | some s => strcatRecord response (record s)
  | none => some response

/-- The body of the loop of `getControlInstances`. -/
def listControl (runCommand : RunCommand) (control : Control) (i : Nat) (response : List Char) :
    Option (List Char) := do
  let readValue ← control.readFunc runCommand
  let response ← strcat 50000 response (if i = 0 then ['{'] else [',', '{'])
  let response ← strcatRecord response ("\"index\":".toList ++ d i)
  let response ← strcatRecord response
    (",\"type\":\"".toList ++ typeImage control.type ++ ['"'])
  let response ← strcatRecord response (",\"label\":\"".toList ++ control.label ++ ['"'])
  let response ← strcatOptional response
    (fun minValue => ",\"min\":\"".toList ++ minValue ++ ['"']) control.minValue
  let response ← strcatOptional response
    (fun maxValue => ",\"max\":\"".toList ++ maxValue ++ ['"']) control.maxValue
  let response ← strcatRecord response (",\"value\":\"".toList ++ readValue ++ ['"'])
  let response ← strcatOptional response
    (fun points => ",\"points\":".toList ++ points) control.points
  strcat 50000 response ['}']

/-- The loop of `getControlInstances` from an index on. -/
def listControls (runCommand : RunCommand) : List Control → Nat → List Char → Option (List Char)
  | [], _, response => some response
  | control :: rest, i, response => do
    let response ← listControl runCommand control i response
    listControls runCommand rest (i + 1) response

def getControlInstances (runCommand : RunCommand) : Option (List Char) := do
  let controls ← initControl runCommand
  let response ← listControls runCommand controls 0 ['[']
  strcat 50000 response [']']

/-! ## What the table gives -/

/-- Printable characters. -/
def Printable (s : List Char) : Prop := ∀ c ∈ s, 0x20 ≤ c.toNat ∧ c.toNat < 0x7f

instance (s : List Char) : Decidable (Printable s) := List.decidableBAll _ _

/-- No character needs an escape in JSON. -/
def Unescaped (s : List Char) : Prop := ∀ c ∈ s, c ≠ '"' ∧ c ≠ '\\'

instance (s : List Char) : Decidable (Unescaped s) := List.decidableBAll _ _

/-- What the table gives for a control. -/
structure Tabled (control : Control) : Prop where
  label : Printable control.label ∧ Unescaped control.label ∧ control.label.length ≤ 16
  minValue : ∀ s ∈ control.minValue, Printable s ∧ Unescaped s ∧ s.length ≤ 16
  maxValue : ∀ s ∈ control.maxValue, Printable s ∧ Unescaped s ∧ s.length ≤ 16

/-- The table is as it is spelled. -/
theorem controls_tabled : ∀ control ∈ controls, Tabled control := by
  have hlabel : ∀ control ∈ controls, Printable control.label ∧ Unescaped control.label ∧
      control.label.length ≤ 16 := by decide
  have hmin : ∀ control ∈ controls, ∀ s ∈ control.minValue, Printable s ∧ Unescaped s ∧
      s.length ≤ 16 := by decide
  have hmax : ∀ control ∈ controls, ∀ s ∈ control.maxValue, Printable s ∧ Unescaped s ∧
      s.length ≤ 16 := by decide
  exact fun control h => ⟨hlabel control h, hmin control h, hmax control h⟩

/-- The name of a type is printable, and short. -/
theorem typeImage_tabled (type : ValueType) :
    Printable (typeImage type) ∧ Unescaped (typeImage type) ∧ (typeImage type).length ≤ 7 := by
  cases type <;> decide

end Soundcan.FluidUi
