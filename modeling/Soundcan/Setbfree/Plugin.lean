import Soundcan.Lv2.Atom

/-!
# The setbfreecontrol plugin

The plugin (`setbfree/src/plugin.c`) keeps a cached value of each control port. A run compares the
ports with the cache in port order, and queues one MIDI message for each port that changed; the
send-configuration port, which comes first, queues the presets or all the settings instead and ends
the run. The queued messages are appended to the output sequence.

Port values are exact rationals. `sync_eq` says in closed form what a run does.
-/

namespace Soundcan.Setbfree

open Bytes Lv2

/-! ## Ports -/

/-- `PortEnum`. -/
@[match_pattern] abbrev portControlFirst : Nat := 2
@[match_pattern] abbrev portControlSendConfiguration : Nat := 2
@[match_pattern] abbrev portControlPreset : Nat := 3
@[match_pattern] abbrev portControlLowerManualPreset : Nat := 4
@[match_pattern] abbrev portControlUpperManualPreset : Nat := 5
@[match_pattern] abbrev portControlRandomDrawbars : Nat := 6
@[match_pattern] abbrev portControlFirstSetting : Nat := 7
@[match_pattern] abbrev portControlOverdriveCharacter : Nat := 7
@[match_pattern] abbrev portControlReverbMix : Nat := 8
@[match_pattern] abbrev portControlVolume : Nat := 9
@[match_pattern] abbrev portControlPercussionEnable : Nat := 10
@[match_pattern] abbrev portControlPercussionVolume : Nat := 11
@[match_pattern] abbrev portControlPercussionDecay : Nat := 12
@[match_pattern] abbrev portControlPercussionHarmonic : Nat := 13
@[match_pattern] abbrev portControlVibratoLower : Nat := 14
@[match_pattern] abbrev portControlVibratoUpper : Nat := 15
@[match_pattern] abbrev portControlVibratoKnok : Nat := 16
@[match_pattern] abbrev portControlRotarySpeedPreset : Nat := 17
@[match_pattern] abbrev portControlDrawbarUpper : Nat := 18
@[match_pattern] abbrev portControlDrawbarLower : Nat := 27
@[match_pattern] abbrev portControlDrawbarPedal : Nat := 36
@[match_pattern] abbrev portEnumSize : Nat := 45

/-- `for (port = PORT_CONTROL_FIRST; port < PORT_ENUM_SIZE; port++)`. -/
def controlPorts : List Nat := List.range' portControlFirst (portEnumSize - portControlFirst)

/-- `for (port = PORT_CONTROL_FIRST_SETTING; port < PORT_ENUM_SIZE; port++)`. -/
def settingPorts : List Nat :=
  List.range' portControlFirstSetting (portEnumSize - portControlFirstSetting)

@[simp] theorem mem_controlPorts {port : Nat} : port ∈ controlPorts ↔ 2 ≤ port ∧ port < 45 := by
  change port ∈ List.range' 2 43 ↔ _
  rw [List.mem_range'_1]

@[simp] theorem mem_settingPorts {port : Nat} : port ∈ settingPorts ↔ 7 ≤ port ∧ port < 45 := by
  change port ∈ List.range' 7 38 ↔ _
  rw [List.mem_range'_1]

/-- `lv2:maximum` of a control port (`plugin.ttl`); `lv2:minimum` is 0 for each. -/
def maximum (port : Nat) : ℚ :=
  if port = portControlSendConfiguration then 1
  else if port < portControlRandomDrawbars then 110
  else if port < portControlVibratoKnok then 1
  else if port = portControlVibratoKnok then 5
  else if port = portControlRotarySpeedPreset then 2
  else 8

/-- The control port values of one run, within their declared ranges. -/
structure Ports where
  value : Nat → ℚ
  inRange : ∀ port ∈ controlPorts, 0 ≤ value port ∧ value port ≤ maximum port

/-! ## Converters -/

/-- The C cast of a floating-point value to `int`. -/
def truncInt (q : ℚ) : ℤ := if 0 ≤ q then ⌊q⌋ else ⌈q⌉

/-- `convert_8to0`. -/
def convert8to0 (c : ℚ) : UInt8 := UInt8.ofInt (127 - truncInt (c * 127 / 8))

/-- `convert_linear`. -/
def convertLinear (c : ℚ) : UInt8 := UInt8.ofInt (truncInt (c * 127))

/-- `convert_0to1`. -/
def convert0to1 (c : ℚ) : UInt8 := if c < 1 / 2 then 0 else 127

/-- `convert_0to2`. -/
def convert0to2 (c : ℚ) : UInt8 := UInt8.ofInt (truncInt (c * 127 / 2))

/-- `convert_0to5`. -/
def convert0to5 (c : ℚ) : UInt8 := UInt8.ofInt (truncInt (c * 127 / 5))

/-! ## Configuration -/

/-- `SetBFreeMidiConfig`. -/
structure SetBFreeMidiConfig where
  channel : UInt8
  control : UInt8
  convert : ℚ → UInt8

/-- A drawbar of a manual: controls 70 to 78 of its channel. -/
def drawbar (channel : UInt8) (i : Nat) : SetBFreeMidiConfig :=
  { channel, control := UInt8.ofNat (70 + i), convert := convert8to0 }

/-- `parameters[port].midi_config` of a setting port, as `instantiate` fills it in. The ports
before the settings have none, and none is asked for. -/
def midiConfig : Nat → SetBFreeMidiConfig
  | portControlOverdriveCharacter => { channel := 0, control := 93, convert := convertLinear }
  | portControlReverbMix => { channel := 0, control := 91, convert := convertLinear }
  | portControlVolume => { channel := 0, control := 7, convert := convertLinear }
  | portControlPercussionEnable => { channel := 0, control := 80, convert := convert0to1 }
  | portControlPercussionVolume => { channel := 0, control := 81, convert := convert0to1 }
  | portControlPercussionDecay => { channel := 0, control := 82, convert := convert0to1 }
  | portControlPercussionHarmonic => { channel := 0, control := 83, convert := convert0to1 }
  | portControlVibratoLower => { channel := 0, control := 30, convert := convert0to1 }
  | portControlVibratoUpper => { channel := 0, control := 31, convert := convert0to1 }
  | portControlVibratoKnok => { channel := 0, control := 92, convert := convert0to5 }
  | portControlRotarySpeedPreset => { channel := 0, control := 1, convert := convert0to2 }
  | port =>
    if port < portControlDrawbarLower then drawbar 0 (port - portControlDrawbarUpper)
    else if port < portControlDrawbarPedal then drawbar 1 (port - portControlDrawbarLower)
    else drawbar 2 (port - portControlDrawbarPedal)

/-- `instantiate`: the cached values. -/
def instantiate : Nat → ℚ := fun port => if port < portControlFirstSetting then 0 else -1

/-! ## Messages -/

/-- `MIDI_CONTROL_CHANGE` and `MIDI_PROGRAM_CHANGE`. -/
abbrev midiControlChange : UInt8 := 0xB0
abbrev midiProgramChange : UInt8 := 0xC0

/-- `SETBFREE_MIDI_RANDOM_DRAWBARS`. -/
abbrev setbfreeMidiRandomDrawbars : UInt8 := 55

/-- `write_midi_signal`: the messages, none or one, queued for a port. A message is its
`msg[0]` bytes from `msg[1]` on. -/
def writeMidiSignal (lastValue : Nat → ℚ) (port : Nat) : List (List UInt8) :=
  if port = portControlPreset ∨ port = portControlLowerManualPreset ∨
      port = portControlUpperManualPreset then
    let value := UInt8.ofInt (truncInt (lastValue port))
    if value ≠ 0 then [[midiProgramChange + 0, value - 1]] else []
  else if port = portControlRandomDrawbars then
    let value := UInt8.ofInt (truncInt (lastValue port))
    if value ≠ 0 then [[midiProgramChange + 0, setbfreeMidiRandomDrawbars - 1]] else []
  else
    let config := midiConfig port
    [[midiControlChange + config.channel, config.control, config.convert (lastValue port)]]

/-- The messages of the send-configuration port: the presets, or all the settings when no preset
is selected. -/
def configuration (lastValue : Nat → ℚ) : List (List UInt8) :=
  let msg := writeMidiSignal lastValue portControlPreset ++
    writeMidiSignal lastValue portControlLowerManualPreset ++
    writeMidiSignal lastValue portControlUpperManualPreset
  if msg ≠ [] then msg else settingPorts.flatMap (writeMidiSignal lastValue)

/-- What the port loop of `run` leaves: the cached values, the queued messages, and whether it was
left at the send-configuration port. -/
structure Synced where
  lastValue : Nat → ℚ
  messages : List (List UInt8)
  sentConfiguration : Bool

/-- The port loop of `run`, over the ports still to come. -/
def sync (ports : Nat → ℚ) : List Nat → (Nat → ℚ) → List (List UInt8) → Synced
  | [], lastValue, msg => ⟨lastValue, msg, false⟩
  | port :: rest, lastValue, msg =>
    if lastValue port = ports port then
      sync ports rest lastValue msg
    else
      let lastValue := Function.update lastValue port (ports port)
      if port = portControlSendConfiguration then
        if lastValue port = 0 then
          sync ports rest lastValue msg
        else
          ⟨lastValue, configuration lastValue, true⟩
      else
        sync ports rest lastValue (msg ++ writeMidiSignal lastValue port)

/-- The event of a queued message. -/
def midiEvent (uridMidiEvent : Nat) (message : List UInt8) : AtomEvent :=
  ⟨0, uridMidiEvent, message⟩

/-- The part of `run` behind the port loop: with a message queued, `port_events_out` becomes a
sequence of the messages; without one it is left as the host prepared it. -/
def send (uridMidiEvent inType : Nat) (out : Block) (messages : List (List UInt8)) :
    Option Block :=
  if messages = [] then
    some out
  else do
    let capacity ← out.loadWord 4 0
    let out ← sequenceClear out
    let out ← out.storeWord 4 4 inType
    messages.foldlM (fun out message => sequenceAppendEvent out capacity
      (midiEvent uridMidiEvent message)) out

/-! ## What the loop does -/

/-- The message of a preset port. -/
theorem writeMidiSignal_preset {port : Nat} (h : port = 3 ∨ port = 4 ∨ port = 5)
    (lastValue : Nat → ℚ) :
    writeMidiSignal lastValue port =
      if UInt8.ofInt (truncInt (lastValue port)) ≠ 0 then
        [[midiProgramChange + 0, UInt8.ofInt (truncInt (lastValue port)) - 1]]
      else [] :=
  if_pos h

/-- The message of the random-drawbars port. -/
theorem writeMidiSignal_random (lastValue : Nat → ℚ) :
    writeMidiSignal lastValue 6 =
      if UInt8.ofInt (truncInt (lastValue 6)) ≠ 0 then [[midiProgramChange + 0, 54]] else [] :=
  rfl

/-- The message of a setting port. -/
theorem writeMidiSignal_setting {port : Nat} (h : port ∈ settingPorts) (lastValue : Nat → ℚ) :
    writeMidiSignal lastValue port =
      [[midiControlChange + (midiConfig port).channel, (midiConfig port).control,
        (midiConfig port).convert (lastValue port)]] := by
  obtain ⟨h7, -⟩ := mem_settingPorts.1 h
  have hpreset : ¬(port = 3 ∨ port = 4 ∨ port = 5) := by omega
  have hrandom : port ≠ 6 := by omega
  exact (if_neg hpreset).trans (if_neg hrandom)

/-- The send-configuration port asks for the configuration. -/
def SendsConfiguration (ports lastValue : Nat → ℚ) : Prop :=
  lastValue portControlSendConfiguration ≠ ports portControlSendConfiguration ∧
    ports portControlSendConfiguration ≠ 0

instance (ports lastValue : Nat → ℚ) : Decidable (SendsConfiguration ports lastValue) :=
  inferInstanceAs (Decidable (_ ∧ _))

/-- Without a preset the configuration is every setting. -/
theorem configuration_settings {lastValue : Nat → ℚ}
    (h : ∀ port, port = 3 ∨ port = 4 ∨ port = 5 → writeMidiSignal lastValue port = []) :
    configuration lastValue = settingPorts.flatMap (writeMidiSignal lastValue) := by
  simp only [configuration, h 3 (by omega), h 4 (by omega), h 5 (by omega)]
  rfl

/-- The messages of the ports that changed. -/
def changes (ports lastValue : Nat → ℚ) : List (List UInt8) :=
  ((List.range' 3 42).filter fun port => lastValue port ≠ ports port).flatMap
    (writeMidiSignal ports)

/-- A port's message depends on its own cached value only. -/
theorem writeMidiSignal_congr {v w : Nat → ℚ} {port : Nat} (h : v port = w port) :
    writeMidiSignal v port = writeMidiSignal w port := by
  simp only [writeMidiSignal, h]

/-- Without the send-configuration port ahead, the loop takes over every port. -/
theorem sync_of_not_mem {ports : Nat → ℚ} {rest : List Nat} (hrest : rest.Nodup)
    (hsend : portControlSendConfiguration ∉ rest) (lastValue : Nat → ℚ) (msg : List (List UInt8)) :
    sync ports rest lastValue msg =
      ⟨fun port => if port ∈ rest then ports port else lastValue port,
        msg ++ (rest.filter fun port => lastValue port ≠ ports port).flatMap
          (writeMidiSignal ports), false⟩ := by
  induction rest generalizing lastValue msg with
  | nil => simp [sync]
  | cons port rest ih =>
      obtain ⟨hport, hrest⟩ := List.nodup_cons.1 hrest
      have hne : port ≠ portControlSendConfiguration := fun h => hsend (h ▸ List.mem_cons_self)
      have hsend' : portControlSendConfiguration ∉ rest := fun h => hsend (List.mem_cons_of_mem _ h)
      rw [sync]
      by_cases heq : lastValue port = ports port
      · rw [if_pos heq, ih hrest hsend', List.filter_cons_of_neg (by simpa using heq)]
        congr 1
        funext p
        by_cases hp : p = port
        · subst hp
          simp [hport, heq]
        · simp [hp]
      · have hfilter :
            (rest.filter fun p => Function.update lastValue port (ports port) p ≠ ports p) =
              rest.filter fun p => lastValue p ≠ ports p := by
          refine List.filter_congr fun p hp => ?_
          rw [Function.update_of_ne (ne_of_mem_of_not_mem hp hport)]
        have hsignal : writeMidiSignal (Function.update lastValue port (ports port)) port =
            writeMidiSignal ports port := writeMidiSignal_congr (Function.update_self ..)
        simp only [if_neg heq, if_neg hne, ih hrest hsend', hfilter, hsignal]
        rw [List.filter_cons_of_pos (by simpa using heq), List.flatMap_cons, List.append_assoc]
        congr 1
        funext p
        by_cases hp : p = port
        · subst hp
          simp [hport]
        · simp [hp]

/-- A run of the port loop: the configuration, with only the send-configuration port taken over, or
the changes, with every port taken over. -/
theorem sync_eq (ports lastValue : Nat → ℚ) :
    sync ports controlPorts lastValue [] =
      if SendsConfiguration ports lastValue then
        let lastValue := Function.update lastValue portControlSendConfiguration
          (ports portControlSendConfiguration)
        ⟨lastValue, configuration lastValue, true⟩
      else
        ⟨fun port => if port ∈ controlPorts then ports port else lastValue port,
          changes ports lastValue, false⟩ := by
  have hports : controlPorts = 2 :: List.range' 3 42 := by decide
  have hnodup : (List.range' 3 42).Nodup := List.nodup_range'
  have hsend : portControlSendConfiguration ∉ List.range' 3 42 := by decide
  rw [hports, sync]
  by_cases heq : lastValue 2 = ports 2
  · rw [if_pos heq, sync_of_not_mem hnodup hsend, if_neg (fun h => h.1 heq)]
    congr 1
    funext p
    by_cases hp : p = 2
    · subst hp
      simp [heq]
    · simp [hp]
  · rw [if_neg heq]
    simp only [Function.update_self, if_true]
    by_cases hzero : ports 2 = 0
    · have hfilter : ((List.range' 3 42).filter
          fun p => Function.update lastValue 2 (ports 2) p ≠ ports p) =
          (List.range' 3 42).filter fun p => lastValue p ≠ ports p := by
        refine List.filter_congr fun p hp => ?_
        rw [Function.update_of_ne (ne_of_mem_of_not_mem hp hsend)]
      rw [if_pos hzero, sync_of_not_mem hnodup hsend, if_neg (fun h => h.2 hzero)]
      simp only [hfilter, List.nil_append, changes]
      congr 1
      funext p
      by_cases hp : p = 2
      · subst hp
        simp
      · simp [hp]
    · have hsends : SendsConfiguration ports lastValue := ⟨heq, hzero⟩
      rw [if_neg hzero, if_pos hsends]

end Soundcan.Setbfree
