import Soundcan.Lib.Transition
import Soundcan.Galv.CreatePorts
import Soundcan.Galv.Delivery

/-!
# The transport

`process_cb` asks JACK for the state and the position of the transport. `process_transport` compares
them with what the cycle before predicts, and a change is to be reported to the plugin by a
`time:Position` object at the head of its control input. The report is made to primary ports only,
and no port is primary (`jalvCreatePorts_isPrimary`): the plugin goes on with the transport of
`jalv_process_init`, stopped at frame 0 with 120 beats per minute, whatever JACK says
(`keptInformed_iff`).
-/

namespace Soundcan.Galv

open Bytes Lv2

/-! ## What JACK reports -/

/-- `jack_transport_state_t`. -/
inductive JackTransportState where
  | stopped
  | rolling
  | looping
  | starting
  | netStarting
  deriving DecidableEq, Repr

/-- `jack_position_t`; `bbt` is the flag `JackPositionBBT` of `valid`. -/
structure JackPosition where
  frame : UInt32
  bbt : Bool
  bar : Int32
  beat : Int32
  tick : Int32
  ticksPerBeat : Float
  beatsPerBar : Float32
  beatType : Float32
  beatsPerMinute : Float

/-- `jack_midi_event_t`. -/
structure JackMidiEvent where
  time : UInt32
  buffer : List UInt8
  size_lt : buffer.length < 2 ^ 32

/-- The URIDs of events and of transport positions. -/
structure TransportURIDs where
  atomObject : UInt32
  atomInt : UInt32
  atomLong : UInt32
  atomFloat : UInt32
  midiMidiEvent : UInt32
  timePosition : UInt32
  timeFrame : UInt32
  timeSpeed : UInt32
  timeBarBeat : UInt32
  timeBar : UInt32
  timeBeatUnit : UInt32
  timeBeatsPerBar : UInt32
  timeBeatsPerMinute : UInt32
  midiMidiEvent_ne : midiMidiEvent ≠ atomObject

/-! ## The position object -/

/-- `lv2_atom_forge_key` with a value behind it. -/
def forgeProperty (key type : UInt32) (value : List UInt8) : List UInt8 :=
  wordBytes key ++ (wordBytes 0 ++ (wordBytes (UInt32.ofNat value.length) ++ (wordBytes type ++
    (value ++ List.replicate (pad8 value.length - value.length) 0))))

/-- `lv2_atom_forge_long`. -/
def forgeLong (urids : TransportURIDs) (key : UInt32) (value : Int64) : List UInt8 :=
  forgeProperty key urids.atomLong (leBytes 8 value.toUInt64.toNat)

/-- `lv2_atom_forge_int`. -/
def forgeInt (urids : TransportURIDs) (key : UInt32) (value : Int32) : List UInt8 :=
  forgeProperty key urids.atomInt (wordBytes value.toUInt32)

/-- `lv2_atom_forge_float`. -/
def forgeFloat (urids : TransportURIDs) (key : UInt32) (value : Float32) : List UInt8 :=
  forgeProperty key urids.atomFloat (wordBytes value.toBits)

/-- `forge_position`: the body of the object. -/
def forgePosition (urids : TransportURIDs) (state : JackTransportState) (pos : JackPosition) :
    List UInt8 :=
  wordBytes 0 ++ (wordBytes urids.timePosition ++
    (forgeLong urids urids.timeFrame pos.frame.toUInt64.toInt64 ++
    (forgeFloat urids urids.timeSpeed (if state = .rolling then 1.0 else 0.0) ++
    if pos.bbt then
      forgeFloat urids urids.timeBarBeat
        ((pos.beat - 1).toFloat + pos.tick.toFloat / pos.ticksPerBeat).toFloat32 ++
      (forgeLong urids urids.timeBar (pos.bar - 1).toInt64 ++
      (forgeInt urids urids.timeBeatUnit pos.beatType.toInt32 ++
      (forgeFloat urids urids.timeBeatsPerBar pos.beatsPerBar ++
      forgeFloat urids urids.timeBeatsPerMinute pos.beatsPerMinute.toFloat32)))
    else [])))

/-- The event is a `time:Position` object: its type, and the type in its body behind its
identifier. -/
def isPosition (urids : TransportURIDs) (ev : AtomEvent) : Bool :=
  ev.type = urids.atomObject.toNat ∧ (ev.body.drop 4).take 4 = wordBytes urids.timePosition

/-- The sequence in the buffer begins with a `time:Position` object. -/
def beginsWithPosition (urids : TransportURIDs) (b : Evbuf) : Bool :=
  match sequenceEvents b.buf with
  | some (ev :: _) => isPosition urids ev
  | _ => false

/-- A property takes its header and its padded value. -/
theorem length_forgeProperty (key type : UInt32) (value : List UInt8) :
    (forgeProperty key type value).length = 16 + pad8 value.length := by
  have hpad := le_pad8 value.length
  simp only [forgeProperty, List.length_append, length_wordBytes, List.length_replicate]
  omega

/-- A position fits the buffer that `process_cb` has for it, beside its header. -/
theorem length_forgePosition_le (urids : TransportURIDs) (state : JackTransportState)
    (pos : JackPosition) : (forgePosition urids state pos).length ≤ 504 := by
  unfold forgePosition
  cases pos.bbt <;> simp [forgeLong, forgeInt, forgeFloat, length_forgeProperty, pad8]

/-! ## A cycle -/

/-- The fields of `JalvProcess` that predict the transport. -/
structure Transport where
  position : UInt32
  bpm : Float32
  rolling : Bool

/-- The transport of `jalv_process_init`. -/
def Transport.initial : Transport := ⟨0, 120, false⟩

/-- `process_transport`. -/
def processTransport (proc : Transport) (state : JackTransportState) (pos : JackPosition)
    (nframes : UInt32) : Bool × Transport :=
  let rolling := state = .rolling
  let xportChanged := rolling ≠ proc.rolling ∨ pos.frame ≠ proc.position ∨
    (pos.bbt && pos.beatsPerMinute != proc.bpm.toFloat) = true
  (xportChanged,
    { position := if rolling then pos.frame + nframes else pos.frame
      bpm := if pos.bbt then pos.beatsPerMinute.toFloat32 else proc.bpm
      rolling })

/-- What a call of `process_cb` meets: the run state, its block length, the transport, the MIDI
events of the JACK ports, and the event buffers as the cycle before and `jalv_process_activate`
leave them. -/
structure JackCycle where
  runState : JalvRunState
  nframes : UInt32
  state : JackTransportState
  pos : JackPosition
  midi : Nat → List JackMidiEvent
  evbufs : Nat → Evbuf
  allocated : ∀ p, (evbufs p).Allocated

/-- A MIDI event as it is written to an event buffer. -/
def JackMidiEvent.atomEvent (urids : TransportURIDs) (ev : JackMidiEvent) : AtomEvent :=
  ⟨ev.time.toNat, urids.midiMidiEvent.toNat, ev.buffer⟩

/-- The events that `process_cb` writes to the buffer of an event input. -/
def inputEvents (urids : TransportURIDs) (xportChanged : Bool) (c : JackCycle)
    (port : JalvProcessPort) (midi : List JackMidiEvent) : List AtomEvent :=
  (if port.isPrimary && xportChanged then
    [⟨0, urids.atomObject.toNat, forgePosition urids c.state c.pos⟩] else []) ++
  (if port.sysPort then midi.map (·.atomEvent urids) else [])

/-- Each event that the host puts in fits. -/
theorem fits_of_mem_inputEvents {urids : TransportURIDs} {xportChanged : Bool} {c : JackCycle}
    {port : JalvProcessPort} {midi : List JackMidiEvent} :
    ∀ ev ∈ inputEvents urids xportChanged c port midi, ev.Fits := by
  intro ev hev
  rcases List.mem_append.1 hev with hev | hev
  · split at hev
    · obtain rfl := List.mem_singleton.1 hev
      have hlength := length_forgePosition_le urids c.state c.pos
      exact ⟨by norm_num, urids.atomObject.toNat_lt, by dsimp only; omega⟩
    · exact absurd hev List.not_mem_nil
  · split at hev
    · obtain ⟨m, -, rfl⟩ := List.mem_map.1 hev
      have htime := m.time.toNat_lt
      refine ⟨?_, urids.midiMidiEvent.toNat_lt, m.size_lt⟩
      dsimp only [JackMidiEvent.atomEvent]
      omega
    · exact absurd hev List.not_mem_nil

/-- What `process_cb` has for the event inputs. -/
def prepared (urids : TransportURIDs) (ports : List JalvProcessPort) (xportChanged : Bool)
    (c : JackCycle) : Prepared where
  events p := (ports[p]?.map fun port =>
    inputEvents urids xportChanged c port (c.midi p)).getD []
  fits p ev hev := by
    cases hport : ports[p]? with
    | none =>
        rw [hport] at hev
        exact absurd hev List.not_mem_nil
    | some port =>
        rw [hport] at hev
        exact fits_of_mem_inputEvents ev hev

/-- `process_cb` up to the call of the plugin: the transport it predicts, and the event buffers. In
a silent cycle it does nothing of this. -/
def processCb (urids : TransportURIDs) (ports : List JalvProcessPort) (proc : Transport)
    (c : JackCycle) : Option (Transport × (Nat → Evbuf)) :=
  match c.runState with
  | .paused => some (proc, c.evbufs)
  | .running => do
    let (xportChanged, proc) := processTransport proc c.state c.pos c.nframes
    let evbufs ← preparePorts (prepared urids ports xportChanged c)
      (ports.map (·.toProcessPort)) 0 c.evbufs
    some (proc, evbufs)

/-- The runs of `process_cb`: the cycles, each with the event buffers for the plugin. -/
def transport (urids : TransportURIDs) (ports : List JalvProcessPort) :
    Lts Transport (JackCycle × (Nat → Evbuf)) :=
  .ofStep .initial (processCb urids ports)

/-- The ports behind `jalv_open`, where `registered` says which of them JACK registers. -/
def activatedPorts (registered : Nat → Bool) (ports : List JalvProcessPort) :
    List JalvProcessPort :=
  ports.mapIdx fun p port => jalvBackendActivatePort (registered p) port

/-! ## What the plugin knows -/

/-- What the plugin knows about the transport behind a cycle. A position replaces what it knew, but
for the tempo where the position has none; a rolling transport moves on by the frames of the running
cycle. -/
def hear (urids : TransportURIDs) (p : Nat) (known : Transport)
    (c : JackCycle × (Nat → Evbuf)) : Transport :=
  match c.1.runState with
  | .paused => known
  | .running =>
    let known := if beginsWithPosition urids (c.2 p) then
        { position := c.1.pos.frame
          bpm := if c.1.pos.bbt then c.1.pos.beatsPerMinute.toFloat32 else known.bpm
          rolling := c.1.state = .rolling }
      else known
    { known with
      position := if known.rolling then known.position + c.1.nframes else known.position }

/-- What the plugin knows about the transport after a history, from the last position in the buffer
of its port `p`; before the first one it is the transport of `jalv_process_init`. -/
def known (urids : TransportURIDs) (p : Nat)
    (history : List (JackCycle × (Nat → Evbuf))) : Transport :=
  history.foldl (hear urids p) .initial

/-- JACK reports what a plugin knows: the frame, the rolling flag and, where there is one, the
tempo. -/
def JackCycle.Agrees (c : JackCycle) (known : Transport) : Prop :=
  c.pos.frame = known.position ∧ (c.state = .rolling ↔ known.rolling = true) ∧
    (c.pos.bbt = true → (c.pos.beatsPerMinute == known.bpm.toFloat) = true)

/-- In a running cycle the buffer of the port begins with a position, or the transport is as the
plugin knows it. -/
def KeptInformed (urids : TransportURIDs) (p : Nat) (history : List (JackCycle × (Nat → Evbuf)))
    (c : JackCycle × (Nat → Evbuf)) : Prop :=
  c.1.runState = .running →
    beginsWithPosition urids (c.2 p) = true ∨ c.1.Agrees (known urids p history)

/-- In a running cycle the transport is stopped at frame 0, at 120 beats per minute if it has a
tempo. -/
def JackCycle.Untouched (c : JackCycle) : Prop := c.runState = .running → c.Agrees .initial

/-! ## Nothing is reported -/

section
variable {urids : TransportURIDs} {ports : List JalvProcessPort} {p : Nat} {port : JalvProcessPort}

/-- MIDI events are not positions. -/
theorem isPosition_of_mem_inputEvents {xportChanged : Bool} {c : JackCycle}
    {midi : List JackMidiEvent} (hprimary : port.isPrimary = false) {ev : AtomEvent}
    (hev : ev ∈ inputEvents urids xportChanged c port midi) : isPosition urids ev = false := by
  rw [inputEvents, hprimary, Bool.false_and, if_neg Bool.false_ne_true, List.nil_append] at hev
  split at hev
  · obtain ⟨m, -, rfl⟩ := List.mem_map.1 hev
    have hne : urids.midiMidiEvent.toNat ≠ urids.atomObject.toNat :=
      fun h => urids.midiMidiEvent_ne (UInt32.toNat_inj.1 h)
    simp [isPosition, JackMidiEvent.atomEvent, hne]
  · exact absurd hev List.not_mem_nil

/-- The buffer of an event input that is not primary does not begin with a position. -/
theorem processCb_not_position {proc proc' : Transport} {c : JackCycle} {evbufs : Nat → Evbuf}
    (hport : ports[p]? = some port) (hinput : port.isEventInput = true)
    (hprimary : port.isPrimary = false) (hrun : c.runState = .running)
    (h : processCb urids ports proc c = some (proc', evbufs)) :
    beginsWithPosition urids (evbufs p) = false := by
  unfold processCb at h
  rw [hrun] at h
  obtain ⟨evbufs', hprepare, h⟩ := Option.bind_eq_some_iff.1 h
  obtain ⟨-, rfl⟩ := Prod.mk.inj (Option.some.inj h)
  have hport' : (ports.map (·.toProcessPort))[p]? = some port.toProcessPort := by
    rw [List.getElem?_map, hport, Option.map_some]
  obtain ⟨evs, hsub, hevs⟩ :=
    preparePorts_hasEvents hprepare (fun i _ _ _ => c.allocated (0 + i)) hport' hinput
  rw [Nat.zero_add] at hsub hevs
  rw [beginsWithPosition, hevs.sequenceEvents]
  cases evs with
  | nil => rfl
  | cons ev evs =>
      have hev : ev ∈ (prepared urids ports _ c).events p := hsub.subset List.mem_cons_self
      simp only [prepared, hport, Option.map_some, Option.getD_some] at hev
      exact isPosition_of_mem_inputEvents hprimary hev

/-- A cycle without a position teaches the plugin nothing while it thinks the transport stopped. -/
theorem hear_eq {known : Transport} {c : JackCycle × (Nat → Evbuf)} (hstop : known.rolling = false)
    (h : c.1.runState = .running → beginsWithPosition urids (c.2 p) = false) :
    hear urids p known c = known := by
  obtain ⟨position, bpm, rolling⟩ := known
  obtain rfl : rolling = false := hstop
  unfold hear
  cases hrun : c.1.runState with
  | paused => rfl
  | running => simp only [h hrun, Bool.false_eq_true, if_false]

/-- The last cycle is heard last. -/
theorem known_concat (tr : List (JackCycle × (Nat → Evbuf))) (c : JackCycle × (Nat → Evbuf)) :
    known urids p (tr ++ [c]) = hear urids p (known urids p tr) c := by
  rw [known, List.foldl_append, List.foldl_cons, List.foldl_nil]
  rfl

end

/-- In every run of `process_cb`, over every plugin, an event input keeps the plugin informed of the
transport exactly if JACK never leaves the transport of the start: stopped at frame 0, and at 120
beats per minute where it has a tempo. The designation of the port does not matter. -/
theorem keptInformed_iff {urids : TransportURIDs} {plugin : List LilvPort}
    {ports : List JalvProcessPort} {controlIn : Option Nat} {registered : Nat → Bool} {p : Nat}
    {lilvPort : LilvPort} {tr : List (JackCycle × (Nat → Evbuf))} {proc : Transport}
    (hports : jalvCreatePorts plugin = some (ports, controlIn))
    (hp : plugin[p]? = some lilvPort) (hflow : lilvPort.flow = some .input)
    (htype : lilvPort.type = some .event)
    (h : (transport urids (activatedPorts registered ports)).Run tr proc) :
    Lts.EachStep (KeptInformed urids p) tr ↔ ∀ c ∈ tr, c.1.Untouched := by
  obtain ⟨port, hport, hinit⟩ := createPorts_getElem hports hp
  have hprimary := jalvCreatePorts_isPrimary hports port (List.mem_of_getElem? hport)
  have hinput : port.isEventInput = true := by
    obtain ⟨hflow', htype'⟩ := jalvProcessPortInit_eq hinit
    have hf : port.flow = .input := Option.some.inj (hflow'.symm.trans hflow)
    have ht : port.type = .event := Option.some.inj (htype'.symm.trans htype)
    simp [ProcessPort.isEventInput, hf, ht]
  have hactive : (activatedPorts registered ports)[p]? =
      some (jalvBackendActivatePort (registered p) port) := by
    rw [activatedPorts, List.getElem?_mapIdx, hport, Option.map_some]
  rw [← Lts.eachStep_iff_forall_mem]
  refine h.eachStep_iff (I := fun tr _ => known urids p tr = .initial) (fun _ _ => rfl) ?_
  intro tr proc c proc' hknown hstep
  have hnot : c.1.runState = .running → beginsWithPosition urids (c.2 p) = false := fun hrun =>
    processCb_not_position hactive (by simpa using hinput) (by simpa using hprimary) hrun hstep
  constructor
  · rw [known_concat, hknown]
    exact hear_eq rfl hnot
  · unfold KeptInformed JackCycle.Untouched
    rw [hknown]
    constructor
    · intro hc hrun
      exact (hc hrun).resolve_left (by simp [hnot hrun])
    · intro hc hrun
      exact .inr (hc hrun)

/-! ## A plugin with one control input -/

/-- Thirteen URIDs. -/
def thirteenUrids : TransportURIDs where
  atomObject := 1
  atomInt := 2
  atomLong := 3
  atomFloat := 4
  midiMidiEvent := 5
  timePosition := 6
  timeFrame := 7
  timeSpeed := 8
  timeBarBeat := 9
  timeBar := 10
  timeBeatUnit := 11
  timeBeatsPerBar := 12
  timeBeatsPerMinute := 13
  midiMidiEvent_ne := by decide

/-- An event input whose designation is `lv2:control`. -/
def controlInput : LilvPort where
  inputPort := true
  outputPort := false
  controlPort := false
  audioPort := false
  cvPort := false
  atomPort := true
  connectionOptional := false
  symbol := some ['c', 'o', 'n', 't', 'r', 'o', 'l']
  name := none
  minimumSize := none
  reportsLatency := false
  notOnGui := false
  designations := [.control]
  supportsMidi := true

/-- The port of the process thread for it. -/
def controlInputPort : JalvProcessPort := (jalvProcessPortInit controlInput .zeroed).getD .zeroed

/-- The port that is created for a control input. -/
theorem jalvCreatePorts_controlInput :
    jalvCreatePorts [controlInput] = some ([controlInputPort], none) := by rfl

/-- A running cycle of 64 frames without MIDI events, and without a tempo. -/
def cycleAt (state : JackTransportState) (frame : UInt32) : JackCycle where
  runState := .running
  nframes := 64
  state
  pos := ⟨frame, false, 0, 0, 0, 0, 0, 0, 0⟩
  midi _ := []
  evbufs _ := .new 64 7 8
  allocated _ := Evbuf.allocated_new (by norm_num) (by norm_num)

/-- Such a cycle is defined. -/
theorem processCb_cycleAt (state : JackTransportState) (frame : UInt32) :
    ∃ proc evbufs, processCb thirteenUrids (activatedPorts (fun _ => true) [controlInputPort])
      .initial (cycleAt state frame) = some (proc, evbufs) := by
  refine ⟨_, _, rfl⟩

/-- A transport that is stopped at frame 0 in the running cycles, and rolls in a paused one. -/
def pausedCycles : List JackCycle :=
  [cycleAt .stopped 0, { cycleAt .rolling 64 with runState := .paused }, cycleAt .stopped 0]

/-- In the run of these cycles the plugin is kept informed. -/
theorem keptInformed_stopped : ∃ tr proc,
    (transport thirteenUrids (activatedPorts (fun _ => true) [controlInputPort])).Run tr proc ∧
    tr.map Prod.fst = pausedCycles ∧
    Lts.EachStep (KeptInformed thirteenUrids 0) tr := by
  let ports := activatedPorts (fun _ => true) [controlInputPort]
  obtain ⟨proc₁, evbufs₁, proc₂, evbufs₂, proc₃, evbufs₃, h₁, h₂, h₃⟩ :
      ∃ proc₁ evbufs₁ proc₂ evbufs₂ proc₃ evbufs₃,
        processCb thirteenUrids ports .initial (cycleAt .stopped 0) = some (proc₁, evbufs₁) ∧
        processCb thirteenUrids ports proc₁ { cycleAt .rolling 64 with runState := .paused } =
          some (proc₂, evbufs₂) ∧
        processCb thirteenUrids ports proc₂ (cycleAt .stopped 0) = some (proc₃, evbufs₃) :=
    ⟨_, _, _, _, _, _, rfl, rfl, rfl⟩
  have hfirst : (transport thirteenUrids ports).Run [(cycleAt .stopped 0, evbufs₁)] proc₁ :=
    .step (.init rfl) h₁
  have hsecond := hfirst.step (a := (_, evbufs₂)) h₂
  have hrun := hsecond.step (a := (_, evbufs₃)) h₃
  refine ⟨_, _, hrun, rfl, ?_⟩
  refine (keptInformed_iff jalvCreatePorts_controlInput rfl rfl rfl hrun).2 ?_
  have hstopped : (cycleAt .stopped 0).Untouched := fun _ =>
    ⟨rfl, by simp [cycleAt, Transport.initial], fun hbbt => absurd hbbt Bool.false_ne_true⟩
  intro c hc
  simp only [List.mem_append, List.mem_singleton, or_assoc] at hc
  rcases hc with rfl | rfl | rfl
  · exact hstopped
  · exact nofun
  · exact hstopped

/-- A transport that rolls in the first cycle is not reported to the control input. -/
theorem rolling_not_reported :
    ¬∀ (plugin : List LilvPort) (ports : List JalvProcessPort) (controlIn : Option Nat)
      (registered : Nat → Bool) (p : Nat) (lilvPort : LilvPort)
      (tr : List (JackCycle × (Nat → Evbuf))) (proc : Transport),
      jalvCreatePorts plugin = some (ports, controlIn) → plugin[p]? = some lilvPort →
      lilvPort.flow = some .input → lilvPort.type = some .event →
      .control ∈ lilvPort.designations →
      (transport thirteenUrids (activatedPorts registered ports)).Run tr proc →
      Lts.EachStep (KeptInformed thirteenUrids p) tr := by
  intro hall
  obtain ⟨proc, evbufs, hcb⟩ := processCb_cycleAt .rolling 0
  have heach := hall [controlInput] [controlInputPort] none (fun _ => true) 0 controlInput
    [(cycleAt .rolling 0, evbufs)] proc jalvCreatePorts_controlInput rfl rfl rfl
    List.mem_cons_self (.step (.init rfl) hcb)
  have hnot := processCb_not_position (p := 0) rfl rfl rfl rfl hcb
  rcases heach [] _ [] rfl rfl with hposition | hagrees
  · exact absurd hposition (by simp [hnot])
  · exact absurd (hagrees.2.1.1 rfl) Bool.false_ne_true

end Soundcan.Galv
