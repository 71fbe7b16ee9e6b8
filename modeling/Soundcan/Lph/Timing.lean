import Soundcan.Lph.AtomInput
import Soundcan.Lph.AtomOutput

/-!
# Event times through the MIDI ports

An event's `time.frames` and a control's `offset` both count the frames from the start of the
block. `pre_run_atom_input` stores the running clock divided by the sample rate instead, and
`post_run_atom_output` emits every control at offset 0, so a time survives only where these
values happen to be the offset.
-/

namespace Soundcan.Lph

open Bytes Lv2

/-- Each event that `pre_run_atom_input` writes has its control's offset as its time. -/
def InputTimed (constants : Constants) (this : AtomInputPort) (pod : SpaPod) (frame : Nat)
    (denom : ℕ+) : Prop :=
  ∃ this', preRunAtomInput constants this (some pod) frame denom = some this' ∧
    sequenceEvents this'.buffer = some ((stored 0 pod.controls).map fun c =>
      ⟨c.offset, constants.midiMidiEvent, c.body⟩)

/-- Each control that `post_run_atom_output` emits has its event's time as its offset. -/
def OutputTimed (constants : Constants) (seq : WrittenSequence) (id : Nat)
    (pool : Nat → PwBuffer) : Prop :=
  ∃ fuel this', postRunAtomOutput constants fuel ⟨seq.block, some id, pool⟩ = some this' ∧
    (seq.events ≠ [] → (this'.pool id).controls =
      (seq.events.filter fun ev => ev.type = constants.midiMidiEvent).map fun ev =>
        { offset := ev.frames, type := spaControlMidi, body := ev.body })

/-- The stamp is the offset when the clock, as a time in rate units, lies in the offset's unit. -/
theorem evSec_eq_offset {frame offset : Nat} {denom : ℕ+} :
    evSec frame offset denom = offset ↔
      offset * denom ≤ (frame + offset) % 2 ^ 64 ∧
        (frame + offset) % 2 ^ 64 < (offset + 1) * denom := by
  rw [evSec, ← Nat.le_div_iff_mul_le denom.pos, ← Nat.div_lt_iff_lt_mul denom.pos]
  omega

/-- The stamps of a port's events. -/
theorem inputTimed_iff {constants : Constants} {this : AtomInputPort} {pod : SpaPod} {frame : Nat}
    {denom : ℕ+} (hb : this.buffer.size = 8192) :
    InputTimed constants this pod frame denom ↔
      ∀ c ∈ stored 0 pod.controls, evSec frame c.offset denom = c.offset := by
  obtain ⟨this', hpre, hseq, -⟩ := preRunAtomInput_some constants pod frame denom hb
  have hevs := hseq.sequenceEvents
  constructor
  · rintro ⟨this'', hpre', hevs'⟩
    obtain rfl := Option.some.inj (hpre.symm.trans hpre')
    have hmap := List.map_inj_left.1 (Option.some.inj (hevs.symm.trans hevs'))
    exact fun c hc => (AtomEvent.mk.inj (hmap c hc)).1
  · intro h
    refine ⟨this', hpre, hevs.trans (congrArg some (List.map_congr_left fun c hc => ?_))⟩
    rw [controlEvent, h c hc]

/-- `post_run_atom_output` on a written sequence that is not empty. -/
theorem postRunAtomOutput_sequence {constants : Constants} {seq : WrittenSequence}
    (hne : seq.events ≠ []) {id : Nat} {pool : Nat → PwBuffer} {this' : AtomOutputPort} :
    (∃ fuel, postRunAtomOutput constants fuel ⟨seq.block, some id, pool⟩ = some this') ↔
      this' = ⟨seq.block, some id, Function.update pool id
        (podBuffer (pool id).maxsize (midiBodies constants seq.events))⟩ := by
  simp only [postRunAtomOutput_walk seq.isSequence.size (WrittenSequence.sixteen_lt hne),
    Option.map_eq_some_iff]
  constructor
  · rintro ⟨fuel, builder, hloop, rfl⟩
    obtain ⟨bodies, hwalk, rfl⟩ := midiWalk_of_postRunLoop hloop
    obtain rfl := hwalk.unique seq.midiWalk
    rfl
  · rintro rfl
    obtain ⟨fuel, hloop⟩ := seq.midiWalk.postRunLoop Builder.pushSequence
    exact ⟨fuel, _, hloop, rfl⟩

/-- The controls of a pod are all at offset 0. -/
theorem controls_podBuffer (constants : Constants) (maxsize : Nat) (evs : List AtomEvent) :
    (podBuffer maxsize (midiBodies constants evs)).controls =
      (evs.filter fun ev => ev.type = constants.midiMidiEvent).map fun ev =>
        { offset := 0, type := spaControlMidi, body := ev.body } := by
  rw [podBuffer, Builder.midi_eq, midiBodies, List.map_map]
  rfl

/-- The offsets of a pod's controls. -/
theorem outputTimed_iff {constants : Constants} {seq : WrittenSequence} {id : Nat}
    {pool : Nat → PwBuffer} :
    OutputTimed constants seq id pool ↔
      ∀ ev ∈ seq.events, ev.type = constants.midiMidiEvent → ev.frames = 0 := by
  by_cases hnil : seq.events = []
  · have hsize : seq.block.loadWord 4 0 = some 8 := by
      rw [seq.isSequence.size, hnil]; rfl
    refine iff_of_true ⟨0, _, postRunAtomOutput_empty hsize (by norm_num) 0 pool, ?_⟩ ?_
    · exact fun hne => absurd hnil hne
    · simp [hnil]
  · have hmap : (∀ ev ∈ seq.events, ev.type = constants.midiMidiEvent → ev.frames = 0) ↔
        ∀ ev ∈ seq.events.filter fun ev => ev.type = constants.midiMidiEvent, ev.frames = 0 := by
      simp [List.mem_filter]
    rw [hmap]
    constructor
    · rintro ⟨fuel, this', hpost, htimed⟩
      obtain rfl := (postRunAtomOutput_sequence hnil).1 ⟨fuel, hpost⟩
      have hcontrols := htimed hnil
      simp only [Function.update_self, controls_podBuffer, List.map_inj_left] at hcontrols
      exact fun ev hev => (SpaPodControl.mk.inj (hcontrols ev hev)).1.symm
    · intro h
      obtain ⟨fuel, hpost⟩ := (postRunAtomOutput_sequence hnil).2 rfl
      refine ⟨fuel, _, hpost, fun _ => ?_⟩
      simp only [Function.update_self, controls_podBuffer]
      exact List.map_congr_left fun ev hev => by rw [h ev hev]

/-- Event times through the bridge. Into the plugin they are kept exactly when, for each control
that is stored, the clock at the control is between `offset * denom` and `(offset + 1) * denom`;
out of it, exactly when every MIDI event is at time 0. -/
theorem midiBridge_timed_iff (constants : Constants) (this : AtomInputPort)
    (hb : this.buffer.size = atomBufferSize) (pod : SpaPod) (frame : Nat) (denom : ℕ+)
    (seq : WrittenSequence) (id : Nat) (pool : Nat → PwBuffer) :
    (InputTimed constants this pod frame denom ↔ ∀ c ∈ stored 0 pod.controls,
      c.offset * denom ≤ (frame + c.offset) % 2 ^ 64 ∧
        (frame + c.offset) % 2 ^ 64 < (c.offset + 1) * denom) ∧
    (OutputTimed constants seq id pool ↔
      ∀ ev ∈ seq.events, ev.type = constants.midiMidiEvent → ev.frames = 0) := by
  refine ⟨?_, outputTimed_iff⟩
  simp only [inputTimed_iff hb, evSec_eq_offset]

/-- The first block after the start keeps the time of a note-on at its start, both ways. -/
theorem noteOn_timed :
    let constants : Constants := ⟨1, 2, by decide, by decide⟩
    InputTimed constants setupAtomInput (.sequence [⟨0, spaControlMidi, [0x90, 60, 100], 0⟩]) 0
      48000 ∧
    OutputTimed constants (.single noteOn fits_noteOn (by decide)) 0 emptyPool := by
  intro constants
  have h := midiBridge_timed_iff constants setupAtomInput rfl
    (.sequence [⟨0, spaControlMidi, [0x90, 60, 100], 0⟩]) 0 48000
    (.single noteOn fits_noteOn (by decide)) 0 emptyPool
  exact ⟨h.1.2 (by decide), h.2.2 (by decide)⟩

/-- In the second block of a host, a note-on in the middle of the block gets time 0; an event the
plugin wrote in the middle of the block is emitted at its start. -/
theorem noteOn_not_timed :
    let constants : Constants := ⟨1, 2, by decide, by decide⟩
    let late : AtomEvent := ⟨100, 1, [0x90, 60, 100]⟩
    ¬InputTimed constants setupAtomInput
      (.sequence [⟨100, spaControlMidi, [0x90, 60, 100], 0⟩]) 256 48000 ∧
    ¬OutputTimed constants (.single late ⟨by decide, by decide, by decide⟩ (by decide)) 0
      emptyPool := by
  intro constants late
  constructor
  · rw [inputTimed_iff rfl]
    decide
  · rw [outputTimed_iff]
    exact fun h => absurd (h late (List.mem_singleton_self late) rfl) (by decide)

end Soundcan.Lph
