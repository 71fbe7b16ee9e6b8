import Soundcan.Lib.Loop
import Soundcan.Galv.Traversal

/-!
# What the plugin leaves in an event output

Behind the plugin's run `process_cb` traverses the buffer of each event output, writes its MIDI
events to JACK and forwards all of them to the UI. The buffer is what the plugin left there. An
event is stepped over by its size, which is added up in 32 bits: the sum of the header and a body of
nearly 4 GiB is 0, and the traversal stays at that event for ever, or the offset wraps and it goes
back. `traversal_endsForward_iff` says which buffers it goes through.
-/

namespace Soundcan.Galv

open Bytes Lv2

/-! ## The loop -/

/-- What `lv2_evbuf_get` stores through its pointers; `data` is an offset in the buffer. -/
structure EvbufEvent where
  frames : Nat
  subframes : Nat
  type : Nat
  size : Nat
  data : Option Nat
  deriving DecidableEq

/-- `lv2_evbuf_get` as it is, whatever the size of the event: whether it returns true, and what it
stores. -/
def Evbuf.getEvent (b : Evbuf) (offset : Nat) : Option (Bool × EvbufEvent) := do
  if ← b.isValid offset then
    let aev := sizeofAtomSequence + offset
    let frames ← b.buf.loadWord 8 aev
    let size ← b.buf.loadWord 4 (aev + 8)
    let type ← b.buf.loadWord 4 (aev + 12)
    some (true, ⟨frames % 2 ^ 32, 0, type, size, some (aev + sizeofAtomEvent)⟩)
  else
    some (false, ⟨0, 0, 0, 0, none⟩)

/-- Where the loop of `process_cb` over the events of an output is, and the events that it has given
to `jack_midi_event_write` and to `jalv_write_event`. -/
structure OutputLoop where
  offset : Nat
  midi : List EvbufEvent
  forwarded : List EvbufEvent

/-- `lv2_evbuf_begin`. -/
def OutputLoop.begin : OutputLoop := ⟨0, [], []⟩

/-- The loop over the events of an output: for the one of a system port (`sysPort`), the MIDI events
are written to JACK, and where there is a UI (`hasUi`) all events are forwarded. -/
def Evbuf.traversal (b : Evbuf) (midiMidiEvent : Nat) (sysPort hasUi : Bool) :
    Loop OutputLoop where
  test s := b.isValid s.offset
  body s := do
    let (_, event) ← b.getEvent s.offset
    let offset ← b.next s.offset
    some {
      offset
      midi := if sysPort ∧ event.type = midiMidiEvent then s.midi ++ [event] else s.midi
      forwarded := if hasUi then s.forwarded ++ [event] else s.forwarded }

/-- An output behind the plugin's run: any bytes, but for the type and the size of the sequence. -/
structure Evbuf.Output (b : Evbuf) (size : Nat) : Prop where
  size_buf : b.buf.size = 32 + b.capacity
  capacity_lt : b.capacity < 2 ^ 32
  atomType : b.buf.loadWord 4 4 = some b.atomSequence
  atomSize : b.buf.loadWord 4 0 = some size
  le_size : 8 ≤ size
  size_le : size ≤ b.capacity

/-- The traversal ends, and each step of it goes forward. -/
structure Evbuf.EndsForward (b : Evbuf) (midiMidiEvent : Nat) (sysPort hasUi : Bool) : Prop where
  ends : (b.traversal midiMidiEvent sysPort hasUi).Ends .begin
  forward : ∀ s s', (b.traversal midiMidiEvent sysPort hasUi).Visits .begin s →
    (b.traversal midiMidiEvent sysPort hasUi).Round s s' → s.offset < s'.offset

/-! ## The events of the buffer -/

/-- What an event with a body of `size` bytes takes in the buffer, where the size of the header and
the body is a 32-bit word. -/
def stride (size : Nat) : Nat := pad8 ((sizeofAtomEvent + size) % 2 ^ 32)

/-- The size of the event is not 0, and it ends below 4 GiB. -/
def Advances (offset size : Nat) : Prop :=
  (sizeofAtomEvent + size) % 2 ^ 32 ≠ 0 ∧ offset + stride size < 2 ^ 32

/-- The `body.size` at an offset. -/
def Evbuf.bodySize (b : Evbuf) (offset : Nat) : Option Nat :=
  b.buf.loadWord 4 (sizeofAtomSequence + offset + 8)

/-- The offsets of the events of a sequence of `size` bytes: the first is at 0, and each lies behind
the one before it. -/
inductive Evbuf.EventAt (b : Evbuf) (size : Nat) : Nat → Prop
  | first : b.EventAt size 0
  | behind {offset bodySize : Nat} : b.EventAt size offset →
      sizeofAtomSequenceBody + offset < size → b.bodySize offset = some bodySize →
      b.EventAt size (offset + stride bodySize)

/-- Each event in the sequence has a size that leads forward. -/
def Evbuf.LeadsForward (b : Evbuf) (size : Nat) : Prop :=
  ∀ offset bodySize, b.EventAt size offset → sizeofAtomSequenceBody + offset < size →
    b.bodySize offset = some bodySize → Advances offset bodySize

/-- The next offset is a later one exactly where the iterator advances. -/
theorem lt_next_iff {offset size : Nat} (hoffset : offset < 2 ^ 32) :
    offset < (offset + atomPadSize (sizeofAtomEvent + size)) % 2 ^ 32 ↔ Advances offset size := by
  unfold Advances stride atomPadSize pad8
  omega

/-- Where the iterator advances, the next offset is the sum without a wrap. -/
theorem Advances.next_eq {offset size : Nat} (h : Advances offset size) :
    (offset + atomPadSize (sizeofAtomEvent + size)) % 2 ^ 32 = offset + stride size := by
  unfold Advances at h
  unfold stride atomPadSize pad8 at *
  omega

namespace Evbuf

variable {b : Evbuf} {size offset midiMidiEvent : Nat} {sysPort hasUi : Bool} {s s' : OutputLoop}

/-! ## One round -/

/-- A word of the buffer can be read. -/
theorem Output.loadWord (h : b.Output size) {w a : Nat} (ha : a + w ≤ 32 + b.capacity) :
    ∃ n, b.buf.loadWord w a = some n := by
  have hsize := h.size_buf
  rw [Block.loadWord, Block.load, if_pos (by omega)]
  exact ⟨_, rfl⟩

/-- An offset is valid in front of the end of the events. -/
theorem Output.isValid (h : b.Output size) (offset : Nat) :
    b.isValid offset = some (decide (8 + offset < size)) := by
  have hle := h.le_size
  have hsize : b.getSize = some (size - 8) := by
    simp [getSize, h.atomSize, h.atomType, hle]
  rw [Evbuf.isValid, hsize, Option.bind_eq_bind, Option.bind_some]
  congr 2
  rw [Nat.lt_sub_iff_add_lt']

/-- At an event in the sequence there is a round, and it steps over the event. -/
theorem Output.exists_round (h : b.Output size) (hlt : 8 + s.offset < size) :
    ∃ bodySize s', b.bodySize s.offset = some bodySize ∧
      (b.traversal midiMidiEvent sysPort hasUi).Round s s' ∧
      s'.offset = (s.offset + atomPadSize (sizeofAtomEvent + bodySize)) % 2 ^ 32 := by
  have hle := h.size_le
  have hvalid : b.isValid s.offset = some true := by
    rw [h.isValid, decide_eq_true hlt]
  obtain ⟨frames, hframes⟩ := h.loadWord (w := 8) (a := 16 + s.offset) (by omega)
  obtain ⟨bodySize, hsize⟩ := h.loadWord (w := 4) (a := 16 + s.offset + 8) (by omega)
  obtain ⟨type, htype⟩ := h.loadWord (w := 4) (a := 16 + s.offset + 12) (by omega)
  have hget : b.getEvent s.offset = some (true, ⟨frames % 2 ^ 32, 0, type, bodySize,
      some (16 + s.offset + 16)⟩) := by
    simp only [getEvent, hvalid, hframes, hsize, htype, Option.bind_eq_bind, Option.bind_some,
      if_true]
  have hnext : b.next s.offset =
      some ((s.offset + atomPadSize (sizeofAtomEvent + bodySize)) % 2 ^ 32) := by
    simp only [Evbuf.next, hvalid, hsize, Option.bind_eq_bind, Option.bind_some, if_true]
  obtain ⟨s', hbody, hoffset⟩ : ∃ s',
      (b.traversal midiMidiEvent sysPort hasUi).body s = some s' ∧
        s'.offset = (s.offset + atomPadSize (sizeofAtomEvent + bodySize)) % 2 ^ 32 := by
    simp only [traversal, hget, hnext, Option.bind_eq_bind, Option.bind_some]
    exact ⟨_, rfl, rfl⟩
  exact ⟨bodySize, s', hsize, ⟨hvalid, hbody⟩, hoffset⟩

/-- Every round is one of these. -/
theorem Output.round_eq (h : b.Output size)
    (hround : (b.traversal midiMidiEvent sysPort hasUi).Round s s') :
    8 + s.offset < size ∧ ∃ bodySize, b.bodySize s.offset = some bodySize ∧
      s'.offset = (s.offset + atomPadSize (sizeofAtomEvent + bodySize)) % 2 ^ 32 := by
  have hlt : 8 + s.offset < size := by
    have hvalid : b.isValid s.offset = some true := hround.1
    rw [h.isValid] at hvalid
    exact of_decide_eq_true (Option.some.inj hvalid)
  obtain ⟨bodySize, s₁, hsize, hround₁, hoffset⟩ := h.exists_round hlt
  obtain rfl := Option.some.inj (hround.2.symm.trans hround₁.2)
  exact ⟨hlt, bodySize, hsize, hoffset⟩

/-! ## The traversal -/

/-- Where the sizes lead forward, a round goes from an event to one behind it. -/
theorem Output.eventAt_of_round (h : b.Output size) (hleads : b.LeadsForward size)
    (hevent : b.EventAt size s.offset)
    (hround : (b.traversal midiMidiEvent sysPort hasUi).Round s s') :
    b.EventAt size s'.offset ∧ s.offset < s'.offset := by
  have hle := h.size_le
  have hcap := h.capacity_lt
  obtain ⟨hlt, bodySize, hsize, hoffset⟩ := h.round_eq hround
  have hadvances := hleads _ _ hevent hlt hsize
  rw [hoffset]
  refine ⟨?_, (lt_next_iff (by omega)).2 hadvances⟩
  rw [hadvances.next_eq]
  exact hevent.behind hlt hsize

/-- Then the traversal goes from event to event. -/
theorem Output.eventAt_of_visits (h : b.Output size) (hleads : b.LeadsForward size)
    (hvisits : (b.traversal midiMidiEvent sysPort hasUi).Visits .begin s) :
    b.EventAt size s.offset :=
  hvisits.invariant (I := fun s => b.EventAt size s.offset) .first fun _ _ hevent hround =>
    (h.eventAt_of_round hleads hevent hround).1

/-- Where each step goes forward, the traversal comes to every event of the sequence. -/
theorem Output.visits_of_eventAt (h : b.Output size)
    (hforward : b.EndsForward midiMidiEvent sysPort hasUi) (hevent : b.EventAt size offset) :
    ∃ s, (b.traversal midiMidiEvent sysPort hasUi).Visits .begin s ∧ s.offset = offset := by
  induction hevent with
  | first => exact ⟨.begin, .refl, rfl⟩
  | behind hevent hlt hsize ih =>
      obtain ⟨s, hvisits, rfl⟩ := ih
      have hexists : ∃ bodySize s', b.bodySize s.offset = some bodySize ∧
          (b.traversal midiMidiEvent sysPort hasUi).Round s s' ∧ _ := h.exists_round hlt
      obtain ⟨bodySize, s', hsize', hround, hoffset⟩ := hexists
      obtain rfl := Option.some.inj (hsize.symm.trans hsize')
      have hlt' := hforward.forward s s' hvisits hround
      rw [hoffset] at hlt'
      have hle := h.size_le
      have hcap := h.capacity_lt
      have hadvances := (lt_next_iff (by omega)).1 hlt'
      exact ⟨s', hvisits.tail hround, hoffset.trans hadvances.next_eq⟩

end Evbuf

/-- The traversal of an output ends, each step going forward, exactly when the size of each event in
it, counted in 32 bits with its header, is not 0 and ends below 4 GiB. -/
theorem traversal_endsForward_iff {b : Evbuf} {size : Nat} (h : b.Output size)
    (midiMidiEvent : Nat) (sysPort hasUi : Bool) :
    b.EndsForward midiMidiEvent sysPort hasUi ↔ b.LeadsForward size := by
  have hle := h.size_le
  have hcap := h.capacity_lt
  constructor
  · intro hforward offset bodySize hevent hlt hsize
    obtain ⟨s, hvisits, rfl⟩ := h.visits_of_eventAt hforward hevent
    obtain ⟨bodySize', s', hsize', hround, hoffset⟩ := h.exists_round hlt
    obtain rfl := Option.some.inj (hsize.symm.trans hsize')
    refine (lt_next_iff (by omega)).1 ?_
    rw [← hoffset]
    exact hforward.forward s s' hvisits hround
  · intro hleads
    refine ⟨?_, fun s s' hvisits hround => ?_⟩
    · refine Loop.ends_of_measure (I := fun s => b.EventAt size s.offset)
        (fun s => size - s.offset) .first fun s hs => ?_
      by_cases hlt : 8 + s.offset < size
      · obtain ⟨bodySize, s', -, hround, -⟩ := h.exists_round hlt
        obtain ⟨hs', hless⟩ := h.eventAt_of_round hleads hs hround
        exact .inr ⟨s', hround, hs', by omega⟩
      · left
        show b.isValid s.offset = some false
        rw [h.isValid, decide_eq_false hlt]
    · exact (h.eventAt_of_round hleads (h.eventAt_of_visits hleads hvisits) hround).2

/-! ## An event of nearly 4 GiB -/

/-- A sequence with the header of one event, whose `body.size` is given. -/
def oneEvent (bodySize : Nat) : Evbuf where
  capacity := 32
  atomChunk := 1
  atomSequence := 2
  buf := (Block.zeroed 64).put 0 (leBytes 4 24 ++ leBytes 4 2 ++ leBytes 8 0 ++
    leBytes 8 0 ++ leBytes 4 bodySize ++ leBytes 4 7)

/-- A buffer with one event is an output. -/
theorem output_oneEvent (bodySize : Nat) : (oneEvent bodySize).Output 24 where
  size_buf := rfl
  capacity_lt := (by decide : 32 < 2 ^ 32)
  atomType := rfl
  atomSize := rfl
  le_size := by decide
  size_le := (by decide : 24 ≤ 32)

/-- The event of the buffer has the size that it was given. -/
theorem bodySize_oneEvent {bodySize : Nat} (h : bodySize < 2 ^ 32) :
    (oneEvent bodySize).bodySize 0 = some bodySize := by
  have hload : (oneEvent bodySize).bodySize 0 = some (ofLe (leBytes 4 bodySize)) := rfl
  rw [hload, ofLe_leBytes_of_lt (by norm_num; exact h)]

/-- Behind an event without a body the traversal is at its end. -/
theorem endsForward_oneEvent : (oneEvent 0).EndsForward 7 true true := by
  refine (traversal_endsForward_iff (output_oneEvent 0) 7 true true).2 ?_
  have hevents : ∀ offset, (oneEvent 0).EventAt 24 offset → offset = 0 ∨ 16 ≤ offset := by
    intro offset hevent
    induction hevent with
    | first => exact .inl rfl
    | behind _ _ hsize ih =>
        rcases ih with rfl | hle
        · rw [bodySize_oneEvent (by decide)] at hsize
          obtain rfl := Option.some.inj hsize
          exact .inr (by decide)
        · exact .inr (le_trans hle (Nat.le_add_right _ _))
  intro offset bodySize hevent hlt hsize
  rcases hevents offset hevent with rfl | hle
  · rw [bodySize_oneEvent (by decide)] at hsize
    obtain rfl := Option.some.inj hsize
    exact ⟨by decide, by decide⟩
  · simp only [sizeofAtomSequenceBody] at hlt
    omega

/-- Where header and body add up to 2 ^ 32 bytes, the traversal stays at the event. -/
theorem oneEvent_stays : (oneEvent 0xfffffff0).Output 24 ∧
    ¬((oneEvent 0xfffffff0).traversal 7 true true).Ends .begin := by
  have houtput := output_oneEvent 0xfffffff0
  have hvalid : ∀ s : OutputLoop, s.offset = 0 →
      (oneEvent 0xfffffff0).isValid s.offset = some true := by
    intro s hs
    rw [houtput.isValid, hs]
    rfl
  refine ⟨houtput, Loop.not_ends_of_invariant (I := fun s => s.offset = 0) rfl hvalid ?_⟩
  intro s s' hs hbody
  obtain ⟨-, bodySize, hsize, hoffset⟩ := houtput.round_eq ⟨hvalid s hs, hbody⟩
  rw [hs, bodySize_oneEvent (by decide)] at hsize
  obtain rfl := Option.some.inj hsize
  rw [hoffset, hs]
  rfl

end Soundcan.Galv
