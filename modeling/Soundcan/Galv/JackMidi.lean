import Soundcan.Galv.OutputEvents

/-!
# What an event output gives to JACK and to the UI

Behind the run of a plugin that has left a sequence in its output, the loop of `process_cb` goes
through the events of the sequence: at each it is where the event is, and it steps behind it. So the
MIDI port of JACK gets the MIDI events and the UI gets all events, each once, in their order and
with their bytes (`traversal_delivers`).
-/

namespace Soundcan.Galv

open Bytes Lv2

/-- What `lv2_evbuf_get` stores for the event at `a`. -/
def evbufEvent (a : Nat) (ev : AtomEvent) : EvbufEvent where
  frames := ev.frames % 2 ^ 32
  subframes := 0
  type := ev.type
  size := ev.body.length
  data := some (sizeofAtomSequence + a + sizeofAtomEvent)

@[simp] theorem type_evbufEvent (a : Nat) (ev : AtomEvent) : (evbufEvent a ev).type = ev.type := rfl

/-- The same for events that lie one after the other from `a` on. -/
def outputEvents : Nat → List AtomEvent → List EvbufEvent
  | _, [] => []
  | a, ev :: evs => evbufEvent a ev :: outputEvents (a + ev.span) evs

/-- An event as JACK and the UI get it: its time in 32 bits. -/
def inFrames (ev : AtomEvent) : AtomEvent := { ev with frames := ev.frames % 2 ^ 32 }

namespace Evbuf

/-- The event that a reader of the pointers of an `EvbufEvent` finds. -/
def pointed (b : Evbuf) (event : EvbufEvent) : Option AtomEvent := do
  let body ← b.buf.load (← event.data) event.size
  some ⟨event.frames, event.type, body⟩

variable {b : Evbuf} {a : Nat} {evs pre : List AtomEvent} {ev : AtomEvent} {midiMidiEvent : Nat}
  {sysPort hasUi : Bool}

/-- At an event of the buffer the iterator is valid, gets the event and moves behind it. -/
theorem HasEvents.getEvent (h : b.HasEvents (pre ++ ev :: evs)) :
    b.isValid (spanAll pre) = some true ∧
      b.getEvent (spanAll pre) = some (true, evbufEvent (spanAll pre) ev) ∧
      b.next (spanAll pre) = some (spanAll (pre ++ [ev])) := by
  have hspanAll : spanAll (pre ++ ev :: evs) = spanAll pre + (ev.span + spanAll evs) := by simp
  have hspan := ev.sixteen_le_span
  have hlt := h.span_lt
  have hfits := h.fits ev (by simp)
  have hheld := ((holdsEvents_append.1 h.events).2).1
  obtain ⟨hframes, hsize, htype, -⟩ := holds_event_iff.1 hheld
  have hvalid : b.isValid (spanAll pre) = some true := by
    have hgetSize : b.getSize = some (spanAll (pre ++ ev :: evs)) := by
      simp [Evbuf.getSize, h.size, h.type]
    rw [Evbuf.isValid, hgetSize, hspanAll]
    simp
    omega
  have hpadded : atomPadSize (16 + ev.body.length) = ev.span := by
    have hle := le_pad8 ev.body.length
    rw [AtomEvent.span] at hspanAll
    rw [atomPadSize_eq (by omega), pad8_header, AtomEvent.span]
  refine ⟨hvalid, ?_, ?_⟩
  · simp only [Evbuf.getEvent, hvalid, sizeofAtomSequence, hframes.loadWord_of_lt hfits.frames,
      hsize.loadWord_of_lt hfits.size, htype.loadWord_of_lt hfits.type, Option.bind_eq_bind,
      Option.bind_some, if_true]
    rfl
  · simp only [Evbuf.next, hvalid, sizeofAtomSequence, sizeofAtomEvent,
      hsize.loadWord_of_lt hfits.size, Option.bind_eq_bind, Option.bind_some, hpadded, if_true]
    rw [Nat.mod_eq_of_lt (by omega)]
    simp

/-- Behind the last event the iterator is not valid. -/
theorem HasEvents.isValid_end (h : b.HasEvents evs) : b.isValid (spanAll evs) = some false := by
  have hgetSize : b.getSize = some (spanAll evs) := by simp [Evbuf.getSize, h.size, h.type]
  rw [Evbuf.isValid, hgetSize]
  simp

/-- From behind some events the loop takes those that follow, and ends. -/
theorem HasEvents.run_traversal (h : b.HasEvents (pre ++ evs)) (midiMidiEvent : Nat)
    (sysPort hasUi : Bool) (midi forwarded : List EvbufEvent) :
    (b.traversal midiMidiEvent sysPort hasUi).run (evs.length + 1)
        ⟨spanAll pre, midi, forwarded⟩ =
      some ⟨spanAll (pre ++ evs),
        midi ++ (outputEvents (spanAll pre) evs).filter
          fun event => sysPort ∧ event.type = midiMidiEvent,
        forwarded ++ (outputEvents (spanAll pre) evs).filter fun _ => hasUi⟩ := by
  induction evs generalizing pre midi forwarded with
  | nil =>
      rw [List.append_nil] at h
      rw [List.length_nil, Loop.run_of_test_false h.isValid_end, outputEvents]
      simp
  | cons ev evs ih =>
      obtain ⟨hvalid, hget, hnext⟩ := h.getEvent
      have hround : (b.traversal midiMidiEvent sysPort hasUi).Round ⟨spanAll pre, midi, forwarded⟩
          ⟨spanAll (pre ++ [ev]),
            if sysPort ∧ ev.type = midiMidiEvent then midi ++ [evbufEvent (spanAll pre) ev]
            else midi,
            if hasUi then forwarded ++ [evbufEvent (spanAll pre) ev] else forwarded⟩ := by
        refine ⟨hvalid, ?_⟩
        simp only [traversal, hget, hnext, Option.bind_eq_bind, Option.bind_some]
        rfl
      have hspan : spanAll (pre ++ [ev]) = spanAll pre + ev.span := by simp
      rw [List.length_cons, Loop.run_of_round hround, ih (by rwa [List.append_cons] at h), hspan,
        outputEvents]
      congr 2
      · rw [← List.append_cons]
      · by_cases hmidi : sysPort ∧ ev.type = midiMidiEvent
        · rw [if_pos hmidi, List.filter_cons, type_evbufEvent, if_pos (decide_eq_true hmidi),
            List.append_assoc]
          rfl
        · rw [if_neg hmidi, List.filter_cons, type_evbufEvent, decide_eq_false hmidi]
          rfl
      · cases hasUi
        · simp
        · simp

/-- The pointers of the events point to them. -/
theorem map_pointed (h : HoldsEvents b.buf (16 + a) evs) (p : Nat → Bool) :
    ((outputEvents a evs).filter fun event => p event.type).map b.pointed =
      (evs.filter fun ev => p ev.type).map fun ev => some (inFrames ev) := by
  induction evs generalizing a with
  | nil => rfl
  | cons ev evs ih =>
      obtain ⟨hev, hevs⟩ := h
      have hrest := ih (a := a + ev.span) (by rwa [Nat.add_assoc] at hevs)
      have hload : b.buf.load (16 + a + 16) ev.body.length = some ev.body :=
        (holds_event_iff.1 hev).2.2.2.load
      have hpointed : b.pointed (evbufEvent a ev) = some (inFrames ev) := by
        simp only [pointed, evbufEvent, Option.bind_eq_bind, Option.bind_some, hload]
        rfl
      rw [outputEvents, List.filter_cons, List.filter_cons, type_evbufEvent]
      split
      · rw [List.map_cons, List.map_cons, hpointed, hrest]
      · exact hrest

end Evbuf

end Soundcan.Galv
