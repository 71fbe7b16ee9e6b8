import Soundcan.Galv.JackMidi
import Soundcan.Setbfree.Converge

/-!
# setbfreecontrol in jalv

`process_cb` resets the event output to a chunk of the capacity of its buffer, runs the plugin, and
gives JACK the events of the sequence that it finds. The plugin makes the buffer a sequence only
when it has messages, and takes the capacity from it; a buffer that is still a chunk has no events.
So in each cycle JACK gets the messages that the plugin on its own would have sent
(`processCb_eq`), and the receiver of the MIDI port converges to the control ports.
-/

namespace Soundcan.Setbfree

open Bytes Lv2 Galv

/-- The plugin, with its cached values, and the buffer of its event output. -/
structure InJalv where
  lastValue : Nat → ℚ
  out : Evbuf

/-- `process_cb` with the plugin, as far as it concerns the event output, which is a port of the
system. `port_events_in` has been reset to a sequence. The events are those that JACK finds at the
pointers it is given. -/
def processCb (midiMidiEvent : Nat) (hasUi : Bool) (fuel : Nat) (s : InJalv) (ports : Ports) :
    Option (InJalv × RunOutput) := do
  let out ← s.out.reset false
  let synced := sync ports.value controlPorts s.lastValue []
  let buf ← send midiMidiEvent out.atomSequence out.buf synced.messages
  let out := { out with buf }
  let last ← (out.traversal midiMidiEvent true hasUi).run fuel .begin
  let events ← last.midi.mapM out.pointed
  some (⟨synced.lastValue, out⟩, ⟨events, synced.sentConfiguration⟩)

/-- The cycles of a fresh instance, in a host whose output buffer is `out`. -/
def inJalv (midiMidiEvent : Nat) (hasUi : Bool) (out : Evbuf) : Lts InJalv (Ports × RunOutput) where
  init s := s = ⟨instantiate, out⟩
  step s label s' := ∃ fuel, processCb midiMidiEvent hasUi fuel s label.1 = some (s', label.2)

/-- A buffer with room for 42 three-byte events. -/
structure Roomy (out : Evbuf) : Prop where
  allocated : out.Allocated
  room : 8 + 42 * 24 ≤ out.capacity
  chunk_lt : out.atomChunk < 2 ^ 32
  chunk_ne : out.atomChunk ≠ out.atomSequence

/-! ## One cycle -/

section Cycle
variable {out : Evbuf}

/-- The output as the plugin finds it. -/
def chunkBuf (out : Evbuf) : Block :=
  (out.buf.put 0 (leBytes 4 out.capacity)).put 4 (leBytes 4 out.atomChunk)

/-- A buffer with room is reset to a chunk. -/
theorem Roomy.reset (h : Roomy out) : out.reset false = some { out with buf := chunkBuf out } := by
  have hsize := h.allocated.size_buf
  simp only [Evbuf.reset, Option.bind_eq_bind]
  rw [Block.storeWord_eq (by omega), Option.bind_some,
    Block.storeWord_eq (by simp only [Block.size_put]; omega)]
  rfl

/-- It has room for what the plugin sends. -/
def Roomy.outBuffer (h : Roomy out) : OutBuffer where
  block := chunkBuf out
  capacity := out.capacity
  size := by
    have hsize := h.allocated.size_buf
    have hcapacity := h.allocated.capacity_le
    rw [chunkBuf, Block.loadWord_put (by simp),
      Block.loadWord_put_self (by omega) (by norm_num; omega)]
  bound := by
    have hsize := h.allocated.size_buf
    simp only [chunkBuf, Block.size_put]
    omega
  small := by
    have hsize := h.allocated.size_buf
    have hcapacity := h.allocated.capacity_le
    simp only [chunkBuf, Block.size_put]
    omega
  room := h.room

/-- The loop finds no event in a chunk. -/
theorem Roomy.run_chunk (h : Roomy out) (midiMidiEvent : Nat) (hasUi : Bool) :
    (Evbuf.traversal { out with buf := chunkBuf out } midiMidiEvent true hasUi).run 1 .begin =
      some .begin := by
  have hsize := h.allocated.size_buf
  have htype : (chunkBuf out).loadWord 4 4 = some out.atomChunk :=
    Block.loadWord_put_self (by simp only [Block.size_put]; omega) (by simpa using h.chunk_lt)
  have hword : (chunkBuf out).loadWord 4 0 = some out.capacity := h.outBuffer.size
  refine Loop.run_of_test_false ?_ 0
  show Evbuf.isValid { out with buf := chunkBuf out } 0 = some false
  rw [Evbuf.isValid, Evbuf.getSize, htype, hword]
  simp [h.chunk_ne]

/-- An output that the plugin has written keeps its room. -/
theorem Roomy.put (h : Roomy out) {b : Block} (hsize : b.size = out.buf.size) :
    Roomy { out with buf := b } where
  allocated := ⟨hsize.trans h.allocated.size_buf, h.allocated.capacity_le,
    h.allocated.atomSequence_lt⟩
  room := h.room
  chunk_lt := h.chunk_lt
  chunk_ne := h.chunk_ne

/-- With messages the plugin leaves their sequence. -/
theorem Roomy.hasEvents_send (h : Roomy out) {midiMidiEvent : Nat} (hmidi : midiMidiEvent < 2 ^ 32)
    {messages : List (List UInt8)} (hne : messages ≠ []) (hcount : messages.length ≤ 42)
    (hlen : ∀ message ∈ messages, message.length ≤ 3) :
    ∃ b, send midiMidiEvent out.atomSequence (chunkBuf out) messages = some b ∧
      Evbuf.HasEvents { out with buf := b } (messages.map (midiEvent midiMidiEvent)) := by
  have hsequence := h.allocated.atomSequence_lt
  obtain ⟨b, hsend, hsize, hseq, htype, -⟩ :=
    send_spec hmidi hsequence h.outBuffer hne hcount hlen
  have hbound := hseq.bound
  have hsmall := hseq.small
  exact ⟨b, hsend, (h.put hsize).allocated, hseq.size, htype, hseq.events, hseq.fits, by omega⟩

/-- A list whose elements are all found. -/
theorem mapM_eq_some {α β : Type} {f : α → Option β} {xs : List α} {ys : List β}
    (h : xs.map f = ys.map some) : xs.mapM f = some ys := by
  induction xs generalizing ys with
  | nil =>
      obtain rfl := List.map_eq_nil_iff.1 h.symm
      rfl
  | cons x xs ih =>
      obtain ⟨y, ys, rfl, hy, hys⟩ := List.map_eq_cons_iff.1 h.symm
      rw [List.mapM_cons, ← hy, ih hys.symm]
      rfl

/-- The loop gives JACK the messages that the plugin sends, none included. -/
theorem Roomy.exists_run_traversal (h : Roomy out) {midiMidiEvent : Nat}
    (hmidi : midiMidiEvent < 2 ^ 32) (hasUi : Bool) {messages : List (List UInt8)}
    (hcount : messages.length ≤ 42) (hlen : ∀ message ∈ messages, message.length ≤ 3) :
    ∃ b fuel last, send midiMidiEvent out.atomSequence (chunkBuf out) messages = some b ∧
      Roomy { out with buf := b } ∧
      (Evbuf.traversal { out with buf := b } midiMidiEvent true hasUi).run fuel .begin =
        some last ∧
      last.midi.mapM (Evbuf.pointed { out with buf := b }) =
        some (messages.map (midiEvent midiMidiEvent)) := by
  by_cases hne : messages = []
  · subst hne
    exact ⟨chunkBuf out, 1, .begin, rfl, h.put rfl, h.run_chunk midiMidiEvent hasUi, rfl⟩
  · obtain ⟨b, hsend, hevents⟩ := h.hasEvents_send hmidi hne hcount hlen
    have hsize : b.size = out.buf.size :=
      hevents.allocated.size_buf.trans h.allocated.size_buf.symm
    have hbegin : Evbuf.HasEvents _ ([] ++ _) := hevents
    have hrun := hbegin.run_traversal midiMidiEvent true hasUi [] []
    refine ⟨b, _, _, hsend, h.put hsize, hrun, mapM_eq_some ?_⟩
    have hpointed := Evbuf.map_pointed (b := { out with buf := b }) (a := 0) hevents.events
      fun type => decide (true ∧ type = midiMidiEvent)
    refine hpointed.trans ?_
    have hmessages : (messages.map (midiEvent midiMidiEvent)).filter
        (fun ev => decide (true ∧ ev.type = midiMidiEvent)) =
          messages.map (midiEvent midiMidiEvent) := by
      rw [List.filter_eq_self]
      rintro ev hev
      obtain ⟨message, -, rfl⟩ := List.mem_map.1 hev
      exact decide_eq_true ⟨rfl, rfl⟩
    rw [hmessages, List.map_map, List.map_map]
    rfl

end Cycle

/-! ## What a cycle does -/

section Cycles
variable {midiMidiEvent : Nat} {hasUi : Bool}

/-- The cycle, in closed form: the events are those of `run_eq`. -/
theorem exists_processCb {s : InJalv} (h : Roomy s.out) (hmidi : midiMidiEvent < 2 ^ 32)
    (hasUi : Bool) (ports : Ports) :
    ∃ fuel b, Roomy { s.out with buf := b } ∧
      processCb midiMidiEvent hasUi fuel s ports =
        some (⟨(sync ports.value controlPorts s.lastValue []).lastValue, { s.out with buf := b }⟩,
          ⟨(sync ports.value controlPorts s.lastValue []).messages.map (midiEvent midiMidiEvent),
            (sync ports.value controlPorts s.lastValue []).sentConfiguration⟩) := by
  obtain ⟨senders, hcount, -, hmessages⟩ := messages_eq ports.value s.lastValue
  have hlen : ∀ message ∈ (sync ports.value controlPorts s.lastValue []).messages,
      message.length ≤ 3 := by
    intro message hmem
    rw [hmessages] at hmem
    obtain ⟨port, -, hmem⟩ := List.mem_flatMap.1 hmem
    exact (length_writeMidiSignal_le _ port).2 message hmem
  have hle : (sync ports.value controlPorts s.lastValue []).messages.length ≤ 42 := by
    rw [hmessages]
    exact (length_flatMap_le _ _).trans hcount
  obtain ⟨b, fuel, last, hsend, hroomy, hrun, hpointed⟩ :=
    h.exists_run_traversal hmidi hasUi hle hlen
  refine ⟨fuel, b, hroomy, ?_⟩
  simp only [processCb, h.reset, Option.bind_eq_bind, Option.bind_some, hsend, hrun, hpointed]

/-- The fuel of a cycle that ends does not matter. -/
theorem processCb_unique {fuel fuel' : Nat} {s : InJalv} {ports : Ports} {r r' : InJalv × RunOutput}
    (h : processCb midiMidiEvent hasUi fuel s ports = some r)
    (h' : processCb midiMidiEvent hasUi fuel' s ports = some r') : r = r' := by
  obtain ⟨out, hreset, h⟩ := Option.bind_eq_some_iff.1 h
  obtain ⟨b, hsend, h⟩ := Option.bind_eq_some_iff.1 h
  obtain ⟨last, hrun, h⟩ := Option.bind_eq_some_iff.1 h
  obtain ⟨out', hreset', h'⟩ := Option.bind_eq_some_iff.1 h'
  obtain rfl := Option.some.inj (hreset.symm.trans hreset')
  obtain ⟨b', hsend', h'⟩ := Option.bind_eq_some_iff.1 h'
  obtain rfl := Option.some.inj (hsend.symm.trans hsend')
  obtain ⟨last', hrun', h'⟩ := Option.bind_eq_some_iff.1 h'
  obtain rfl := Loop.run_unique hrun hrun'
  exact Option.some.inj (h.symm.trans h')

/-- A step of the plugin in jalv is one of the plugin alone, whatever buffer that has. -/
theorem step_inJalv {out : Evbuf} {s s' : InJalv} {label : Ports × RunOutput}
    (h : Roomy s.out) (hmidi : midiMidiEvent < 2 ^ 32)
    (hstep : (inJalv midiMidiEvent hasUi out).step s label s') (inType : Nat)
    (buffer : OutBuffer) :
    Roomy s'.out ∧ (runs midiMidiEvent inType).step s.lastValue
      (⟨label.1, buffer⟩, label.2) s'.lastValue := by
  obtain ⟨fuel, hcycle⟩ := hstep
  obtain ⟨fuel', b, hroomy, hcycle'⟩ := exists_processCb h hmidi hasUi label.1
  have heq := processCb_unique hcycle hcycle'
  obtain ⟨rfl, hout⟩ := Prod.mk.inj heq
  refine ⟨hroomy, ?_⟩
  show run midiMidiEvent inType s.lastValue ⟨label.1, buffer⟩ = some (_, label.2)
  rw [run_eq hmidi, hout]

/-! ## Runs -/

/-- The messages that JACK has got over the cycles of a trace. -/
def jackMessages (tr : List (Ports × RunOutput)) : List (List UInt8) :=
  tr.flatMap fun label => label.2.events.map AtomEvent.body

/-- The labels of the plugin alone. -/
def alone (buffer : OutBuffer) (tr : List (Ports × RunOutput)) : List (RunInput × RunOutput) :=
  tr.map fun label => (⟨label.1, buffer⟩, label.2)

/-- The messages of the plugin are those that the cycles carry. -/
theorem sentMessages_alone (buffer : OutBuffer) (tr : List (Ports × RunOutput)) :
    sentMessages (alone buffer tr) = jackMessages tr := by
  rw [sentMessages, alone, List.flatMap_map]
  rfl

/-- In jalv the plugin runs as on its own: each of its runs there is one of it alone, whose outputs
are what JACK gets. -/
theorem run_alone {out : Evbuf} (hout : Roomy out) (hmidi : midiMidiEvent < 2 ^ 32) (inType : Nat)
    (buffer : OutBuffer) {tr : List (Ports × RunOutput)} {s : InJalv}
    (h : (inJalv midiMidiEvent hasUi out).Run tr s) :
    Roomy s.out ∧ (runs midiMidiEvent inType).Run (alone buffer tr) s.lastValue := by
  refine h.invariant
    (I := fun tr s => Roomy s.out ∧ (runs midiMidiEvent inType).Run (alone buffer tr) s.lastValue)
    ?_ ?_
  · rintro s rfl
    exact ⟨hout, .init rfl⟩
  · rintro tr s label s' - ⟨hs, hrun⟩ hstep
    obtain ⟨hs', hstep'⟩ := step_inJalv hs hmidi hstep inType buffer
    have heq : alone buffer (tr ++ [label]) = alone buffer tr ++ [(⟨label.1, buffer⟩, label.2)] :=
      List.map_append
    rw [heq]
    exact ⟨hs', hrun.step hstep'⟩

/-- Every list of port values has its cycles. -/
theorem exists_run {out : Evbuf} (hout : Roomy out) (hmidi : midiMidiEvent < 2 ^ 32)
    (hasUi : Bool) (inputs : List Ports) :
    ∃ tr s, (inJalv midiMidiEvent hasUi out).Run tr s ∧ tr.map Prod.fst = inputs := by
  induction inputs using List.reverseRecOn with
  | nil => exact ⟨[], _, .init rfl, rfl⟩
  | append_singleton inputs ports ih =>
      obtain ⟨tr, s, hrun, hmap⟩ := ih
      obtain ⟨hs, -⟩ := run_alone hout hmidi 0 outBuffer4096 hrun
      obtain ⟨fuel, b, -, hcycle⟩ := exists_processCb hs hmidi hasUi ports
      refine ⟨tr ++ [(ports, _)], _, hrun.step ⟨fuel, hcycle⟩, ?_⟩
      rw [List.map_append, hmap]
      rfl

/-- With setbfreecontrol in jalv every list of port values has its cycles, and behind each cycle in
which the plugin did not send its configuration, the last control change that the MIDI port of JACK
has got for each setting has the conversion of its port. -/
theorem jack_converges {out : Evbuf} (hout : Roomy out) (hmidi : midiMidiEvent < 2 ^ 32)
    (hasUi : Bool) :
    (∀ inputs, ∃ tr s, (inJalv midiMidiEvent hasUi out).Run tr s ∧ tr.map Prod.fst = inputs) ∧
    ∀ tr s, (inJalv midiMidiEvent hasUi out).Run tr s →
      Lts.EachStep (fun before label => label.2.sentConfiguration = false →
        Converged label.1.value (received (jackMessages (before ++ [label])))) tr := by
  refine ⟨exists_run hout hmidi hasUi, fun tr s hrun => ?_⟩
  refine (hrun.invariant (I := fun tr s =>
    Synchronised s.lastValue (received (jackMessages tr)) ∧ Lts.EachStep _ tr) ?_ ?_).2
  · rintro s rfl
    refine ⟨fun port hport => .inl (if_neg ?_), Lts.eachStep_nil⟩
    rw [mem_settingPorts] at hport
    change ¬port < 7
    omega
  · rintro tr s label s' hrun ⟨hsync, heach⟩ hstep
    obtain ⟨hs, -⟩ := run_alone hout hmidi 0 outBuffer4096 hrun
    obtain ⟨-, hstep'⟩ := step_inJalv hs hmidi hstep 0 outBuffer4096
    rw [← sentMessages_alone outBuffer4096] at hsync
    have hmessages :
        sentMessages (alone outBuffer4096 tr ++ [(⟨label.1, outBuffer4096⟩, label.2)]) =
          jackMessages (tr ++ [label]) := by
      rw [← sentMessages_alone outBuffer4096, alone, alone, List.map_append]
      rfl
    have hboth := run_synchronised hmidi hsync hstep'
    rw [hmessages] at hboth
    exact ⟨hboth.1, Lts.eachStep_concat.2 ⟨heach, hboth.2⟩⟩

end Cycles

/-- A buffer of 4096 bytes has the room. -/
theorem roomy_new : Roomy (Evbuf.new 4096 1 2) :=
  ⟨Evbuf.allocated_new (by norm_num) (by norm_num), by norm_num [Evbuf.new],
    by norm_num [Evbuf.new], by norm_num [Evbuf.new]⟩

/-- A cycle that sends the configuration, and one that resets the port. -/
theorem jack_converges_send : ∃ tr s, (inJalv 7 true (Evbuf.new 4096 1 2)).Run tr s ∧
    tr.map Prod.fst = [sendPorts true, sendPorts false] ∧
    Lts.EachStep (fun before label => label.2.sentConfiguration = false →
      Converged label.1.value (received (jackMessages (before ++ [label])))) tr := by
  have hmidi : 7 < 2 ^ 32 := by norm_num
  obtain ⟨hruns, hconverge⟩ := jack_converges roomy_new hmidi true
  obtain ⟨tr, s, hrun, hmap⟩ := hruns [sendPorts true, sendPorts false]
  exact ⟨tr, s, hrun, hmap, hconverge tr s hrun⟩

end Soundcan.Setbfree
