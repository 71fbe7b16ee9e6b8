import Soundcan.Lph.Bridge
import Soundcan.Ui.StartOrder

/-!
# From a slider to the plugin

A handler of the web UI sends a control change to the queue, `pw-midimq` puts what it receives into
a PipeWire buffer, and a cycle of `lv2-pw-host` that dequeues the buffer shows its controls to the
plugin. PipeWire hands the buffers over in the order in which they were queued; the cycles of the
host and the steps of `pw-midimq` come in any order, and a cycle may find no buffer. As long as each
cycle of `pw-midimq` gets a buffer that is large enough, nothing is lost and nothing changes its
place on the way (`conserved_of_run`); but a cycle of the host that finds no buffer shows the plugin
the control changes of the cycle before once more.
-/

namespace Soundcan.Ui

open Lph Lv2

/-- The queue, `pw-midimq`, and a host with one `ATOM_INPUT` port that it is linked to. `dequeued`
counts the buffers that the host has dequeued. -/
structure Chain where
  queue : MessageQueue
  midiMq : MidiMq
  dequeued : Nat
  host : InputState

/-- What can happen: a handler sends, `on_process` of `pw-midimq` makes a step, or the host runs a
cycle, which dequeues a buffer or does not. -/
inductive ChainStep where
  | posixmqSend (r : Request)
  | midiMq (step : MidiMq.Step)
  | cycle (duration : Nat) (denom : ℕ+) (buffer : Option PwBuffer) (block : InputBlock)

section
variable (parseFloat : String → Float) (int : Float → Int) (constants : Constants)

/-- The runs of the chain, from the start of `pw-midimq` on its own queue. -/
def chain : Lts Chain ChainStep where
  init s := s = ⟨.new 10 256, .init, 0, ⟨0, setupAtomInput⟩⟩
  step s a s' :=
    match a with
    | .posixmqSend r => ∃ mididata, r.mididata parseFloat int = some mididata ∧
        s' = { s with queue := s.queue.send mididata }
    | .midiMq step => ∃ midiMq queue, s.midiMq.step s.queue step = some (midiMq, queue) ∧
        s' = { s with midiMq, queue }
    | .cycle duration denom none block => ∃ host,
        onProcessInput constants s.host ⟨duration, denom, none⟩ = some (host, block) ∧
        s' = { s with host }
    | .cycle duration denom (some buffer) block => ∃ host,
        s.midiMq.queued[s.dequeued]? = some buffer ∧
        onProcessInput constants s.host ⟨duration, denom, some buffer.pod⟩ =
          some (host, block) ∧
        s' = { s with host, dequeued := s.dequeued + 1 }

/-- What a step sends. -/
def ChainStep.sends : ChainStep → List (List UInt8)
  | .posixmqSend r => (r.mididata parseFloat int).toList
  | _ => []

end

/-- What a cycle that dequeues a buffer shows the plugin. -/
def ChainStep.shows : ChainStep → List (List UInt8)
  | .cycle _ _ (some _) block => block.events.map AtomEvent.body
  | _ => []

/-- The step of `pw-midimq` on its queue, if it is one. -/
def ChainStep.onQueue : ChainStep → Option MqStep
  | .midiMq step => some (.midiMq step)
  | _ => none

/-- The messages of the cycle of `pw-midimq` that has not ended. -/
def Place.bodies : Place → List (List UInt8)
  | .idle => []
  | .received message => [message]
  | .draining _ builder => (builder.controls.filter fun c => c.type = spaControlMidi).map
      SpaPodControl.body

/-- What is on its way to the plugin: in buffers that are not dequeued, in the cycle of `pw-midimq`,
and in the queue. -/
def Chain.onTheWay (s : Chain) : List (List UInt8) :=
  (s.midiMq.queued.drop s.dequeued).flatMap PwBuffer.midi ++ s.midiMq.place.bodies ++
    s.queue.contents

/-- `pw-midimq` gets a buffer in each of its cycles, large enough for its messages, which are no
more than the plugin's port holds. -/
def Kept (s : Chain) : ChainStep → Prop
  | .midiMq (.dequeue none) => False
  | .midiMq .drain => ∀ maxsize builder, s.midiMq.place = .draining maxsize builder →
      s.queue.receive msgBufferSize = none → builder.offset ≤ maxsize ∧
        builder.controls.length ≤ 340
  | _ => True

/-- The events of the last cycle. -/
def lastEvents (tr : List ChainStep) : List AtomEvent :=
  tr.foldl (fun events a => match a with
    | .cycle _ _ _ block => block.events
    | _ => events) []

/-- A cycle that dequeues no buffer shows the plugin the events of the cycle before. -/
def Again (tr : List ChainStep) : ChainStep → Prop
  | .cycle _ _ none block => block.events = lastEvents tr
  | _ => True

/-! ## The messages -/

section Messages
variable {parseFloat : String → Float} {int : Float → Int}

/-- The status of a control change is not `0xf8`. -/
theorem status_ne : ∀ channel : UInt8, 0xb0 ||| (0x0f &&& channel) ≠ (0xf8 : UInt8) := by
  have hstatus : ∀ channel : Fin 256, 0xb0 ||| (0x0f &&& UInt8.ofNat channel) ≠ (0xf8 : UInt8) := by
    decide +kernel
  intro channel
  have h := hstatus ⟨channel.toNat, channel.toNat_lt⟩
  rwa [UInt8.ofNat_toNat] at h

/-- A message that a host takes: three bytes, of which the first is no timing clock. -/
def Short (message : List UInt8) : Prop := message.length = 3 ∧ message.headD 0 ≠ 0xf8

/-- The page sends messages of up to three bytes. -/
theorem short_of_mem_sends {a : ChainStep} {message : List UInt8}
    (h : message ∈ a.sends parseFloat int) : Short message := by
  cases a with
  | posixmqSend r =>
      have hsome := Option.mem_toList.1 h
      refine ⟨length_mididata hsome, ?_⟩
      obtain ⟨ccvalue, -, rfl⟩ := Option.map_eq_some_iff.1 hsome
      split <;> exact status_ne _
  | midiMq | cycle => cases h

/-- The controls of short messages. -/
theorem spanControls_of_short {messages : List (List UInt8)} (h : ∀ m ∈ messages, Short m) :
    spanControls (messages.map midiControl) = 24 * messages.length := by
  induction messages with
  | nil => rfl
  | cons m messages ih =>
      obtain ⟨hm, hrest⟩ := List.forall_mem_cons.1 h
      have hpad : pad8 (midiControl m).body.length = 8 := congrArg pad8 hm.1
      rw [List.map_cons, spanControls, List.map_cons, List.sum_cons, ← spanControls, ih hrest, hpad,
        List.length_cons]
      omega

/-- Of a buffer with short messages a cycle of the host shows the plugin each. -/
theorem shown_of_short (constants : Constants) (frame : Nat) (denom : ℕ+) {maxsize : Nat}
    {messages : List (List UInt8)} (hfit : podSize messages ≤ maxsize)
    (hshort : ∀ m ∈ messages, Short m) (hcount : messages.length ≤ 340) :
    ((stored 0 (podBuffer maxsize messages).pod.controls).map
      (controlEvent constants frame denom)).map AtomEvent.body = messages := by
  have hspan := spanControls_of_short hshort
  rw [controls_pod_podBuffer hfit, stored_of_room (by omega), List.filter_eq_self.2, List.map_map,
    List.map_map]
  · exact List.map_id _
  · rintro c hc
    obtain ⟨m, hm, rfl⟩ := List.mem_map.1 hc
    exact decide_eq_true ⟨rfl, (hshort m hm).2⟩

end Messages

/-! ## The invariant -/

/-- What the messages of a cycle are. -/
theorem Place.Holds.eq_bodies {place : Place} {bodies : List (List UInt8)}
    (h : place.Holds bodies) : place.bodies = bodies := by
  cases place with
  | idle | received => exact h.symm
  | draining maxsize builder =>
      obtain rfl : builder = Builder.pushSequence.midi bodies := h
      rw [Place.bodies, Builder.midi_eq]
      exact midi_controls bodies

section Invariant
variable {parseFloat : String → Float} {int : Float → Int} {constants : Constants}
  {tr : List ChainStep} {s s' : Chain} {a : ChainStep}

/-- Where the messages are. -/
structure ChainInv (parseFloat : String → Float) (int : Float → Int) (tr : List ChainStep)
    (s : Chain) : Prop where
  msgSize : s.queue.msgSize = 256
  sent : s.midiMq.received ++ s.queue.contents = tr.flatMap (ChainStep.sends parseFloat int)
  accounted : Accounted (tr.filterMap ChainStep.onQueue) s.midiMq
  buffers : .midiMq (.dequeue none) ∉ tr.filterMap ChainStep.onQueue
  queued : ∀ q ∈ s.midiMq.queued, q = podBuffer q.maxsize q.midi ∧ q.midi.length ≤ 340 ∧
    podSize q.midi ≤ q.maxsize
  dequeued : s.dequeued ≤ s.midiMq.queued.length
  shown : (s.midiMq.queued.take s.dequeued).flatMap PwBuffer.midi = tr.flatMap ChainStep.shows
  size : s.host.port.buffer.size = 8192
  events : sequenceEvents s.host.port.buffer = some (lastEvents tr)

/-- At first nothing is on its way. -/
theorem chainInv_init : ChainInv parseFloat int []
    ⟨.new 10 256, .init, 0, ⟨0, setupAtomInput⟩⟩ where
  msgSize := rfl
  sent := rfl
  accounted := ⟨[], rfl, .slnil, rfl⟩
  buffers := by simp
  queued := by simp [MidiMq.init]
  dequeued := le_refl _
  shown := rfl
  size := rfl
  events := by decide

/-- Nothing is lost in `pw-midimq`. -/
theorem ChainInv.delivered (h : ChainInv parseFloat int tr s) :
    s.midiMq.delivered ++ s.midiMq.place.bodies = s.midiMq.received := by
  obtain ⟨bodies, hholds, hsub, hlen⟩ := h.accounted
  rw [countP_loses_eq_zero.2 h.buffers, Nat.add_zero] at hlen
  rw [hholds.eq_bodies]
  refine hsub.eq_of_length ?_
  rw [List.length_append, hlen]

/-- What was sent has been shown or is on its way. -/
theorem ChainInv.conserved (h : ChainInv parseFloat int tr s) :
    tr.flatMap ChainStep.shows ++ s.onTheWay = tr.flatMap (ChainStep.sends parseFloat int) := by
  have hqueued : s.midiMq.delivered = tr.flatMap ChainStep.shows ++
      (s.midiMq.queued.drop s.dequeued).flatMap PwBuffer.midi := by
    rw [← h.shown, ← List.flatMap_append, List.take_append_drop]
    rfl
  rw [← h.sent, ← h.delivered, hqueued, Chain.onTheWay]
  simp only [List.append_assoc]

/-- What is in the buffers are control changes. -/
theorem ChainInv.short (h : ChainInv parseFloat int tr s) {q : PwBuffer}
    (hq : q ∈ s.midiMq.queued) : ∀ m ∈ q.midi, Short m := by
  intro m hm
  have hdelivered : m ∈ s.midiMq.delivered := List.mem_flatMap_of_mem hq hm
  have hreceived : m ∈ s.midiMq.received := by
    rw [← h.delivered]
    exact List.mem_append_left _ hdelivered
  have hsent : m ∈ tr.flatMap (ChainStep.sends parseFloat int) := by
    rw [← h.sent]
    exact List.mem_append_left _ hreceived
  obtain ⟨a, -, ha⟩ := List.mem_flatMap.1 hsent
  exact short_of_mem_sends ha

/-- Other steps are none of the queue's. -/
theorem onQueue_concat (ha : a.onQueue = none) :
    (tr ++ [a]).filterMap ChainStep.onQueue = tr.filterMap ChainStep.onQueue := by
  rw [List.filterMap_append, List.filterMap_cons_none ha, List.filterMap_nil, List.append_nil]

/-- A handler sends. -/
theorem ChainInv.posixmqSend {r : Request} {mididata : List UInt8}
    (h : ChainInv parseFloat int tr s) (hsome : r.mididata parseFloat int = some mididata) :
    ChainInv parseFloat int (tr ++ [.posixmqSend r])
      { s with queue := s.queue.send mididata } := by
  have hlength : mididata.length ≤ s.queue.msgSize := by
    rw [length_mididata hsome, h.msgSize]
    norm_num
  refine ⟨?_, ?_, ?_, ?_, h.queued, h.dequeued, ?_, h.size, ?_⟩
  · rw [MessageQueue.msgSize_send, h.msgSize]
  · rw [MessageQueue.contents_send hlength, ← List.append_assoc, h.sent, List.flatMap_append]
    simp [ChainStep.sends, hsome]
  · rw [onQueue_concat rfl]
    exact h.accounted
  · rw [onQueue_concat rfl]
    exact h.buffers
  · rw [List.flatMap_append, ← h.shown]
    simp [ChainStep.shows]
  · rw [h.events, lastEvents, lastEvents, List.foldl_append]
    rfl

/-- What a step of `pw-midimq` needs of the buffers. -/
theorem Kept.fitsMaxsize {step : MidiMq.Step} (hkept : Kept s (.midiMq step)) :
    FitsMaxsize (s.midiMq, s.queue) (.midiMq step) := by
  cases step with
  | process | dequeue => trivial
  | drain => exact fun maxsize builder hplace hnone => (hkept maxsize builder hplace hnone).1

/-- What a step of `pw-midimq` adds to the buffers. -/
theorem queued_step {m m' : MidiMq} {queue queue' : MessageQueue} {step : MidiMq.Step}
    (h : m.step queue step = some (m', queue')) :
    m'.queued = m.queued ∨ ∃ maxsize builder, step = .drain ∧
      m.place = .draining maxsize builder ∧ queue.receive msgBufferSize = none ∧
      m'.queued = m.queued ++ [⟨maxsize, builder.controls, builder.offset⟩] := by
  cases step with
  | process =>
      simp only [MidiMq.step] at h
      split at h
      · split at h <;> obtain ⟨rfl, -⟩ := Prod.mk.inj (Option.some.inj h) <;> exact .inl rfl
      · cases h
  | dequeue maxsize =>
      simp only [MidiMq.step] at h
      split at h
      · obtain ⟨rfl, -⟩ := Prod.mk.inj (Option.some.inj h)
        exact .inl rfl
      · obtain ⟨rfl, -⟩ := Prod.mk.inj (Option.some.inj h)
        exact .inl rfl
      · cases h
  | drain =>
      simp only [MidiMq.step] at h
      split at h
      next maxsize builder hplace =>
        split at h
        · obtain ⟨rfl, -⟩ := Prod.mk.inj (Option.some.inj h)
          exact .inl rfl
        next hnone =>
          obtain ⟨rfl, -⟩ := Prod.mk.inj (Option.some.inj h)
          exact .inr ⟨maxsize, builder, rfl, hplace, hnone, rfl⟩
      next => cases h

/-- A buffer that is handed over holds the messages of its cycle. -/
theorem ChainInv.queued_drain (h : ChainInv parseFloat int tr s) (hkept : Kept s (.midiMq .drain))
    {maxsize : Nat} {builder : Builder} (hplace : s.midiMq.place = .draining maxsize builder)
    (hnone : s.queue.receive msgBufferSize = none) :
    let q : PwBuffer := ⟨maxsize, builder.controls, builder.offset⟩
    q = podBuffer q.maxsize q.midi ∧ q.midi.length ≤ 340 ∧ podSize q.midi ≤ q.maxsize := by
  obtain ⟨bodies, hholds, -, -⟩ := h.accounted
  rw [hplace] at hholds
  obtain rfl : builder = Builder.pushSequence.midi bodies := hholds
  obtain ⟨hfit, hcount⟩ := hkept maxsize _ hplace hnone
  have hsize : podSize bodies ≤ maxsize := by rwa [Builder.midi_eq] at hfit
  have hmidi : PwBuffer.midi ⟨maxsize, (Builder.pushSequence.midi bodies).controls,
      (Builder.pushSequence.midi bodies).offset⟩ = bodies := by
    rw [midi_pushSequence, if_pos hsize]
  intro q
  rw [show q.midi = bodies from hmidi]
  rw [Builder.midi_eq] at hcount
  exact ⟨rfl, by simpa [Builder.pushSequence] using hcount, hsize⟩

/-- `pw-midimq` makes a step. -/
theorem ChainInv.midiMq {step : MidiMq.Step} {midiMq : MidiMq} {queue : MessageQueue}
    (h : ChainInv parseFloat int tr s) (hkept : Kept s (.midiMq step))
    (hstep : s.midiMq.step s.queue step = some (midiMq, queue)) :
    ChainInv parseFloat int (tr ++ [.midiMq step]) { s with midiMq, queue } := by
  have hreceives : midiMq.received ++ queue.contents = s.midiMq.received ++ s.queue.contents ∧
      queue.msgSize = s.queue.msgSize := by
    rcases Desk.receives_step hstep with ⟨rfl, hreceived⟩ | ⟨message, hreceive, hreceived⟩
    · exact ⟨by rw [hreceived], rfl⟩
    · refine ⟨?_, MessageQueue.msgSize_receive hreceive⟩
      rw [hreceived, MessageQueue.contents_receive hreceive, List.append_assoc]
      rfl
  have haccounted :
      Accounted ((tr ++ [ChainStep.midiMq step]).filterMap ChainStep.onQueue) midiMq := by
    rw [List.filterMap_append]
    cases step with
    | process => exact h.accounted.process hstep
    | dequeue maxsize => exact h.accounted.dequeue hstep
    | drain => exact h.accounted.drain hkept.fitsMaxsize hstep
  refine ⟨?_, ?_, haccounted, ?_, ?_, ?_, ?_, h.size, ?_⟩
  · exact hreceives.2.trans h.msgSize
  · rw [hreceives.1, h.sent, List.flatMap_append]
    simp [ChainStep.sends]
  · rw [List.filterMap_append, List.mem_append, not_or]
    refine ⟨h.buffers, fun hmem => ?_⟩
    obtain rfl : step = .dequeue none := by simpa [ChainStep.onQueue, eq_comm] using hmem
    exact hkept
  · rcases queued_step hstep with heq | ⟨maxsize, builder, rfl, hplace, hnone, heq⟩
    · exact fun q hq => h.queued q (heq ▸ hq)
    · intro q hq
      rcases List.mem_append.1 (heq ▸ hq) with hq | hq
      · exact h.queued q hq
      · rw [List.mem_singleton.1 hq]
        exact h.queued_drain hkept hplace hnone
  · rcases queued_step hstep with heq | ⟨_, _, -, -, -, heq⟩
    · exact h.dequeued.trans_eq (congrArg List.length heq.symm)
    · have hle := h.dequeued
      simp only [heq, List.length_append]
      omega
  · have htake : midiMq.queued.take s.dequeued = s.midiMq.queued.take s.dequeued := by
      rcases queued_step hstep with heq | ⟨_, _, -, -, -, heq⟩
      · rw [heq]
      · rw [heq, List.take_append_of_le_length h.dequeued]
    rw [List.flatMap_append, ← h.shown]
    simp [ChainStep.shows, htake]
  · rw [h.events, lastEvents, lastEvents, List.foldl_append]
    rfl

/-- A cycle of the host that dequeues no buffer. -/
theorem ChainInv.cycle_none {duration : Nat} {denom : ℕ+} {block : InputBlock} {host : InputState}
    (h : ChainInv parseFloat int tr s)
    (hstep : onProcessInput constants s.host ⟨duration, denom, none⟩ = some (host, block)) :
    ChainInv parseFloat int (tr ++ [.cycle duration denom none block]) { s with host } ∧
      block.events = lastEvents tr := by
  obtain ⟨rfl, rfl⟩ := Prod.mk.inj (Option.some.inj
    ((onProcessInput_none constants s.host duration denom h.events).symm.trans hstep))
  refine ⟨⟨h.msgSize, ?_, ?_, ?_, h.queued, h.dequeued, ?_, h.size, ?_⟩, rfl⟩
  · rw [h.sent, List.flatMap_append]
    simp [ChainStep.sends]
  · rw [onQueue_concat rfl]
    exact h.accounted
  · rw [onQueue_concat rfl]
    exact h.buffers
  · rw [List.flatMap_append, ← h.shown]
    simp [ChainStep.shows]
  · rw [lastEvents, List.foldl_append]
    exact h.events

/-- A cycle of the host that dequeues a buffer. -/
theorem ChainInv.cycle_some {duration : Nat} {denom : ℕ+} {buffer : PwBuffer} {block : InputBlock}
    {host : InputState} (h : ChainInv parseFloat int tr s)
    (hbuffer : s.midiMq.queued[s.dequeued]? = some buffer)
    (hstep : onProcessInput constants s.host ⟨duration, denom, some buffer.pod⟩ =
      some (host, block)) :
    ChainInv parseFloat int (tr ++ [.cycle duration denom (some buffer) block])
      { s with host, dequeued := s.dequeued + 1 } := by
  obtain ⟨hlt, rfl⟩ := List.getElem?_eq_some_iff.1 hbuffer
  have hmem : s.midiMq.queued[s.dequeued] ∈ s.midiMq.queued := List.getElem_mem hlt
  generalize hq : s.midiMq.queued[s.dequeued] = q at hmem hstep
  obtain ⟨hpod, hcount, hfit⟩ := h.queued q hmem
  obtain ⟨port, hcycle, hevents, hsize⟩ :=
    onProcessInput_some constants s.host duration denom q.pod h.size
  obtain ⟨rfl, rfl⟩ := Prod.mk.inj (Option.some.inj (hcycle.symm.trans hstep))
  have hshown : ((stored 0 q.pod.controls).map (controlEvent constants s.host.clockTime denom)).map
      AtomEvent.body = q.midi := by
    rw [hpod]
    have hmidi : (podBuffer q.maxsize q.midi).midi = q.midi := by rw [← hpod]
    rw [hmidi]
    exact shown_of_short constants _ denom hfit (h.short hmem) hcount
  refine ⟨h.msgSize, ?_, ?_, ?_, h.queued, hlt, ?_, hsize, ?_⟩
  · rw [h.sent, List.flatMap_append]
    simp [ChainStep.sends]
  · rw [onQueue_concat rfl]
    exact h.accounted
  · rw [onQueue_concat rfl]
    exact h.buffers
  · simp only [List.take_succ_eq_append_getElem hlt, List.flatMap_append, h.shown]
    simp [ChainStep.shows, hq, hshown]
  · rw [lastEvents, List.foldl_append]
    exact hevents

/-- From the sliders to the plugin: in every run in which `pw-midimq` gets its buffers, what the
plugin has been shown by the cycles that dequeued a buffer, followed by what is on its way, is what
the handlers have sent, each control change once and in the order of the sends; and every other
cycle shows the plugin the control changes of the cycle before again. -/
theorem conserved_of_run (h : ((chain parseFloat int constants).guard Kept).Run tr s) :
    tr.flatMap ChainStep.shows ++ s.onTheWay = tr.flatMap (ChainStep.sends parseFloat int) ∧
      Lts.EachStep Again tr := by
  have hinv : ChainInv parseFloat int tr s ∧ Lts.EachStep Again tr := by
    refine h.guard_invariant
      (I := fun tr s => ChainInv parseFloat int tr s ∧ Lts.EachStep Again tr) ?_ ?_
    · rintro s rfl
      exact ⟨chainInv_init, Lts.eachStep_nil⟩
    · rintro tr s a s' ⟨hinv, heach⟩ hkept hstep
      rw [Lts.eachStep_concat]
      cases a with
      | posixmqSend r =>
          obtain ⟨mididata, hsome, rfl⟩ := hstep
          exact ⟨hinv.posixmqSend hsome, heach, trivial⟩
      | midiMq step =>
          obtain ⟨midiMq, queue, hstep, rfl⟩ := hstep
          exact ⟨hinv.midiMq hkept hstep, heach, trivial⟩
      | cycle duration denom buffer block =>
          cases buffer with
          | none =>
              obtain ⟨host, hstep, rfl⟩ := hstep
              obtain ⟨hinv', hagain⟩ := hinv.cycle_none hstep
              exact ⟨hinv', heach, hagain⟩
          | some buffer =>
              obtain ⟨host, hbuffer, hstep, rfl⟩ := hstep
              exact ⟨hinv.cycle_some hbuffer hstep, heach, trivial⟩
  exact ⟨hinv.1.conserved, hinv.2⟩

end Invariant

/-- A volume goes through `pw-midimq` into a buffer of 8192 bytes. -/
def volumeQueued : List ChainStep :=
  [.posixmqSend volume, .midiMq .process, .midiMq (.dequeue (some 8192)), .midiMq .drain]

/-- It is shown by the cycle that dequeues the buffer, and by the next one again. -/
theorem volume_shown_twice :
    let constants : Constants := ⟨1, 2, by decide, by decide⟩
    ∃ tr s first again,
      ((chain (fun _ => 100) (fun _ => 100) constants).guard Kept).Run
        (tr ++ [.cycle 256 48000 none again]) s ∧
      tr = volumeQueued ++ [.cycle 256 48000 (some (podBuffer 8192 [[0xb0, 7, 100]])) first] ∧
      first.events.map AtomEvent.body = [[0xb0, 7, 100]] ∧ again.events = first.events := by
  intro constants
  let M := (chain (fun _ => 100) (fun _ => 100) constants).guard Kept
  let message : List UInt8 := [0xb0, 7, 100]
  let builder := Builder.pushSequence.midi [message]
  let host : InputState := ⟨0, setupAtomInput⟩
  have hsent : M.Run [.posixmqSend volume] ⟨⟨10, 256, [message], []⟩, .init, 0, host⟩ :=
    Lts.Run.step (.init rfl) ⟨trivial, message, rfl, rfl⟩
  have hreceived : M.Run [.posixmqSend volume, .midiMq .process]
      ⟨.new 10 256, ⟨.received message, [message], []⟩, 0, host⟩ :=
    hsent.step ⟨trivial, _, _, rfl, rfl⟩
  have hbuffer : M.Run [.posixmqSend volume, .midiMq .process, .midiMq (.dequeue (some 8192))]
      ⟨.new 10 256, ⟨.draining 8192 builder, [message], []⟩, 0, host⟩ :=
    hreceived.step ⟨trivial, _, _, rfl, rfl⟩
  have hkept : Kept ⟨.new 10 256, ⟨.draining 8192 builder, [message], []⟩, 0, host⟩
      (.midiMq .drain) := by
    intro maxsize builder' hplace _
    obtain ⟨rfl, rfl⟩ := Place.draining.inj hplace
    decide
  have hqueued : M.Run volumeQueued
      ⟨.new 10 256, ⟨.idle, [message], [podBuffer 8192 [message]]⟩, 0, host⟩ :=
    hbuffer.step ⟨hkept, _, _, rfl, rfl⟩
  obtain ⟨port, hcycle, hevents, hsize⟩ :=
    onProcessInput_some constants host 256 48000 (podBuffer 8192 [message]).pod rfl
  let events := (stored 0 (podBuffer 8192 [message]).pod.controls).map
    (controlEvent constants 0 48000)
  let midiMq : MidiMq := ⟨.idle, [message], [podBuffer 8192 [message]]⟩
  have hdequeued : M.Run (volumeQueued ++
      [.cycle 256 48000 (some (podBuffer 8192 [message])) ⟨0, events⟩])
      ⟨.new 10 256, midiMq, 1, ⟨256, port⟩⟩ :=
    hqueued.step ⟨trivial, _, rfl, hcycle, rfl⟩
  have hagain : M.Run (volumeQueued ++
      [.cycle 256 48000 (some (podBuffer 8192 [message])) ⟨0, events⟩] ++
      [.cycle 256 48000 none ⟨256, events⟩])
      ⟨.new 10 256, midiMq, 1, ⟨512, { port with pwbuffer := none }⟩⟩ :=
    hdequeued.step ⟨trivial, _, onProcessInput_none constants ⟨256, port⟩ 256 48000 hevents, rfl⟩
  refine ⟨_, _, _, _, hagain, rfl, ?_, ?_⟩
  · have hshown := (conserved_of_run hdequeued).1
    have hsends : (volumeQueued ++ [ChainStep.cycle 256 48000 (some (podBuffer 8192 [message]))
        ⟨0, events⟩]).flatMap (ChainStep.sends (fun _ => 100) fun _ => 100) = [message] := rfl
    rw [hsends] at hshown
    simpa [volumeQueued, ChainStep.shows, Chain.onTheWay, Place.bodies, MessageQueue.contents,
      MessageQueue.new, midiMq] using hshown
  · exact (conserved_of_run hagain).2 _ _ [] rfl

end Soundcan.Ui
