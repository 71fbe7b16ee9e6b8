import Soundcan.Lib.MessageQueue
import Soundcan.Lib.Transition
import Soundcan.Lph.AtomOutput

/-!
# From the message queue to PipeWire

`on_process` of `pw_midimq.c`: receive a message; if there is one, obtain a buffer; put the message
and all that can still be received into it as MIDI controls, and hand it to PipeWire. Messages may
arrive between any two receives. The message that shows that there is work is out of the queue
before the buffer is obtained, so a cycle without a buffer loses it; this is the only loss
(`nothingLost_iff_buffers`).
-/

namespace Soundcan.Ui

open Lph

/-- `MSG_BUFFER_SIZE`: `MAX_MSG_SIZE + 10`. -/
abbrev msgBufferSize : Nat := 256 + 10

/-- Where `on_process` is: not called, behind its first `mq_receive`, or in the loop with the
buffer that it has obtained and the pod that it builds in it. -/
inductive Place where
  | idle
  | received (message : List UInt8)
  | draining (maxsize : Nat) (builder : Builder)

/-- The process `pw-midimq`. `received` and `queued` are history: the messages that `mq_receive` has
removed from the queue, and the buffers handed to `pw_filter_queue_buffer`. -/
structure MidiMq where
  place : Place
  received : List (List UInt8)
  queued : List PwBuffer

namespace MidiMq

def init : MidiMq := ⟨.idle, [], []⟩

/-- The steps of `on_process`. -/
inductive Step where
  | process
  | dequeue (maxsize : Option Nat)
  | drain

/-- The control that is added for a message. -/
def control (builder : Builder) (message : List UInt8) : Builder :=
  builder.control 0 spaControlMidi message

/-- One step of `on_process`, on the queue. `mq_receive` fails alike when the queue is empty and
when the buffer is smaller than its messages may be. -/
def step (s : MidiMq) (queue : MessageQueue) : Step → Option (MidiMq × MessageQueue)
  | .process =>
    match s.place with
    | .idle =>
      match queue.receive msgBufferSize with
      | some (message, queue) =>
        some ({ s with place := .received message, received := s.received ++ [message] }, queue)
      | none => some (s, queue)
    | _ => none
  | .dequeue maxsize =>
    match s.place, maxsize with
    | .received message, some maxsize =>
      some ({ s with place := .draining maxsize (control Builder.pushSequence message) }, queue)
    | .received _, none => some ({ s with place := .idle }, queue)
    | _, _ => none
  | .drain =>
    match s.place with
    | .draining maxsize builder =>
      match queue.receive msgBufferSize with
      | some (message, queue) =>
        some ({ s with
          place := .draining maxsize (control builder message)
          received := s.received ++ [message] }, queue)
      | none =>
        let buffer := ⟨maxsize, builder.controls, builder.offset⟩
        some ({ s with place := .idle, queued := s.queued ++ [buffer] }, queue)
    | _ => none

end MidiMq

/-- A message arrives, or `on_process` makes a step. -/
inductive MqStep where
  | arrive (message : List UInt8)
  | midiMq (step : MidiMq.Step)

/-- The runs of `pw-midimq` on a queue. -/
def mqRuns (queue : MessageQueue) : Lts (MidiMq × MessageQueue) MqStep where
  init s := s = (.init, queue)
  step s a s' :=
    match a with
    | .arrive message => s' = (s.1, s.2.send message)
    | .midiMq step => s.1.step s.2 step = some s'

/-- Each buffer that is handed over is large enough for the messages of its cycle. -/
def FitsMaxsize (s : MidiMq × MessageQueue) : MqStep → Prop
  | .midiMq .drain => ∀ maxsize builder, s.1.place = .draining maxsize builder →
      s.2.receive msgBufferSize = none → builder.offset ≤ maxsize
  | _ => True

/-- The messages in the buffers handed over, as a reader finds them. -/
def MidiMq.delivered (s : MidiMq) : List (List UInt8) := s.queued.flatMap PwBuffer.midi

/-- A cycle that has received a message gets no buffer. -/
def MqStep.loses : MqStep → Bool
  | .midiMq (.dequeue none) => true
  | _ => false

/-! ## The invariant -/

/-- The messages of a cycle that has not ended. -/
def Place.Holds : Place → List (List UInt8) → Prop
  | .idle, bodies => bodies = []
  | .received message, bodies => bodies = [message]
  | .draining _ builder, bodies => builder = Builder.pushSequence.midi bodies

/-- What was received is in the buffers, or in the cycle that has not ended, in its order, but for
one message each time that there was no buffer. -/
def Accounted (tr : List MqStep) (s : MidiMq) : Prop :=
  ∃ bodies, s.place.Holds bodies ∧ (s.delivered ++ bodies).Sublist s.received ∧
    s.received.length = s.delivered.length + bodies.length + tr.countP MqStep.loses

variable {tr : List MqStep} {s s' : MidiMq} {queue queue' : MessageQueue}

/-- The builder with one more message. -/
theorem control_midi (bodies : List (List UInt8)) (message : List UInt8) :
    MidiMq.control (Builder.pushSequence.midi bodies) message =
      Builder.pushSequence.midi (bodies ++ [message]) := by
  rw [Builder.midi, Builder.midi, List.foldl_append]
  rfl

/-- A step that loses nothing is accounted for by what it leaves in the buffers and in the cycle. -/
theorem Accounted.concat {a : MqStep} {bodies : List (List UInt8)} (ha : a.loses = false)
    (hholds : s'.place.Holds bodies) (hsub : (s'.delivered ++ bodies).Sublist s'.received)
    (hlen : s'.received.length =
      s'.delivered.length + bodies.length + tr.countP MqStep.loses) :
    Accounted (tr ++ [a]) s' := by
  refine ⟨bodies, hholds, hsub, ?_⟩
  rw [List.countP_append, List.countP_singleton, ha]
  simpa using hlen

/-- The first receive of a cycle. -/
theorem Accounted.process (h : Accounted tr s)
    (hstep : s.step queue .process = some (s', queue')) :
    Accounted (tr ++ [.midiMq .process]) s' := by
  obtain ⟨bodies, hholds, hsub, hlen⟩ := h
  cases hplace : s.place with
  | idle =>
      rw [hplace] at hholds
      obtain rfl : bodies = [] := hholds
      simp only [MidiMq.step, hplace] at hstep
      split at hstep
      next message _ _ =>
        obtain ⟨rfl, -⟩ := Prod.mk.inj (Option.some.inj hstep)
        have hlen' : (s.received ++ [message]).length =
            s.delivered.length + 1 + tr.countP MqStep.loses := by
          rw [List.length_append, hlen, List.length_nil, List.length_singleton]
          omega
        rw [List.append_nil] at hsub
        exact Accounted.concat rfl rfl (hsub.append (List.Sublist.refl [message])) hlen'
      next =>
        obtain ⟨rfl, -⟩ := Prod.mk.inj (Option.some.inj hstep)
        exact Accounted.concat rfl (by rw [hplace]; rfl) hsub hlen
  | received | draining => simp [MidiMq.step, hplace] at hstep

/-- A cycle obtains its buffer, or loses its message. -/
theorem Accounted.dequeue (h : Accounted tr s) {maxsize : Option Nat}
    (hstep : s.step queue (.dequeue maxsize) = some (s', queue')) :
    Accounted (tr ++ [.midiMq (.dequeue maxsize)]) s' := by
  obtain ⟨bodies, hholds, hsub, hlen⟩ := h
  cases hplace : s.place with
  | received message =>
      rw [hplace] at hholds
      obtain rfl : bodies = [message] := hholds
      cases maxsize with
      | some maxsize =>
          simp only [MidiMq.step, hplace] at hstep
          obtain ⟨rfl, -⟩ := Prod.mk.inj (Option.some.inj hstep)
          refine Accounted.concat rfl ?_ hsub hlen
          exact show Place.Holds _ [message] from control_midi [] message
      | none =>
          simp only [MidiMq.step, hplace] at hstep
          obtain ⟨rfl, -⟩ := Prod.mk.inj (Option.some.inj hstep)
          have hlen' : s.received.length = s.delivered.length +
              (tr ++ [MqStep.midiMq (.dequeue none)]).countP MqStep.loses := by
            rw [List.countP_append, List.countP_singleton, hlen, List.length_singleton]
            rw [if_pos (show MqStep.loses (.midiMq (.dequeue none)) = true from rfl)]
            omega
          refine ⟨[], rfl, ?_, hlen'⟩
          rw [List.append_nil]
          exact (List.sublist_append_left _ _).trans hsub
  | idle | draining => cases maxsize <;> simp [MidiMq.step, hplace] at hstep

/-- The loop adds a message, or hands the buffer over. -/
theorem Accounted.drain (h : Accounted tr s)
    (hfits : FitsMaxsize (s, queue) (.midiMq .drain))
    (hstep : s.step queue .drain = some (s', queue')) :
    Accounted (tr ++ [.midiMq .drain]) s' := by
  obtain ⟨bodies, hholds, hsub, hlen⟩ := h
  cases hplace : s.place with
  | draining maxsize builder =>
      rw [hplace] at hholds
      obtain rfl : builder = Builder.pushSequence.midi bodies := hholds
      simp only [MidiMq.step, hplace] at hstep
      split at hstep
      next message _ _ =>
        obtain ⟨rfl, -⟩ := Prod.mk.inj (Option.some.inj hstep)
        have hsub' := hsub.append (List.Sublist.refl [message])
        rw [List.append_assoc] at hsub'
        have hlen' : (s.received ++ [message]).length =
            s.delivered.length + (bodies ++ [message]).length + tr.countP MqStep.loses := by
          rw [List.length_append, List.length_append, hlen, List.length_singleton]
          omega
        exact Accounted.concat rfl (control_midi bodies message) hsub' hlen'
      next hnone =>
        obtain ⟨rfl, -⟩ := Prod.mk.inj (Option.some.inj hstep)
        have hsize : podSize bodies ≤ maxsize := by
          have hle := hfits maxsize _ hplace hnone
          rwa [Builder.midi_eq] at hle
        have hmidi : PwBuffer.midi ⟨maxsize, (Builder.pushSequence.midi bodies).controls,
            (Builder.pushSequence.midi bodies).offset⟩ = bodies := by
          rw [midi_pushSequence, if_pos hsize]
        refine Accounted.concat rfl (show Place.Holds .idle [] from rfl) ?_ ?_
        · simpa [MidiMq.delivered, hmidi] using hsub
        · simpa [MidiMq.delivered, hmidi] using hlen
  | idle | received => simp [MidiMq.step, hplace] at hstep

/-- Nothing is lost in a run without such a cycle. -/
theorem countP_loses_eq_zero :
    tr.countP MqStep.loses = 0 ↔ .midiMq (.dequeue none) ∉ tr := by
  rw [List.countP_eq_zero]
  constructor
  · intro hall hmem
    exact hall _ hmem rfl
  · intro hnot a hmem
    match a with
    | .midiMq (.dequeue none) => exact absurd hmem hnot
    | .arrive _ | .midiMq .process | .midiMq .drain | .midiMq (.dequeue (some _)) =>
      exact Bool.false_ne_true

/-- No MIDI message is lost: when `on_process` has returned, the messages removed from the queue are
those in the buffers handed over, whole and in order, exactly when it got a buffer each time that it
had received a message. -/
theorem nothingLost_iff_buffers {queue : MessageQueue} {tr : List MqStep}
    {s : MidiMq × MessageQueue} (h : ((mqRuns queue).guard FitsMaxsize).Run tr s)
    (hidle : s.1.place = .idle) :
    s.1.delivered = s.1.received ↔ .midiMq (.dequeue none) ∉ tr := by
  have hinv : Accounted tr s.1 := by
    refine h.guard_invariant (I := fun tr s => Accounted tr s.1) ?_ ?_
    · rintro s rfl
      exact ⟨[], rfl, List.Sublist.refl _, rfl⟩
    · rintro tr ⟨s, queue⟩ a ⟨s', queue'⟩ hi ha hstep
      cases a with
      | arrive message =>
          obtain ⟨rfl, -⟩ := Prod.mk.inj hstep
          obtain ⟨bodies, hholds, hsub, hlen⟩ := hi
          exact Accounted.concat rfl hholds hsub hlen
      | midiMq step =>
          cases step with
          | process => exact hi.process hstep
          | dequeue maxsize => exact hi.dequeue hstep
          | drain => exact hi.drain ha hstep
  obtain ⟨bodies, hholds, hsub, hlen⟩ := hinv
  rw [hidle] at hholds
  obtain rfl : bodies = [] := hholds
  rw [List.append_nil] at hsub
  rw [← countP_loses_eq_zero]
  constructor
  · intro heq
    rw [heq, List.length_nil] at hlen
    omega
  · intro hzero
    refine hsub.eq_of_length ?_
    rw [hlen, hzero, List.length_nil]
    rfl

/-- A control change arrives and is received; then the cycle gets this buffer, or none. -/
def controlChangeRun (maxsize : Option Nat) : List MqStep :=
  [.arrive [0xb0, 7, 100], .midiMq .process, .midiMq (.dequeue maxsize)]

/-- The run of one control change, up to the cycle that takes it. -/
theorem run_controlChangeRun (maxsize : Option Nat) :
    ((mqRuns (.new 10 256)).guard FitsMaxsize).Run (controlChangeRun maxsize)
      (⟨match maxsize with
        | some maxsize => .draining maxsize (Builder.pushSequence.midi [[0xb0, 7, 100]])
        | none => .idle, [[0xb0, 7, 100]], []⟩, .new 10 256) := by
  have hinit : ((mqRuns (.new 10 256)).guard FitsMaxsize).Run [] (.init, .new 10 256) := .init rfl
  have harrive : ((mqRuns (.new 10 256)).guard FitsMaxsize).Run
      [.arrive [0xb0, 7, 100]] (.init, ⟨10, 256, [[0xb0, 7, 100]], []⟩) :=
    hinit.step ⟨trivial, by rfl⟩
  have hprocess : ((mqRuns (.new 10 256)).guard FitsMaxsize).Run
      [.arrive [0xb0, 7, 100], .midiMq .process]
      (⟨.received [0xb0, 7, 100], [[0xb0, 7, 100]], []⟩, .new 10 256) :=
    harrive.step ⟨trivial, by rfl⟩
  cases maxsize with
  | none => exact hprocess.step ⟨trivial, by rfl⟩
  | some maxsize => exact hprocess.step ⟨trivial, by rfl⟩

/-- With a buffer it is delivered. -/
theorem controlChange_delivered :
    ∃ s, ((mqRuns (.new 10 256)).guard FitsMaxsize).Run
        (controlChangeRun (some 8192) ++ [.midiMq .drain]) s ∧
      s.1.place = .idle ∧ s.1.delivered = s.1.received ∧ s.1.received = [[0xb0, 7, 100]] := by
  have hfits : FitsMaxsize (⟨.draining 8192 (Builder.pushSequence.midi [[0xb0, 7, 100]]),
      [[0xb0, 7, 100]], []⟩, .new 10 256) (.midiMq .drain) := by
    intro maxsize builder hplace _
    obtain ⟨rfl, rfl⟩ := Place.draining.inj hplace
    decide
  have hrun : ((mqRuns (.new 10 256)).guard FitsMaxsize).Run
      (controlChangeRun (some 8192) ++ [.midiMq .drain]) (⟨.idle, [[0xb0, 7, 100]],
        [⟨8192, (Builder.pushSequence.midi [[0xb0, 7, 100]]).controls,
          (Builder.pushSequence.midi [[0xb0, 7, 100]]).offset⟩]⟩, .new 10 256) :=
    (run_controlChangeRun (some 8192)).step ⟨hfits, by rfl⟩
  exact ⟨_, hrun, rfl, (nothingLost_iff_buffers hrun rfl).2 (by simp [controlChangeRun]), rfl⟩

/-- Without one it is lost. -/
theorem controlChange_lost :
    ∃ s, ((mqRuns (.new 10 256)).guard FitsMaxsize).Run (controlChangeRun none) s ∧
      s.1.place = .idle ∧ s.1.received = [[0xb0, 7, 100]] ∧ s.1.delivered = [] :=
  ⟨_, run_controlChangeRun none, rfl, rfl, rfl⟩

end Soundcan.Ui
