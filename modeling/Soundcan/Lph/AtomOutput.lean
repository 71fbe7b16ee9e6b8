import Soundcan.Lib.Transition
import Soundcan.Lph.Ports

/-!
# What an `ATOM_OUTPUT` port queues

`post_run_atom_output` walks the atom buffer from offset 16 for `atom.size` bytes. `MidiWalk` is
what such a walk meets; the loop returns exactly the pod of its MIDI bodies (`MidiWalk.postRunLoop`,
`midiWalk_of_postRunLoop`), and over a sequence the plugin wrote it meets exactly the plugin's
events (`WrittenSequence.midiWalk`). Two buffers outlive a cycle: the atom buffer keeps the bytes of
earlier events behind the preset `atom.size`, and a recycled PipeWire buffer keeps the pod it was
last queued with. Over runs of cycles (`onProcessOutput`) both can be queued again.
-/

namespace Soundcan.Lph

open Bytes Lv2

/-! ## The loop -/

/-- `MidiWalk constants b payload aev bodies`: the headers met from `aev` on, over `payload`
bytes, lie in the block, and the MIDI-typed ones have the bodies `bodies`. -/
inductive MidiWalk (constants : Constants) (b : Block) : Int → Int → List (List UInt8) → Prop
  /-- No header is left. -/
  | stop {payload aev : Int} : payload ≤ 16 → MidiWalk constants b payload aev []
  /-- A header of the MIDI type. -/
  | midi {payload aev : Int} {size : Nat} {body : List UInt8} {bodies : List (List UInt8)} :
      16 < payload → loadWordAt b 4 (aev + 12) = some constants.midiMidiEvent →
      loadWordAt b 4 (aev + 8) = some size → b.load (aev + 16).toNat size = some body →
      MidiWalk constants b (payload - eventSize size) (aev + eventSize size) bodies →
      MidiWalk constants b payload aev (body :: bodies)
  /-- A header of another type. -/
  | other {payload aev : Int} {type size : Nat} {bodies : List (List UInt8)} :
      16 < payload → loadWordAt b 4 (aev + 12) = some type → type ≠ constants.midiMidiEvent →
      loadWordAt b 4 (aev + 8) = some size →
      MidiWalk constants b (payload - eventSize size) (aev + eventSize size) bodies →
      MidiWalk constants b payload aev bodies

/-- The builder after the controls of the bodies. -/
def Builder.midi (builder : Builder) (bodies : List (List UInt8)) : Builder :=
  bodies.foldl (fun builder body => builder.control 0 spaControlMidi body) builder

variable {constants : Constants} {b : Block}

/-- What the loop returns was walked. -/
theorem midiWalk_of_postRunLoop {fuel : Nat} {payload aev : Int} {builder builder' : Builder}
    (h : postRunLoop constants b fuel payload aev builder = some builder') :
    ∃ bodies, MidiWalk constants b payload aev bodies ∧ builder' = builder.midi bodies := by
  induction fuel generalizing payload aev builder with
  | zero => simp [postRunLoop] at h
  | succ fuel ih =>
      rw [postRunLoop] at h
      split at h
      next hlt =>
        simp only [Option.bind_eq_bind, Option.bind_eq_some_iff] at h
        obtain ⟨type, htype, size, hsize, builder₁, hbody, hrest⟩ := h
        obtain ⟨bodies, hwalk, rfl⟩ := ih hrest
        rw [postRunEvent] at hbody
        split at hbody
        next hmidi =>
          obtain ⟨body, hload, rfl⟩ := Option.map_eq_some_iff.1 hbody
          exact ⟨body :: bodies, .midi hlt (hmidi ▸ htype) hsize hload hwalk, rfl⟩
        next hother =>
          obtain rfl := Option.some.inj hbody
          exact ⟨bodies, .other hlt htype hother hsize hwalk, rfl⟩
      next hle =>
        exact ⟨[], .stop (not_lt.1 hle), (Option.some.inj h).symm⟩

/-- What can be walked is returned by the loop, given enough steps. -/
theorem MidiWalk.postRunLoop {payload aev : Int} {bodies : List (List UInt8)}
    (h : MidiWalk constants b payload aev bodies) (builder : Builder) :
    ∃ fuel, postRunLoop constants b fuel payload aev builder = some (builder.midi bodies) := by
  induction h generalizing builder with
  | stop hle =>
      refine ⟨1, ?_⟩
      rw [Lph.postRunLoop, if_neg (not_lt.2 hle)]
      rfl
  | @midi payload aev size body bodies hlt htype hsize hload _ ih =>
      obtain ⟨fuel, hrest⟩ := ih (builder.control 0 spaControlMidi body)
      refine ⟨fuel + 1, ?_⟩
      rw [Lph.postRunLoop, if_pos hlt, htype, hsize]
      simp only [Option.bind_eq_bind, Option.bind_some, postRunEvent, if_true, hload,
        Option.map_some]
      exact hrest
  | @other payload aev type size bodies hlt htype hother hsize _ ih =>
      obtain ⟨fuel, hrest⟩ := ih builder
      refine ⟨fuel + 1, ?_⟩
      rw [Lph.postRunLoop, if_pos hlt, htype, hsize]
      simp only [Option.bind_eq_bind, Option.bind_some, postRunEvent, if_neg hother]
      exact hrest

/-- A walk meets one list of bodies. -/
theorem MidiWalk.unique {payload aev : Int} {xs ys : List (List UInt8)}
    (hx : MidiWalk constants b payload aev xs) (hy : MidiWalk constants b payload aev ys) :
    xs = ys := by
  induction hx generalizing ys with
  | stop hle =>
      cases hy with
      | stop => rfl
      | midi hlt | other hlt => omega
  | midi hlt htype hsize hload _ ih =>
      cases hy with
      | stop hle => omega
      | midi _ _ hsize' hload' hrest =>
          obtain rfl := Option.some.inj (hsize.symm.trans hsize')
          rw [Option.some.inj (hload.symm.trans hload'), ih hrest]
      | other _ htype' hne => exact absurd (Option.some.inj (htype'.symm.trans htype)) hne
  | other hlt htype hne hsize _ ih =>
      cases hy with
      | stop hle => omega
      | midi _ htype' => exact absurd (Option.some.inj (htype.symm.trans htype')) hne
      | other _ _ _ hsize' hrest =>
          obtain rfl := Option.some.inj (hsize.symm.trans hsize')
          exact ih hrest

/-! ## The events of a written sequence -/

/-- The bodies of the MIDI events. -/
def midiBodies (constants : Constants) (evs : List AtomEvent) : List (List UInt8) :=
  (evs.filter fun ev => ev.type = constants.midiMidiEvent).map AtomEvent.body

/-- An event of a sequence inside the atom buffer steps the walk by its span. -/
theorem eventSize_eq {n : Nat} (h : n ≤ 8192) : eventSize n = 16 + pad8 n := by
  have hlt := pad8_lt n
  have hheader : atomPadSize sizeofAtomEvent = 16 := by norm_num [atomPadSize]
  have hpad : atomPadSize n = pad8 n := atomPadSize_eq (by omega)
  rw [eventSize, hheader, hpad, Nat.mod_eq_of_lt (by omega), toInt32, if_pos (by omega)]
  push_cast
  rfl

/-- A word inside the block, read through a pointer. -/
theorem loadWordAt_natCast (b : Block) (w p : Nat) : loadWordAt b w p = b.loadWord w p := by
  simp [loadWordAt]

/-- The walk meets the events that are held, and goes on behind them. -/
theorem HoldsEvents.midiWalk_append {evs : List AtomEvent} {a payload : Nat}
    {bodies : List (List UInt8)} (hf : ∀ ev ∈ evs, ev.Fits) (h : HoldsEvents b a evs)
    (hb : spanAll evs ≤ 8192) (hpos : 0 < payload)
    (hrest : MidiWalk constants b payload (a + spanAll evs : Nat) bodies) :
    MidiWalk constants b (spanAll evs + payload : Nat) a (midiBodies constants evs ++ bodies) := by
  induction evs generalizing a with
  | nil =>
      rw [spanAll_nil, Nat.add_zero] at hrest
      rw [spanAll_nil, Nat.zero_add]
      exact hrest
  | cons ev evs ih =>
      obtain ⟨hev, hevs⟩ := h
      obtain ⟨-, hsize, htype, hbody⟩ := holds_event_iff.1 hev
      have hfit := hf ev (by simp)
      have hspan := ev.sixteen_le_span
      have hle := ev.length_bytes_le_span
      rw [ev.length_bytes] at hle
      rw [spanAll_cons] at hb
      have hstep : eventSize ev.body.length = ev.span := by
        rw [eventSize_eq (by omega), AtomEvent.span]
        norm_num
      have hsize' : loadWordAt b 4 ((a : Int) + 8) = some ev.body.length := by
        rw [← hsize.loadWord_of_lt hfit.size, ← loadWordAt_natCast]; norm_num
      have htype' : loadWordAt b 4 ((a : Int) + 12) = some ev.type := by
        rw [← htype.loadWord_of_lt hfit.type, ← loadWordAt_natCast]; norm_num
      have htail : MidiWalk constants b
          ((spanAll (ev :: evs) + payload : Nat) - eventSize ev.body.length)
          (a + eventSize ev.body.length) (midiBodies constants evs ++ bodies) := by
        have hwalk := ih (a := a + ev.span) (fun x hx => hf x (by simp [hx])) hevs (by omega)
          (by rwa [spanAll_cons, ← Nat.add_assoc] at hrest)
        rw [hstep, spanAll_cons]
        convert hwalk using 1 <;> push_cast <;> ring
      have hlt : (16 : Int) < (spanAll (ev :: evs) + payload : Nat) := by
        rw [spanAll_cons]; omega
      by_cases hmidi : ev.type = constants.midiMidiEvent
      · have hload : b.load ((a : Int) + 16).toNat ev.body.length = some ev.body := by
          rw [← hbody.load]; congr 1
        rw [midiBodies, List.filter_cons_of_pos (by simpa using hmidi), List.map_cons]
        exact .midi hlt (hmidi ▸ htype') hsize' hload htail
      · rw [midiBodies, List.filter_cons_of_neg (by simpa using hmidi)]
        exact .other hlt htype' hmidi hsize' htail

/-- The walk over held events meets them and stops behind the last, although the payload counts
the 8 bytes of the body header too. -/
theorem HoldsEvents.midiWalk {evs : List AtomEvent} {a : Nat} (hf : ∀ ev ∈ evs, ev.Fits)
    (h : HoldsEvents b a evs) (hb : spanAll evs ≤ 8192) :
    MidiWalk constants b (8 + spanAll evs : Nat) a (midiBodies constants evs) := by
  have hwalk : MidiWalk constants b (spanAll evs + 8 : Nat) a (midiBodies constants evs ++ []) :=
    midiWalk_append hf h hb (by norm_num) (.stop (by norm_num))
  rwa [List.append_nil, Nat.add_comm] at hwalk

/-! ## The pod -/

/-- The bytes of a pod with the given MIDI bodies. -/
def podSize (bodies : List (List UInt8)) : Nat :=
  16 + (bodies.map fun body => 16 + pad8 body.length).sum

/-- The builder's controls and offset. -/
theorem Builder.midi_eq (builder : Builder) (bodies : List (List UInt8)) :
    builder.midi bodies =
      ⟨builder.controls ++ bodies.map fun body => { offset := 0, type := spaControlMidi, body },
        builder.offset + (bodies.map fun body => 16 + pad8 body.length).sum⟩ := by
  induction bodies generalizing builder with
  | nil => simp [midi]
  | cons body bodies ih =>
      rw [midi, List.foldl_cons, ← midi, ih]
      simp [control, Nat.add_assoc]

/-- Each control of the pod is a MIDI control. -/
theorem midi_controls (bodies : List (List UInt8)) :
    ((bodies.map fun body => ({ offset := 0, type := spaControlMidi, body } : SpaPodControl)).filter
      fun c => c.type = spaControlMidi).map SpaPodControl.body = bodies := by
  induction bodies with
  | nil => rfl
  | cons body bodies ih => rw [List.map_cons, List.filter_cons_of_pos rfl, List.map_cons, ih]

/-- A reader of the built pod finds the bodies if the pod fits the buffer, and nothing else. -/
theorem midi_pushSequence (maxsize : Nat) (bodies : List (List UInt8)) :
    PwBuffer.midi ⟨maxsize, (Builder.pushSequence.midi bodies).controls,
      (Builder.pushSequence.midi bodies).offset⟩ =
      if podSize bodies ≤ maxsize then bodies else [] := by
  have hpos : 8 ≤ podSize bodies := by rw [podSize]; omega
  have hoffset : (Builder.pushSequence.midi bodies).offset = podSize bodies := by
    rw [Builder.midi_eq]; rfl
  rw [PwBuffer.midi, PwBuffer.read, hoffset, Builder.midi_eq]
  split
  next h =>
    rw [if_pos h.2]
    exact midi_controls bodies
  next h => rw [if_neg (fun hle => h ⟨hpos, hle⟩)]; rfl

/-! ## Runs of cycles -/

/-- An event sequence that the plugin left in the atom buffer. -/
structure WrittenSequence where
  block : Block
  events : List AtomEvent
  isSequence : IsSequence block events
  size : block.size = 8192

/-- What the plugin did with the atom buffer in one cycle. -/
inductive Written where
  /-- It left the `atom:Chunk` as it was. -/
  | untouched
  /-- It wrote a sequence, possibly empty. -/
  | sequence (seq : WrittenSequence)

/-- The atom buffer after the plugin ran. -/
def Written.block (written : Written) (chunk : Block) : Block :=
  match written with
  | .untouched => chunk
  | .sequence seq => seq.block

/-- The MIDI events the plugin wrote. -/
def Written.midi (constants : Constants) : Written → List (List UInt8)
  | .untouched => []
  | .sequence seq => midiBodies constants seq.events

/-- What one `on_process` cycle brings to an output port: the recycled buffer, and what the plugin
does. -/
structure OutputCycle where
  dequeued : Option Nat
  written : Written

/-- `on_process`, as far as it concerns one `ATOM_OUTPUT` port; it also returns the buffer that
was queued. -/
def onProcessOutput (constants : Constants) (fuel : Nat) (port : AtomOutputPort)
    (cycle : OutputCycle) : Option (AtomOutputPort × Option PwBuffer) := do
  let port ← preRunAtomOutput constants port cycle.dequeued
  let port := { port with buffer := cycle.written.block port.buffer }
  let port ← postRunAtomOutput constants fuel port
  pure (port, port.pwbuffer.map port.pool)

/-- The cycles of a host that has just set up the port with the given PipeWire buffers. A cycle
whose loop leaves the atom buffer or does not end has no step. -/
def outputCycles (constants : Constants) (pool : Nat → PwBuffer) :
    Lts AtomOutputPort (OutputCycle × Option PwBuffer) where
  init port := port = setupAtomOutput pool
  step port label port' :=
    ∃ fuel, onProcessOutput constants fuel port label.1 = some (port', label.2)

/-- The MIDI controls in the queued buffer are exactly the MIDI events the plugin wrote in the same
cycle. -/
def FreshOutput (constants : Constants) (label : OutputCycle × Option PwBuffer) : Prop :=
  ∀ q ∈ label.2, q.midi = label.1.written.midi constants

/-- The atom buffer as `pre_run_atom_output` presets it. -/
def chunk (constants : Constants) (buffer : Block) : Block :=
  (buffer.put 0 (leBytes 4 8184)).put 4 (leBytes 4 constants.atomChunk)

/-- The pod of the bodies in a buffer of the given size. -/
def podBuffer (maxsize : Nat) (bodies : List (List UInt8)) : PwBuffer :=
  ⟨maxsize, (Builder.pushSequence.midi bodies).controls,
    (Builder.pushSequence.midi bodies).offset⟩

/-- When the queued buffer is fresh, from the buffers before the cycle. If the plugin wrote no
event, what is left of earlier cycles must hold no MIDI: in the untouched atom buffer when it is
walked to its end, or in the recycled buffer when the plugin wrote an empty sequence. Otherwise the
pod must fit the recycled buffer. -/
def QueuesFresh (constants : Constants) (port : AtomOutputPort) (cycle : OutputCycle) : Prop :=
  ∀ id ∈ cycle.dequeued,
    match cycle.written with
    | .untouched => ∃ bodies, MidiWalk constants (chunk constants port.buffer) 8184 16 bodies ∧
        (bodies = [] ∨ (port.pool id).maxsize < podSize bodies)
    | .sequence seq =>
      if seq.events = [] then (port.pool id).midi = []
      else midiBodies constants seq.events = [] ∨
        podSize (midiBodies constants seq.events) ≤ (port.pool id).maxsize

section Cycle
variable {pool : Nat → PwBuffer} {port port' : AtomOutputPort} {written : Written} {id : Nat}
  {q : Option PwBuffer}

/-- Presetting the buffer never fails. -/
theorem preRunAtomOutput_eq (hb : port.buffer.size = 8192) (dequeued : Option Nat) :
    preRunAtomOutput constants port dequeued =
      some { port with buffer := chunk constants port.buffer, pwbuffer := dequeued } := by
  simp only [preRunAtomOutput, atomBufferSize, sizeofAtom, Option.bind_eq_bind]
  rw [Block.storeWord_eq (by omega), Option.bind_some,
    Block.storeWord_eq (by simp only [Block.size_put]; omega)]
  rfl

/-- An untouched buffer is walked over its whole capacity. -/
theorem loadWord_chunk (hb : port.buffer.size = 8192) :
    (chunk constants port.buffer).loadWord 4 0 = some 8184 := by
  rw [chunk, Block.loadWord_put (by simp), Block.loadWord_put_self (by omega) (by norm_num)]

/-- A cycle is the plugin's buffer, given to `post_run_atom_output`. -/
theorem onProcessOutput_eq (hb : port.buffer.size = 8192) (fuel : Nat) (dequeued : Option Nat) :
    onProcessOutput constants fuel port ⟨dequeued, written⟩ =
      (postRunAtomOutput constants fuel
        ⟨written.block (chunk constants port.buffer), dequeued, port.pool⟩).map
          fun port' => (port', port'.pwbuffer.map port'.pool) := by
  rw [onProcessOutput, preRunAtomOutput_eq hb, Option.bind_eq_bind, Option.bind_some,
    Option.map_eq_bind]
  rfl

/-- An empty sequence builds no pod. -/
theorem postRunAtomOutput_empty {b : Block} {size : Nat} (hsize : b.loadWord 4 0 = some size)
    (hle : size ≤ 16) (fuel : Nat) (pool : Nat → PwBuffer) :
    postRunAtomOutput constants fuel ⟨b, some id, pool⟩ = some ⟨b, some id, pool⟩ := by
  simp only [postRunAtomOutput, hsize, Option.bind_eq_bind, Option.bind_some, sizeofAtomSequence,
    if_neg (not_lt.2 hle), Option.pure_def]

/-- A larger `atom.size` builds the pod of the loop. -/
theorem postRunAtomOutput_walk {b : Block} {size : Nat} (hsize : b.loadWord 4 0 = some size)
    (hlt : 16 < size) (fuel : Nat) (pool : Nat → PwBuffer) :
    postRunAtomOutput constants fuel ⟨b, some id, pool⟩ =
      (postRunLoop constants b fuel size 16 Builder.pushSequence).map fun builder =>
        ⟨b, some id,
          Function.update pool id ⟨(pool id).maxsize, builder.controls, builder.offset⟩⟩ := by
  simp only [postRunAtomOutput, hsize, Option.bind_eq_bind, Option.bind_some, sizeofAtomSequence,
    if_pos hlt, Option.pure_def, Option.map_eq_bind]
  rfl

/-- A cycle without a PipeWire buffer queues nothing. -/
theorem step_none (hb : port.buffer.size = 8192) :
    (outputCycles constants pool).step port (⟨none, written⟩, q) port' ↔
      port' = ⟨written.block (chunk constants port.buffer), none, port.pool⟩ ∧ q = none := by
  simp only [outputCycles, onProcessOutput_eq hb, postRunAtomOutput, Option.map_some,
    Option.some.injEq, Prod.mk.injEq, exists_const, Option.map_none]
  exact and_congr eq_comm eq_comm

/-- After an empty sequence the recycled buffer is queued as it is. -/
theorem step_empty (written : Written) (hb : port.buffer.size = 8192) {size : Nat}
    (hsize : (written.block (chunk constants port.buffer)).loadWord 4 0 = some size)
    (hle : size ≤ 16) :
    (outputCycles constants pool).step port (⟨some id, written⟩, q) port' ↔
      port' = ⟨written.block (chunk constants port.buffer), some id, port.pool⟩ ∧
        q = some (port.pool id) := by
  simp only [outputCycles, onProcessOutput_eq hb, postRunAtomOutput_empty hsize hle,
    Option.map_some, Option.some.injEq, Prod.mk.injEq, exists_const]
  exact and_congr eq_comm eq_comm

/-- Otherwise the pod of what the walk meets is queued. -/
theorem step_walk (written : Written) (hb : port.buffer.size = 8192) {size : Nat}
    (hsize : (written.block (chunk constants port.buffer)).loadWord 4 0 = some size)
    (hlt : 16 < size) :
    (outputCycles constants pool).step port (⟨some id, written⟩, q) port' ↔
      ∃ bodies,
        MidiWalk constants (written.block (chunk constants port.buffer)) size 16 bodies ∧
        port' = ⟨written.block (chunk constants port.buffer), some id, Function.update port.pool id
          (podBuffer (port.pool id).maxsize bodies)⟩ ∧
        q = some (podBuffer (port.pool id).maxsize bodies) := by
  simp only [outputCycles, onProcessOutput_eq hb, postRunAtomOutput_walk hsize hlt,
    Option.map_map, Option.map_eq_some_iff, Function.comp_apply, Option.map_some,
    Function.update_self, Prod.mk.injEq]
  constructor
  · rintro ⟨fuel, builder, hloop, rfl, rfl⟩
    obtain ⟨bodies, hwalk, rfl⟩ := midiWalk_of_postRunLoop hloop
    exact ⟨bodies, hwalk, rfl, rfl⟩
  · rintro ⟨bodies, hwalk, rfl, rfl⟩
    obtain ⟨fuel, hloop⟩ := hwalk.postRunLoop Builder.pushSequence
    exact ⟨fuel, _, hloop, rfl, rfl⟩

/-- The atom buffer keeps its size. -/
theorem size_block (hb : port.buffer.size = 8192) :
    (written.block (chunk constants port.buffer)).size = 8192 := by
  cases written with
  | untouched => exact hb
  | sequence seq => exact seq.size

/-- A cycle keeps the size of the atom buffer. -/
theorem step_size (hb : port.buffer.size = 8192) {cycle : OutputCycle}
    (h : (outputCycles constants pool).step port (cycle, q) port') : port'.buffer.size = 8192 := by
  obtain ⟨fuel, h⟩ := h
  rw [onProcessOutput_eq hb, Option.map_eq_some_iff] at h
  obtain ⟨port₁, hpost, hout⟩ := h
  obtain ⟨rfl, -⟩ := Prod.mk.inj hout
  rw [postRunAtomOutput] at hpost
  split at hpost
  next => rw [← Option.some.inj hpost]; exact size_block hb
  next id _ =>
    simp only [Option.bind_eq_bind, Option.bind_eq_some_iff] at hpost
    obtain ⟨size, -, hpost⟩ := hpost
    split at hpost
    next =>
      obtain ⟨builder, -, hpost⟩ := Option.bind_eq_some_iff.1 hpost
      rw [← Option.some.inj hpost]
      exact size_block hb
    next => rw [← Option.some.inj hpost]; exact size_block hb

/-- The walk over a written sequence meets the plugin's MIDI events. -/
theorem WrittenSequence.midiWalk (seq : WrittenSequence) :
    MidiWalk constants seq.block (8 + spanAll seq.events : Nat) 16
      (midiBodies constants seq.events) := by
  have hbound := seq.isSequence.bound
  rw [seq.size] at hbound
  exact HoldsEvents.midiWalk seq.isSequence.fits seq.isSequence.events (by omega)

/-- A sequence with an event is walked. -/
theorem WrittenSequence.sixteen_lt {seq : WrittenSequence} (h : seq.events ≠ []) :
    16 < 8 + spanAll seq.events := by
  obtain ⟨ev, evs, hevs⟩ := List.exists_cons_of_ne_nil h
  have := ev.sixteen_le_span
  rw [hevs, spanAll_cons]
  omega

/-- A reader of a pod buffer finds nothing that should not be there when there was nothing to build
or the pod did not fit. -/
theorem midi_podBuffer_eq_nil {maxsize : Nat} {bodies : List (List UInt8)} :
    (podBuffer maxsize bodies).midi = [] ↔ bodies = [] ∨ maxsize < podSize bodies := by
  rw [podBuffer, midi_pushSequence]
  split
  next h => simp [Nat.not_lt.2 h]
  next h => simp [not_le.1 h]

/-- A reader of a pod buffer finds the bodies when there were none or the pod fitted. -/
theorem midi_podBuffer_eq_self {maxsize : Nat} {bodies : List (List UInt8)} :
    (podBuffer maxsize bodies).midi = bodies ↔ bodies = [] ∨ podSize bodies ≤ maxsize := by
  rw [podBuffer, midi_pushSequence]
  split
  next h => simp [h]
  next h => simp [h, eq_comm]

/-- What a cycle queues is fresh exactly under the condition. -/
theorem step_fresh_iff (hb : port.buffer.size = 8192) {cycle : OutputCycle}
    (h : (outputCycles constants pool).step port (cycle, q) port') :
    FreshOutput constants (cycle, q) ↔ QueuesFresh constants port cycle := by
  obtain ⟨dequeued, written⟩ := cycle
  cases dequeued with
  | none =>
      obtain ⟨-, rfl⟩ := (step_none hb).1 h
      simp [FreshOutput, QueuesFresh]
  | some id =>
      cases written with
      | untouched =>
          obtain ⟨bodies, hwalk, -, rfl⟩ :=
            (step_walk .untouched hb (loadWord_chunk hb) (by norm_num)).1 h
          simp only [FreshOutput, QueuesFresh, Written.midi, Option.mem_def, Option.some.injEq,
            forall_eq', midi_podBuffer_eq_nil]
          exact ⟨fun hfit => ⟨bodies, hwalk, hfit⟩, fun ⟨_, hwalk', hfit⟩ =>
            hwalk.unique hwalk' ▸ hfit⟩
      | sequence seq =>
          simp only [FreshOutput, QueuesFresh, Written.midi, Option.mem_def, Option.some.injEq,
            forall_eq']
          by_cases hnil : seq.events = []
          · have hsize : seq.block.loadWord 4 0 = some 8 := by
              rw [seq.isSequence.size, hnil]; rfl
            obtain ⟨-, rfl⟩ := (step_empty (.sequence seq) hb hsize (by norm_num)).1 h
            simp [hnil, midiBodies]
          · obtain ⟨bodies, hwalk, -, rfl⟩ :=
              (step_walk (.sequence seq) hb seq.isSequence.size
                (WrittenSequence.sixteen_lt hnil)).1 h
            obtain rfl := hwalk.unique seq.midiWalk
            simp only [if_neg hnil, Option.some.injEq, forall_eq']
            exact midi_podBuffer_eq_self

/-- Under the condition the cycle ends. -/
theorem step_of_queuesFresh (hb : port.buffer.size = 8192) {cycle : OutputCycle}
    (h : QueuesFresh constants port cycle) :
    ∃ port' q, (outputCycles constants pool).step port (cycle, q) port' := by
  obtain ⟨dequeued, written⟩ := cycle
  cases dequeued with
  | none => exact ⟨_, _, (step_none hb).2 ⟨rfl, rfl⟩⟩
  | some id =>
      cases written with
      | untouched =>
          obtain ⟨bodies, hwalk, -⟩ := h id rfl
          exact ⟨_, _, (step_walk .untouched hb (loadWord_chunk hb) (by norm_num)).2
            ⟨bodies, hwalk, rfl, rfl⟩⟩
      | sequence seq =>
          by_cases hnil : seq.events = []
          · have hsize : seq.block.loadWord 4 0 = some 8 := by
              rw [seq.isSequence.size, hnil]; rfl
            exact ⟨_, _, (step_empty (.sequence seq) hb hsize (by norm_num)).2 ⟨rfl, rfl⟩⟩
          · exact ⟨_, _, (step_walk (.sequence seq) hb seq.isSequence.size
                (WrittenSequence.sixteen_lt hnil)).2
              ⟨_, seq.midiWalk, rfl, rfl⟩⟩

/-- The atom buffer has its size in every reachable state. -/
theorem outputCycles_size (h : (outputCycles constants pool).Reachable port) :
    port.buffer.size = 8192 := by
  refine h.invariant (I := fun port => port.buffer.size = 8192) ?_ ?_
  · rintro port rfl
    rfl
  · exact fun _ _ _ hb hstep => step_size hb hstep

end Cycle

/-! ## A note-on -/

/-- A zeroed buffer made an empty sequence. -/
def WrittenSequence.empty : WrittenSequence where
  block := (Block.zeroed 8192).put 0 (leBytes 4 8)
  events := []
  isSequence :=
    ⟨Block.loadWord_put_self (by norm_num) (by norm_num), trivial, by simp, by simp, by simp⟩
  size := rfl

/-- An empty sequence with one event appended. -/
def WrittenSequence.single (ev : AtomEvent) (hf : ev.Fits) (hb : 16 + ev.span ≤ 8192) :
    WrittenSequence where
  block := (empty.block.put 16 ev.bytes).put 0 (leBytes 4 (8 + ev.span))
  events := [ev]
  isSequence := empty.isSequence.append hf hb
  size := rfl

/-- A note-on at the start of the block. -/
def noteOn : AtomEvent := ⟨0, 1, [0x90, 60, 100]⟩

/-- A note-on fits. -/
theorem fits_noteOn : noteOn.Fits := ⟨by decide, by decide, by decide⟩

/-- One PipeWire buffer, recycled from cycle to cycle, that starts empty. -/
def emptyPool : Nat → PwBuffer := fun _ => ⟨8192, [], 0⟩

/-- The cycles of the note-on and of the empty sequence after it. -/
def noteOnCycle : OutputCycle := ⟨some 0, .sequence (.single noteOn fits_noteOn (by decide))⟩
def emptyCycle : OutputCycle := ⟨some 0, .sequence .empty⟩

/-- A cycle with a note-on and a buffer that is free. -/
theorem queuesFresh_noteOnCycle (constants : Constants) :
    QueuesFresh constants (setupAtomOutput emptyPool) noteOnCycle := by
  intro id _
  have hle : podSize (midiBodies constants [noteOn]) ≤ 8192 := by
    rw [midiBodies, List.filter_singleton]
    cases decide (noteOn.type = constants.midiMidiEvent) <;> decide
  exact .inr hle

/-- Output freshness, for any buffers the host starts with: in every run whose cycles all meet the
condition each queued buffer holds exactly the MIDI events of its cycle, and from every reachable
state a cycle ends and queues a fresh buffer exactly under the condition. -/
theorem freshOutput_iff_queuesFresh (constants : Constants) (pool : Nat → PwBuffer) :
    (∀ tr port, ((outputCycles constants pool).guard fun port label =>
        QueuesFresh constants port label.1).Run tr port →
      ∀ label ∈ tr, FreshOutput constants label) ∧
    ∀ port, (outputCycles constants pool).Reachable port → ∀ cycle,
      (∃ port' q, (outputCycles constants pool).step port (cycle, q) port' ∧
        FreshOutput constants (cycle, q)) ↔ QueuesFresh constants port cycle := by
  constructor
  · intro tr port h
    refine (h.guard_invariant (I := fun tr port => port.buffer.size = 8192 ∧
      ∀ label ∈ tr, FreshOutput constants label) ?_ ?_).2
    · rintro port rfl
      exact ⟨rfl, by simp⟩
    · rintro tr port label port' ⟨hb, hfresh⟩ hcond hstep
      refine ⟨step_size hb hstep, fun x hx => ?_⟩
      rcases List.mem_append.1 hx with hx | hx
      · exact hfresh x hx
      · rw [List.mem_singleton.1 hx]
        exact (step_fresh_iff hb hstep).2 hcond
  · intro port hreach cycle
    have hb := outputCycles_size hreach
    constructor
    · rintro ⟨port', q, hstep, hfresh⟩
      exact (step_fresh_iff hb hstep).1 hfresh
    · intro hcond
      obtain ⟨port', q, hstep⟩ := step_of_queuesFresh hb hcond
      exact ⟨port', q, hstep, (step_fresh_iff hb hstep).2 hcond⟩

/-- The note-on's cycle queues it. -/
theorem freshOutput_noteOn :
    let constants : Constants := ⟨1, 2, by decide, by decide⟩
    ∃ port q, (outputCycles constants emptyPool).step (setupAtomOutput emptyPool)
      (noteOnCycle, q) port ∧ FreshOutput constants (noteOnCycle, q) :=
  ((freshOutput_iff_queuesFresh _ emptyPool).2 _ ⟨[], .init rfl⟩ _).2 (queuesFresh_noteOnCycle _)

/-- A note-on is queued once more in the cycle after it, in which the plugin wrote an empty
sequence. -/
theorem noteOn_queued_twice :
    let constants : Constants := ⟨1, 2, by decide, by decide⟩
    let q := podBuffer 8192 [[0x90, 60, 100]]
    (∃ port, (outputCycles constants emptyPool).Run
      [(noteOnCycle, some q), (emptyCycle, some q)] port) ∧
    q.midi = [[0x90, 60, 100]] ∧ ¬FreshOutput constants (emptyCycle, some q) := by
  intro constants q
  have hq : q.midi = [[0x90, 60, 100]] := by decide
  let seq := WrittenSequence.single noteOn fits_noteOn (by decide)
  let port₁ : AtomOutputPort := ⟨seq.block, some 0, Function.update emptyPool 0 q⟩
  let port₂ : AtomOutputPort := ⟨WrittenSequence.empty.block, some 0, port₁.pool⟩
  have hwalk : MidiWalk constants seq.block (8 + spanAll seq.events : Nat) 16 [[0x90, 60, 100]] :=
    seq.midiWalk
  have hfirst : (outputCycles constants emptyPool).step (setupAtomOutput emptyPool)
      (noteOnCycle, some q) port₁ :=
    (step_walk noteOnCycle.written rfl seq.isSequence.size (by decide)).2 ⟨_, hwalk, rfl, rfl⟩
  have hsecond : (outputCycles constants emptyPool).step port₁ (emptyCycle, some q) port₂ :=
    (step_empty emptyCycle.written rfl WrittenSequence.empty.isSequence.size (by decide)).2
      ⟨rfl, rfl⟩
  have hrun : (outputCycles constants emptyPool).Run [(noteOnCycle, some q)] port₁ :=
    Lts.Run.step (.init rfl) hfirst
  refine ⟨⟨port₂, hrun.step hsecond⟩, hq, fun h => ?_⟩
  have := h q rfl
  rw [hq] at this
  simp [Written.midi, emptyCycle, WrittenSequence.empty, midiBodies] at this

end Soundcan.Lph
