import Soundcan.Lv2.Atom

/-!
# The MIDI ports of the PipeWire host

The `ATOM_INPUT` and `ATOM_OUTPUT` ports of `lv2-pw-host` (`lph/ports.c`): before each run of the
plugin an input port copies the MIDI controls of a dequeued pod into its 8192-byte atom buffer,
and after it an output port turns the events of its atom buffer into a pod.

PipeWire and SPA are not part of the repository. A dequeued input buffer is given by the pod that
`spa_pod_from_data` finds in it (`SpaPod`), an output buffer by its size and what was last built
in it (`PwBuffer`), and the pod builder by the controls it was given and its offset.
-/

namespace Soundcan.Lph

open Bytes Lv2

/-- The mapped URIDs the port code compares with. URIDs are 32-bit and never 0. -/
structure Constants where
  midiMidiEvent : Nat
  atomChunk : Nat
  midiMidiEvent_pos : 0 < midiMidiEvent
  midiMidiEvent_lt : midiMidiEvent < 2 ^ 32

/-- `ATOM_BUFFER_SIZE`. -/
abbrev atomBufferSize : Nat := 8192

/-! ## Pods and PipeWire buffers -/

/-- `SPA_CONTROL_Midi`. -/
abbrev spaControlMidi : Nat := 2

/-- `struct spa_pod_control`. `after` is the byte the mapped data has behind an empty body, which
`ev.data[0]` reads in that case. -/
structure SpaPodControl where
  offset : Nat
  type : Nat
  body : List UInt8
  after : UInt8 := 0
  deriving DecidableEq, Repr

/-- `ev.data[0]`. -/
def SpaPodControl.data0 (c : SpaPodControl) : UInt8 := c.body.headD c.after

/-- What `spa_pod_from_data` and `spa_pod_is_sequence` say of a dequeued buffer. -/
inductive SpaPod where
  /-- `spa_pod_from_data` returned `NULL`. -/
  | none
  /-- A pod that is not a sequence. -/
  | other
  /-- A sequence of controls. -/
  | sequence (controls : List SpaPodControl)
  deriving DecidableEq, Repr

/-- An output buffer: `d->maxsize`, the controls of the sequence last built in its data, and
`d->chunk->size`. -/
structure PwBuffer where
  maxsize : Nat
  controls : List SpaPodControl
  chunkSize : Nat

/-- The controls a reader of the buffer finds: `spa_pod_from_data` refuses a chunk that is smaller
than a pod header or larger than the buffer. -/
def PwBuffer.read (q : PwBuffer) : List SpaPodControl :=
  if 8 ≤ q.chunkSize ∧ q.chunkSize ≤ q.maxsize then q.controls else []

/-- The bodies of the MIDI controls a reader of the buffer finds. -/
def PwBuffer.midi (q : PwBuffer) : List (List UInt8) :=
  (q.read.filter fun c => c.type = spaControlMidi).map SpaPodControl.body

/-- The pod that a host finds in the buffer when it dequeues it. -/
def PwBuffer.pod (q : PwBuffer) : SpaPod :=
  if 8 ≤ q.chunkSize ∧ q.chunkSize ≤ q.maxsize then .sequence q.controls else .none

/-- `struct spa_pod_builder`: the controls written so far and `state.offset`, which keeps growing
when the buffer is full. -/
structure Builder where
  controls : List SpaPodControl
  offset : Nat

/-- `spa_pod_builder_push_sequence`: the pod header and the sequence body header. -/
def Builder.pushSequence : Builder := ⟨[], 16⟩

/-- `spa_pod_builder_control` and `spa_pod_builder_bytes`: a control header, a pod header and the
padded bytes. -/
def Builder.control (builder : Builder) (offset type : Nat) (bytes : List UInt8) : Builder :=
  ⟨builder.controls ++ [{ offset, type, body := bytes }],
    builder.offset + (16 + pad8 bytes.length)⟩

/-! ## `ATOM_INPUT` -/

/-- `struct atom_input_port` with the `pwbuffer` of its port. -/
structure AtomInputPort where
  buffer : Block
  pwbuffer : Option SpaPod

/-- `setup_atom_input`: a zeroed atom buffer. -/
def setupAtomInput : AtomInputPort := ⟨Block.zeroed atomBufferSize, Option.none⟩

/-- `ev.sec` truncated to `aev->time.frames`: the running clock and the offset, added as 64-bit
words and divided by the denominator of the clock's rate, which is positive. -/
def evSec (frame offset : Nat) (denom : ℕ+) : Nat := (frame + offset) % 2 ^ 64 / denom

/-- The event `pre_run_atom_input` stores for a control. -/
def controlEvent (constants : Constants) (frame : Nat) (denom : ℕ+) (c : SpaPodControl) :
    AtomEvent :=
  ⟨evSec frame c.offset denom, constants.midiMidiEvent, c.body⟩

/-- The body of the `SPA_POD_SEQUENCE_FOREACH` loop, over the atom buffer and `buf_offset`. The
room left is computed in `size_t`, the growth of `atom.size` in 32 bits. -/
def preRunControl (constants : Constants) (frame : Nat) (denom : ℕ+) (st : Block × Nat)
    (c : SpaPodControl) : Option (Block × Nat) :=
  if c.type ≠ spaControlMidi then some st
  else if c.data0 = 0xf8 then some st
  else do
    let (buffer, bufOffset) := st
    let size ← buffer.loadWord 4 0
    if sizeofAtomEvent + c.body.length ≤ wordSub 8 (atomBufferSize - sizeofAtom) size then
      let buffer ← writeEvent buffer (sizeofAtomSequence + bufOffset)
        (controlEvent constants frame denom c)
      let grow := atomPadSize (sizeofAtomEvent + c.body.length)
      let buffer ← buffer.storeWord 4 0 (size + grow)
      pure (buffer, bufOffset + grow)
    else
      pure st

/-- `pre_run_atom_input`, with the result of `pw_filter_dequeue_buffer`. Without a buffer it
returns before it clears the sequence. -/
def preRunAtomInput (constants : Constants) (this : AtomInputPort) (dequeued : Option SpaPod)
    (frame : Nat) (denom : ℕ+) : Option AtomInputPort :=
  match dequeued with
  | Option.none => some { this with pwbuffer := Option.none }
  | some pod => do
    let buffer ← this.buffer.storeWord 4 0 (atomBufferSize - sizeofAtom)
    let buffer ← sequenceClear buffer
    match pod with
    | .none | .other => pure ⟨buffer, some pod⟩
    | .sequence controls => do
      let (buffer, _) ← controls.foldlM (preRunControl constants frame denom) (buffer, 0)
      pure ⟨buffer, some pod⟩

/-! ## `ATOM_OUTPUT` -/

/-- `struct atom_output_port` with the `pwbuffer` of its port and the PipeWire buffers it is one
of. -/
structure AtomOutputPort where
  buffer : Block
  pwbuffer : Option Nat
  pool : Nat → PwBuffer

/-- `setup_atom_output`: a zeroed atom buffer. -/
def setupAtomOutput (pool : Nat → PwBuffer) : AtomOutputPort :=
  ⟨Block.zeroed atomBufferSize, Option.none, pool⟩

/-- `pre_run_atom_output`: the atom buffer becomes an `atom:Chunk` of its capacity, the events of
earlier cycles stay behind it. -/
def preRunAtomOutput (constants : Constants) (this : AtomOutputPort) (dequeued : Option Nat) :
    Option AtomOutputPort := do
  let buffer ← this.buffer.storeWord 4 0 (atomBufferSize - sizeofAtom)
  let buffer ← buffer.storeWord 4 4 constants.atomChunk
  pure { this with buffer, pwbuffer := dequeued }

/-- A `w`-byte word at a pointer, given as its distance from the start of the block. -/
def loadWordAt (b : Block) (w : Nat) (p : Int) : Option Nat :=
  if 0 ≤ p then b.loadWord w p.toNat else Option.none

/-- The value of a 32-bit word as a signed `int`. -/
def toInt32 (n : Nat) : Int := if n < 2 ^ 31 then n else (n : Int) - 2 ^ 32

/-- `int eventSize = lv2_atom_pad_size(sizeof(LV2_Atom_Event)) + lv2_atom_pad_size(size)`: a
32-bit sum, converted to a signed 32-bit integer. -/
def eventSize (size : Nat) : Int :=
  toInt32 ((atomPadSize sizeofAtomEvent + atomPadSize size) % 2 ^ 32)

/-- The part of the loop body that emits: a MIDI-typed event becomes a control at offset 0. -/
def postRunEvent (constants : Constants) (b : Block) (aev : Int) (type size : Nat)
    (builder : Builder) : Option Builder :=
  if type = constants.midiMidiEvent then
    (b.load (aev + 16).toNat size).map (builder.control 0 spaControlMidi)
  else
    some builder

/-- The `while` loop of `post_run_atom_output`, given the steps it may take; 16 is
`sizeof(LV2_Atom_Event)`. It is undefined when it reads outside the atom buffer or does not end in
that many steps. -/
def postRunLoop (constants : Constants) (b : Block) : Nat → Int → Int → Builder → Option Builder
  | 0, _, _, _ => Option.none
  | fuel + 1, payloadSize, aev, builder =>
    if 16 < payloadSize then do
      let type ← loadWordAt b 4 (aev + 12)
      let size ← loadWordAt b 4 (aev + 8)
      let builder ← postRunEvent constants b aev type size builder
      postRunLoop constants b fuel (payloadSize - eventSize size) (aev + eventSize size) builder
    else
      some builder

/-- `post_run_atom_output`. A buffer is queued whenever one was dequeued, but a pod is only built
in it when `atom.size` exceeds an empty sequence. -/
def postRunAtomOutput (constants : Constants) (fuel : Nat) (this : AtomOutputPort) :
    Option AtomOutputPort :=
  match this.pwbuffer with
  | Option.none => some this
  | some id => do
    let size ← this.buffer.loadWord 4 0
    if sizeofAtomSequence < size then
      let builder ← postRunLoop constants this.buffer fuel size sizeofAtomSequence
        Builder.pushSequence
      let q := this.pool id
      pure { this with
        pool := Function.update this.pool id ⟨q.maxsize, builder.controls, builder.offset⟩ }
    else
      pure this

end Soundcan.Lph
