import Soundcan.Lv2.Atom

/-!
# Event buffers

`LV2_Evbuf` of `lv2_evbuf.c`: an atom sequence in an allocation of 16 bytes more than its header and
its capacity. Only what the process thread does with an input buffer is here: reset it and append
events at its end. `Evbuf.HasEvents` is what it then holds, and a plugin that reads the buffer gets
exactly that (`Evbuf.HasEvents.sequenceEvents`).
-/

namespace Soundcan.Galv

open Bytes Lv2

/-- `LV2_Evbuf_Impl`; `buf` is what the allocation holds from the field `buf` on. -/
structure Evbuf where
  capacity : Nat
  atomChunk : Nat
  atomSequence : Nat
  buf : Block

namespace Evbuf

/-- `lv2_evbuf_new`: the allocation is `sizeof(LV2_Evbuf) + sizeof(LV2_Atom_Sequence) + capacity`
bytes, and `buf` starts 16 bytes in. -/
def new (capacity atomChunk atomSequence : Nat) : Evbuf :=
  ⟨capacity, atomChunk, atomSequence, Block.zeroed (32 + capacity)⟩

/-- `lv2_evbuf_reset`. -/
def reset (b : Evbuf) (input : Bool) : Option Evbuf := do
  let buf ← b.buf.storeWord 4 0 (if input then sizeofAtomSequenceBody else b.capacity)
  let buf ← buf.storeWord 4 4 (if input then b.atomSequence else b.atomChunk)
  some { b with buf }

/-- `lv2_evbuf_get_size`, with its assertion. -/
def getSize (b : Evbuf) : Option Nat := do
  let size ← b.buf.loadWord 4 0
  let type ← b.buf.loadWord 4 4
  if type = b.atomSequence then
    if sizeofAtomSequenceBody ≤ size then some (size - sizeofAtomSequenceBody) else none
  else
    some 0

/-- The offset of `lv2_evbuf_end`. -/
def endOffset (b : Evbuf) : Option Nat := do
  let size ← b.getSize
  some (atomPadSize size)

/-- `lv2_evbuf_write` through an iterator at `offset`: whether the event was written, and the buffer
and the offset after it. The room is computed in `size_t`. A write that leaves the allocation is
undefined. -/
def write (b : Evbuf) (offset : Nat) (ev : AtomEvent) : Option (Bool × Evbuf × Nat) := do
  let size ← b.buf.loadWord 4 0
  if wordSub 8 (wordSub 8 b.capacity sizeofAtom) size < sizeofAtomEvent + ev.body.length then
    some (false, b, offset)
  else
    let buf ← writeEvent b.buf (sizeofAtomSequence + offset) ev
    let padded := atomPadSize (sizeofAtomEvent + ev.body.length)
    let buf ← buf.storeWord 4 0 (size + padded)
    some (true, { b with buf }, (offset + padded) % 2 ^ 32)

/-- The allocation is the one of `lv2_evbuf_new`, of a capacity that leaves the sizes in it within
32 bits. -/
structure Allocated (b : Evbuf) : Prop where
  size_buf : b.buf.size = 32 + b.capacity
  capacity_le : b.capacity + 40 ≤ 2 ^ 32
  atomSequence_lt : b.atomSequence < 2 ^ 32

/-- The buffer is a sequence of the events `evs`. -/
structure HasEvents (b : Evbuf) (evs : List AtomEvent) : Prop where
  allocated : b.Allocated
  size : b.buf.loadWord 4 0 = some (8 + spanAll evs)
  type : b.buf.loadWord 4 4 = some b.atomSequence
  events : HoldsEvents b.buf 16 evs
  fits : ∀ ev ∈ evs, ev.Fits
  span_lt : 16 + spanAll evs < 2 ^ 32

variable {b b' : Evbuf} {evs : List AtomEvent} {ev : AtomEvent}

/-- A new buffer has its header and its capacity. -/
theorem allocated_new {capacity atomChunk atomSequence : Nat} (hc : capacity + 40 ≤ 2 ^ 32)
    (hs : atomSequence < 2 ^ 32) : (new capacity atomChunk atomSequence).Allocated :=
  ⟨rfl, hc, hs⟩

/-- What a buffer holds whose input has been reset: `atom.size` is 8, `atom.type` the sequence. -/
def resetBuf (b : Evbuf) : Block := (b.buf.put 0 (leBytes 4 8)).put 4 (leBytes 4 b.atomSequence)

@[simp] theorem size_resetBuf (b : Evbuf) : b.resetBuf.size = b.buf.size := rfl

/-- A reset for input writes the header of an empty sequence. -/
theorem reset_input (hb : 8 ≤ b.buf.size) : b.reset true = some { b with buf := b.resetBuf } := by
  simp only [Evbuf.reset, if_true, Option.bind_eq_bind]
  rw [Block.storeWord_eq (by omega), Option.bind_some,
    Block.storeWord_eq (by simp only [Block.size_put]; omega)]
  rfl

/-- The size word behind a reset for input is 8. -/
theorem loadWord_size_resetBuf (hb : 8 ≤ b.buf.size) : b.resetBuf.loadWord 4 0 = some 8 := by
  rw [resetBuf, Block.loadWord_put (by simp), Block.loadWord_put_self (by omega) (by norm_num)]

/-- The type word behind a reset for input is that of a sequence. -/
theorem loadWord_type_resetBuf (hb : 8 ≤ b.buf.size) (hs : b.atomSequence < 2 ^ 32) :
    b.resetBuf.loadWord 4 4 = some b.atomSequence :=
  Block.loadWord_put_self (by simp only [Block.size_put]; omega) (by simpa using hs)

/-- A reset input is an empty sequence. -/
theorem Allocated.reset (h : b.Allocated) : ∃ b', b.reset true = some b' ∧ b'.HasEvents [] := by
  have hsize := h.size_buf
  exact ⟨_, reset_input (by omega), ⟨⟨hsize, h.capacity_le, h.atomSequence_lt⟩,
    loadWord_size_resetBuf (by omega), loadWord_type_resetBuf (by omega) h.atomSequence_lt,
    trivial, by simp, by simp⟩⟩

/-- A reset gives an allocated buffer. -/
theorem Allocated.of_reset (h : b.Allocated) (hreset : b.reset true = some b') :
    b'.HasEvents [] := by
  obtain ⟨b'', h', hinv⟩ := h.reset
  rwa [← Option.some.inj (h'.symm.trans hreset)]

/-- The end of the buffer is behind its events. -/
theorem HasEvents.endOffset (h : b.HasEvents evs) : b.endOffset = some (spanAll evs) := by
  have hspan := h.span_lt
  have hmod := spanAll_mod evs
  have hsize : b.getSize = some (spanAll evs) := by
    simp [getSize, h.size, h.type]
  rw [Evbuf.endOffset, hsize, Option.bind_eq_bind, Option.bind_some, atomPadSize_eq (by omega),
    pad8_of_mod hmod]

/-- An event that is written at the end of the buffer is appended to its events; one that is refused
leaves the buffer as it is. -/
theorem HasEvents.write (h : b.HasEvents evs) (hframes : ev.frames < 2 ^ 64)
    (htype : ev.type < 2 ^ 32) {ok : Bool} {offset : Nat}
    (hwrite : b.write (spanAll evs) ev = some (ok, b', offset)) :
    (ok = false ∧ b' = b ∧ offset = spanAll evs) ∨
    (ok = true ∧ b'.HasEvents (evs ++ [ev]) ∧ offset = spanAll (evs ++ [ev])) := by
  have hsizeBuf := h.allocated.size_buf
  have hcapacity := h.allocated.capacity_le
  rw [Evbuf.write, h.size, Option.bind_eq_bind, Option.bind_some] at hwrite
  split at hwrite
  · obtain ⟨rfl, rfl, rfl⟩ : false = ok ∧ b = b' ∧ spanAll evs = offset := by
      simpa using hwrite
    exact .inl ⟨rfl, rfl, rfl⟩
  · obtain ⟨buf, hbuf, hwrite⟩ := Option.bind_eq_some_iff.1 hwrite
    obtain ⟨hle, rfl⟩ := writeEvent_eq_some_iff.1 hbuf
    simp only [sizeofAtomSequence, sizeofAtomEvent] at hle hwrite
    have hlen := ev.length_bytes
    have hmod := spanAll_mod evs
    have hpad := pad8_lt ev.body.length
    have hspan : ev.span = 16 + pad8 ev.body.length := rfl
    have hpadded : atomPadSize (16 + ev.body.length) = ev.span := by
      rw [atomPadSize_eq (by omega), pad8_header, hspan]
    have hlt : 8 + spanAll evs + ev.span < 256 ^ 4 := by norm_num; omega
    rw [hpadded, Block.storeWord_eq (by simp only [Block.size_put]; omega)] at hwrite
    obtain ⟨rfl, rfl, rfl⟩ := by simpa using hwrite
    have hspanAll : spanAll (evs ++ [ev]) = spanAll evs + ev.span := by simp
    refine .inr ⟨rfl, ⟨⟨hsizeBuf, hcapacity, h.allocated.atomSequence_lt⟩, ?_, ?_, ?_, ?_, ?_⟩, ?_⟩
    · rw [Block.loadWord_put_self (by simp only [Block.size_put]; omega) hlt, hspanAll,
        Nat.add_assoc]
    · rw [Block.loadWord_put (.inr (by simp)), Block.loadWord_put (.inl (by omega)), h.type]
    · have hev : (b.buf.put (16 + spanAll evs) ev.bytes).Holds (16 + spanAll evs) ev.bytes :=
        Block.holds_put_self (by omega)
      rw [holdsEvents_append]
      refine ⟨(h.events.put (.inl le_rfl)).put (.inr (by simp)), ?_, trivial⟩
      exact hev.put (.inr (by simp; omega))
    · exact List.forall_mem_append.2
        ⟨h.fits, List.forall_mem_singleton.2 ⟨hframes, htype, by omega⟩⟩
    · omega
    · omega

/-- Writing events one after the other through one iterator; those that do not fit are dropped. -/
def writeAll (b : Evbuf) (offset : Nat) : List AtomEvent → Option Evbuf
  | [] => some b
  | ev :: evs => do
    let (_, b, offset) ← b.write offset ev
    writeAll b offset evs

/-- The buffer stays a sequence, of its events and those of the new ones that fit. -/
theorem HasEvents.writeAll (h : b.HasEvents evs) {new : List AtomEvent} (hf : ∀ ev ∈ new, ev.Fits)
    (hwrite : b.writeAll (spanAll evs) new = some b') :
    ∃ written, written.Sublist new ∧ b'.HasEvents (evs ++ written) := by
  induction new generalizing b evs with
  | nil =>
      obtain rfl := Option.some.inj hwrite
      exact ⟨[], .slnil, by rwa [List.append_nil]⟩
  | cons ev new ih =>
      obtain ⟨⟨ok, b₁, offset⟩, hfirst, hrest⟩ := Option.bind_eq_some_iff.1 hwrite
      have hev := hf ev List.mem_cons_self
      have hnew : ∀ ev ∈ new, ev.Fits := fun x hx => hf x (List.mem_cons_of_mem _ hx)
      rcases h.write hev.frames hev.type hfirst with ⟨-, rfl, rfl⟩ | ⟨-, h₁, rfl⟩
      · obtain ⟨written, hsub, hb'⟩ := ih h hnew hrest
        exact ⟨written, hsub.cons ev, hb'⟩
      · obtain ⟨written, hsub, hb'⟩ := ih h₁ hnew hrest
        exact ⟨ev :: written, hsub.cons_cons ev, by rwa [List.append_cons]⟩

/-- A plugin that reads the buffer gets its events. -/
theorem HasEvents.sequenceEvents (h : b.HasEvents evs) : sequenceEvents b.buf = some evs := by
  have hspan := h.span_lt
  have hl := length_le_spanAll evs
  simp only [Lv2.sequenceEvents, h.size, Option.bind_eq_bind, Option.bind_some, sizeofAtom,
    sizeofAtomSequence]
  exact readEvents_eq h.fits h.events (by omega) (by omega) (by omega)

end Evbuf

end Soundcan.Galv
