import Soundcan.Galv.Evbuf

/-!
# Iterators over an event buffer

`lv2_evbuf_write` and the traversal `lv2_evbuf_begin`, `lv2_evbuf_is_valid`, `lv2_evbuf_get` and
`lv2_evbuf_next`, for any capacity that is a multiple of 8. The room that the write tests is then
itself a multiple of 8, so the padded event fits wherever the event does, and `atom.size`, the
offset of the writing iterator and the end of the traversal agree (`Evbuf.Aligned`). What is read
back is what was accepted (`evbuf_roundTrip`).
-/

namespace Soundcan.Galv

open Bytes Lv2

/-- The arguments of `lv2_evbuf_write`, in the widths of its parameters. -/
structure EventArgs where
  frames : UInt32
  type : UInt32
  body : List UInt8
  length_lt : body.length < 2 ^ 32

/-- The event that the arguments describe. -/
def EventArgs.event (args : EventArgs) : AtomEvent :=
  ⟨args.frames.toNat, args.type.toNat, args.body⟩

/-- The frames of an event are 32 bits. -/
theorem EventArgs.frames_lt (args : EventArgs) : args.event.frames < 2 ^ 32 := args.frames.toNat_lt

/-- An event of these arguments fits. -/
theorem EventArgs.fits (args : EventArgs) : args.event.Fits :=
  ⟨lt_trans args.frames_lt (by norm_num), args.type.toNat_lt, args.length_lt⟩

namespace Evbuf

/-- `lv2_evbuf_is_valid`, of an iterator at `offset`. -/
def isValid (b : Evbuf) (offset : Nat) : Option Bool := do
  let size ← b.getSize
  some (decide (offset < size))

/-- The offset of `lv2_evbuf_next`. -/
def next (b : Evbuf) (offset : Nat) : Option Nat := do
  if ← b.isValid offset then
    let size ← b.buf.loadWord 4 (sizeofAtomSequence + offset + 8)
    some ((offset + atomPadSize (sizeofAtomEvent + size)) % 2 ^ 32)
  else
    some offset

/-- `lv2_evbuf_get`: what it stores through its pointers, where it returns true. `time.frames` is
stored in 32 bits. -/
def get (b : Evbuf) (offset : Nat) : Option (Option AtomEvent) := do
  if ← b.isValid offset then
    let ev ← readEvent b.buf (sizeofAtomSequence + offset)
    some (some { ev with frames := ev.frames % 2 ^ 32 })
  else
    some none

/-- `for (; lv2_evbuf_is_valid(i); i = lv2_evbuf_next(i))` with an `lv2_evbuf_get` in its body,
given the steps it may take: the events and the offset at its end. -/
def traverse (b : Evbuf) : Nat → Nat → Option (List AtomEvent × Nat)
  | 0, _ => none
  | fuel + 1, offset => do
    if ← b.isValid offset then
      let ev ← b.get offset
      let offset ← b.next offset
      let (evs, last) ← traverse b fuel offset
      some (ev.toList ++ evs, last)
    else
      some ([], offset)

/-- Events written through one iterator, with what each write returned. -/
def writeEach (b : Evbuf) (offset : Nat) : List EventArgs → Option (List Bool × Evbuf × Nat)
  | [] => some ([], b, offset)
  | args :: rest => do
    let (ok, b, offset) ← b.write offset args.event
    let (oks, b, offset) ← writeEach b offset rest
    some (ok :: oks, b, offset)

/-- Events written each through a fresh iterator of `lv2_evbuf_end`. -/
def writeAtEnd (b : Evbuf) : List EventArgs → Option (List Bool × Evbuf)
  | [] => some ([], b)
  | args :: rest => do
    let offset ← b.endOffset
    let (ok, b, _) ← b.write offset args.event
    let (oks, b) ← writeAtEnd b rest
    some (ok :: oks, b)

variable {b b' : Evbuf} {evs : List AtomEvent} {ev : AtomEvent} {size offset : Nat}

/-! ## One write -/

/-- Whether the event fits behind `atom.size` is decided in `size_t`, without wrapping where the
sequence fits the capacity. -/
theorem room_eq (hcap : b.capacity < 2 ^ 32) (hroom : 8 + size ≤ b.capacity) :
    wordSub 8 (wordSub 8 b.capacity sizeofAtom) size = b.capacity - 8 - size := by
  have hfirst : wordSub 8 b.capacity sizeofAtom = b.capacity - 8 :=
    wordSub_eq (by simp only [sizeofAtom]; omega) (by norm_num; omega)
  rw [hfirst, wordSub_eq (by omega) (by norm_num; omega)]

/-- An event that does not fit is refused, and changes nothing. -/
theorem write_refused (hsize : b.buf.loadWord 4 0 = some size) (hcap : b.capacity < 2 ^ 32)
    (hroom : 8 + size ≤ b.capacity) (hfit : b.capacity < 8 + size + (16 + ev.body.length)) :
    b.write offset ev = some (false, b, offset) := by
  rw [write, hsize, Option.bind_eq_bind, Option.bind_some, room_eq hcap hroom, if_pos]
  simp only [sizeofAtomEvent]
  omega

/-- An event that fits is written at the offset, and `atom.size` and the offset grow by its padded
size. -/
theorem write_accepted (hbuf : b.buf.size = 32 + b.capacity)
    (hsize : b.buf.loadWord 4 0 = some size) (hcap : b.capacity < 2 ^ 32)
    (hfit : 8 + size + (16 + ev.body.length) ≤ b.capacity) (hoffset : offset ≤ size) :
    b.write offset ev = some (true,
      { b with buf := (b.buf.put (16 + offset) ev.bytes).put 0 (leBytes 4 (size + ev.span)) },
      offset + ev.span) := by
  have hpad := pad8_lt ev.body.length
  have hspan : ev.span = 16 + pad8 ev.body.length := rfl
  have hpadded : atomPadSize (16 + ev.body.length) = ev.span := by
    rw [atomPadSize_eq (by omega), pad8_header, hspan]
  have hwrite : writeEvent b.buf (16 + offset) ev = some (b.buf.put (16 + offset) ev.bytes) :=
    writeEvent_eq (by omega)
  rw [write, hsize, Option.bind_eq_bind, Option.bind_some, room_eq hcap (by omega),
    if_neg (by simp only [sizeofAtomEvent]; omega)]
  simp only [sizeofAtomSequence, sizeofAtomEvent, hwrite, hpadded, Option.bind_eq_bind]
  rw [Option.bind_some, Block.storeWord_eq (by simp only [Block.size_put]; omega),
    Option.bind_some, Nat.mod_eq_of_lt (by omega)]

/-! ## Sequences in a buffer of aligned capacity -/

/-- The buffer is a sequence of the events `evs`, inside a capacity that is a multiple of 8. -/
structure Aligned (b : Evbuf) (evs : List AtomEvent) : Prop where
  size_buf : b.buf.size = 32 + b.capacity
  capacity_lt : b.capacity < 2 ^ 32
  dvd_capacity : 8 ∣ b.capacity
  size : b.buf.loadWord 4 0 = some (8 + spanAll evs)
  type : b.buf.loadWord 4 4 = some b.atomSequence
  events : HoldsEvents b.buf 16 evs
  frames : ∀ ev ∈ evs, ev.frames < 2 ^ 32
  fits : ∀ ev ∈ evs, ev.Fits
  span_le : 16 + spanAll evs ≤ b.capacity

/-- A reset input is an empty sequence. -/
theorem aligned_reset (atomChunk : Nat) {capacity atomSequence : Nat} (hlt : capacity < 2 ^ 32)
    (hdvd : 8 ∣ capacity) (hle : 16 ≤ capacity) (hs : atomSequence < 2 ^ 32) :
    ∃ b, (new capacity atomChunk atomSequence).reset true = some b ∧ b.capacity = capacity ∧
      b.Aligned [] := by
  have hbuf : (new capacity atomChunk atomSequence).buf.size = 32 + capacity := rfl
  exact ⟨_, reset_input (by omega), rfl, ⟨rfl, hlt, hdvd, loadWord_size_resetBuf (by omega),
    loadWord_type_resetBuf (by omega) hs, trivial, by simp, by simp,
    show 16 + 0 ≤ capacity from hle⟩⟩

/-- The size query of a sequence. -/
theorem Aligned.getSize (h : b.Aligned evs) : b.getSize = some (spanAll evs) := by
  simp [Evbuf.getSize, h.size, h.type]

/-- A fresh iterator of `lv2_evbuf_end` is behind the events. -/
theorem Aligned.endOffset (h : b.Aligned evs) : b.endOffset = some (spanAll evs) := by
  have hspan := h.span_le
  have hcap := h.capacity_lt
  rw [Evbuf.endOffset, h.getSize, Option.bind_eq_bind, Option.bind_some,
    atomPadSize_eq (by omega), pad8_of_mod (spanAll_mod evs)]

/-- An event that fits is appended: in an aligned capacity the padded event fits where the event
does. -/
theorem Aligned.append (h : b.Aligned evs) (args : EventArgs)
    (hfit : 8 + (8 + spanAll evs) + (16 + args.body.length) ≤ b.capacity) :
    ∃ b', b.write (spanAll evs) args.event =
        some (true, b', spanAll (evs ++ [args.event])) ∧
      b'.capacity = b.capacity ∧ b'.Aligned (evs ++ [args.event]) := by
  have hbuf := h.size_buf
  have hcap := h.capacity_lt
  have hmod := spanAll_mod evs
  have hspanMod := args.event.span_mod
  have hlen := args.event.length_bytes
  have hbody : args.event.body = args.body := rfl
  have hpad := pad8_lt args.body.length
  have hspan : args.event.span = 16 + pad8 args.body.length := rfl
  have hdvd := h.dvd_capacity
  have hspanAll : spanAll (evs ++ [args.event]) = spanAll evs + args.event.span := by simp
  have hlt : 8 + spanAll evs + args.event.span < 256 ^ 4 := by norm_num; omega
  have hwrite := write_accepted hbuf h.size hcap
    (show 8 + (8 + spanAll evs) + (16 + args.event.body.length) ≤ _ from hfit)
    (show spanAll evs ≤ 8 + spanAll evs by omega)
  rw [← hspanAll] at hwrite
  refine ⟨_, hwrite, rfl, ⟨hbuf, hcap, hdvd, ?_, ?_, ?_, ?_, ?_, ?_⟩⟩
  · rw [Block.loadWord_put_self (by simp only [Block.size_put]; omega) hlt, hspanAll,
      Nat.add_assoc]
  · rw [Block.loadWord_put (.inr (by simp)), Block.loadWord_put (.inl (by omega)), h.type]
  · have hev : (b.buf.put (16 + spanAll evs) args.event.bytes).Holds (16 + spanAll evs)
        args.event.bytes := Block.holds_put_self (by rw [hlen, hbody]; omega)
    rw [holdsEvents_append]
    refine ⟨(h.events.put (.inl le_rfl)).put (.inr (by simp)), ?_, trivial⟩
    exact hev.put (.inr (by simp; omega))
  · exact List.forall_mem_append.2 ⟨h.frames, List.forall_mem_singleton.2 args.frames_lt⟩
  · exact List.forall_mem_append.2 ⟨h.fits, List.forall_mem_singleton.2 args.fits⟩
  · show 16 + spanAll (evs ++ [args.event]) ≤ b.capacity
    omega

/-- An event that does not fit is refused, and the buffer and the iterator stay as they are. -/
theorem Aligned.refuse (h : b.Aligned evs) (args : EventArgs)
    (hfit : b.capacity < 8 + (8 + spanAll evs) + (16 + args.body.length)) :
    b.write (spanAll evs) args.event = some (false, b, spanAll evs) :=
  write_refused h.size h.capacity_lt (by have := h.span_le; omega) hfit

/-- The events whose write returned true. -/
def accepted (events : List EventArgs) (oks : List Bool) : List AtomEvent :=
  ((events.zip oks).filter Prod.snd).map fun p => p.1.event

@[simp] theorem accepted_nil (oks : List Bool) : accepted [] oks = [] := rfl
@[simp] theorem accepted_cons_true (args : EventArgs) (events : List EventArgs) (oks : List Bool) :
    accepted (args :: events) (true :: oks) = args.event :: accepted events oks := rfl
@[simp] theorem accepted_cons_false (args : EventArgs) (events : List EventArgs)
    (oks : List Bool) : accepted (args :: events) (false :: oks) = accepted events oks := rfl

/-- Writing through one iterator at the end appends what is accepted. -/
theorem Aligned.writeEach (h : b.Aligned evs) (events : List EventArgs) :
    ∃ oks b', b.writeEach (spanAll evs) events =
        some (oks, b', spanAll (evs ++ accepted events oks)) ∧ oks.length = events.length ∧
      b'.capacity = b.capacity ∧ b'.Aligned (evs ++ accepted events oks) := by
  induction events generalizing b evs with
  | nil => exact ⟨[], b, by simp [Evbuf.writeEach], rfl, rfl, by simpa⟩
  | cons args rest ih =>
      by_cases hfit : 8 + (8 + spanAll evs) + (16 + args.body.length) ≤ b.capacity
      · obtain ⟨b₁, hwrite, hcap₁, h₁⟩ := h.append args hfit
        obtain ⟨oks, b', hrest, hlen, hcap', h'⟩ := ih h₁
        refine ⟨true :: oks, b', ?_, by simp [hlen], hcap'.trans hcap₁, ?_⟩
        · rw [Evbuf.writeEach, hwrite]
          simp only [Option.bind_eq_bind, Option.bind_some, hrest]
          simp
        · simpa using h'
      · have hwrite := h.refuse args (by omega)
        obtain ⟨oks, b', hrest, hlen, hcap', h'⟩ := ih h
        refine ⟨false :: oks, b', ?_, by simp [hlen], hcap', ?_⟩
        · rw [Evbuf.writeEach, hwrite]
          simp only [Option.bind_eq_bind, Option.bind_some, hrest]
          simp
        · simpa using h'

/-- So does writing each event through a fresh iterator of `lv2_evbuf_end`. -/
theorem Aligned.writeAtEnd (h : b.Aligned evs) (events : List EventArgs) :
    ∃ oks b', b.writeAtEnd events = some (oks, b') ∧ oks.length = events.length ∧
      b'.capacity = b.capacity ∧ b'.Aligned (evs ++ accepted events oks) := by
  induction events generalizing b evs with
  | nil => exact ⟨[], b, rfl, rfl, rfl, by simpa⟩
  | cons args rest ih =>
      by_cases hfit : 8 + (8 + spanAll evs) + (16 + args.body.length) ≤ b.capacity
      · obtain ⟨b₁, hwrite, hcap₁, h₁⟩ := h.append args hfit
        obtain ⟨oks, b', hrest, hlen, hcap', h'⟩ := ih h₁
        refine ⟨true :: oks, b', ?_, by simp [hlen], hcap'.trans hcap₁, ?_⟩
        · simp [Evbuf.writeAtEnd, h.endOffset, hwrite, hrest]
        · simpa using h'
      · have hwrite := h.refuse args (by omega)
        obtain ⟨oks, b', hrest, hlen, hcap', h'⟩ := ih h
        refine ⟨false :: oks, b', ?_, by simp [hlen], hcap', ?_⟩
        · simp [Evbuf.writeAtEnd, h.endOffset, hwrite, hrest]
        · simpa using h'

/-! ## The traversal -/

/-- At an event the iterator is valid, gets the event and moves behind it. -/
theorem Aligned.traverse_cons {pre : List AtomEvent} (h : b.Aligned (pre ++ ev :: evs)) :
    b.isValid (spanAll pre) = some true ∧ b.get (spanAll pre) = some (some ev) ∧
      b.next (spanAll pre) = some (spanAll (pre ++ [ev])) := by
  have hspanAll : spanAll (pre ++ ev :: evs) = spanAll pre + (ev.span + spanAll evs) := by simp
  have hspan := ev.sixteen_le_span
  have hle := h.span_le
  have hcap := h.capacity_lt
  have hheld := ((holdsEvents_append.1 h.events).2).1
  have hframes := h.frames ev (by simp)
  have hfits := h.fits ev (by simp)
  have hvalid : b.isValid (spanAll pre) = some true := by
    rw [isValid, h.getSize, hspanAll]
    simp
    omega
  refine ⟨hvalid, ?_, ?_⟩
  · have hread : readEvent b.buf (16 + spanAll pre) = some ev := readEvent_eq hfits hheld
    simp only [Evbuf.get, hvalid, sizeofAtomSequence, hread, Option.bind_eq_bind,
      Option.bind_some, if_true, Nat.mod_eq_of_lt hframes]
  · have hbody := ((holds_event_iff.1 hheld).2.1).loadWord_of_lt hfits.size
    have hlen : 16 + ev.body.length ≤ ev.span := by
      have := le_pad8 ev.body.length
      rw [AtomEvent.span]
      omega
    have hpadded : atomPadSize (16 + ev.body.length) = ev.span := by
      rw [atomPadSize_eq (by omega), pad8_header, AtomEvent.span]
    simp only [Evbuf.next, hvalid, sizeofAtomSequence, sizeofAtomEvent, hbody,
      Option.bind_eq_bind, Option.bind_some, hpadded, if_true]
    rw [Nat.mod_eq_of_lt (by omega)]
    simp

/-- The traversal from behind some events returns those that follow, and ends behind them all. -/
theorem Aligned.traverse (pre : List AtomEvent) (h : b.Aligned (pre ++ evs)) {fuel : Nat}
    (hfuel : evs.length < fuel) :
    b.traverse fuel (spanAll pre) = some (evs, spanAll (pre ++ evs)) := by
  obtain ⟨fuel, rfl⟩ : ∃ n, fuel = n + 1 := ⟨fuel - 1, by omega⟩
  induction evs generalizing pre fuel with
  | nil =>
      have hend : b.isValid (spanAll pre) = some false := by
        rw [List.append_nil] at h
        rw [isValid, h.getSize]
        simp
      simp [Evbuf.traverse, hend]
  | cons ev evs ih =>
      obtain ⟨hvalid, hget, hnext⟩ := h.traverse_cons
      obtain ⟨fuel, rfl⟩ : ∃ n, fuel = n + 1 := ⟨fuel - 1, by simp at hfuel; omega⟩
      rw [List.append_cons] at h
      have hrest := ih (pre ++ [ev]) h fuel (by simpa using hfuel)
      rw [Evbuf.traverse]
      simp only [hvalid, hget, hnext, hrest, Option.bind_eq_bind, Option.bind_some, if_true]
      simp

/-- There is no more behind the last event. -/
theorem Aligned.isValid_end (h : b.Aligned evs) : b.isValid (spanAll evs) = some false := by
  rw [isValid, h.getSize]
  simp

end Evbuf

/-- The round trip: in a buffer of a capacity that is a multiple of 8 and at least 16, after
`lv2_evbuf_reset`, events written through an iterator of `lv2_evbuf_begin` and then through fresh
iterators of `lv2_evbuf_end` read back in the traversal exactly as they were accepted, and the
traversal ends invalid. A refused write changes nothing. -/
theorem evbuf_roundTrip (capacity atomChunk atomSequence : UInt32) (hdvd : 8 ∣ capacity.toNat)
    (hle : 16 ≤ capacity.toNat) (first rest : List EventArgs) :
    (∃ b₀ oks₁ b₁ offset oks₂ b₂ last,
      (Evbuf.new capacity.toNat atomChunk.toNat atomSequence.toNat).reset true = some b₀ ∧
      b₀.writeEach 0 first = some (oks₁, b₁, offset) ∧ oks₁.length = first.length ∧
      b₁.writeAtEnd rest = some (oks₂, b₂) ∧ oks₂.length = rest.length ∧
      b₂.traverse capacity.toNat 0 =
        some (Evbuf.accepted first oks₁ ++ Evbuf.accepted rest oks₂, last) ∧
      b₂.isValid last = some false) ∧
    ∀ (b b' : Evbuf) offset offset' (args : EventArgs),
      b.write offset args.event = some (false, b', offset') → b' = b ∧ offset' = offset := by
  constructor
  · obtain ⟨b₀, hreset, hcap₀, h₀⟩ := Evbuf.aligned_reset atomChunk.toNat
      capacity.toNat_lt hdvd hle atomSequence.toNat_lt
    obtain ⟨oks₁, b₁, hfirst, hlen₁, hcap₁, h₁⟩ := h₀.writeEach first
    obtain ⟨oks₂, b₂, hrest, hlen₂, hcap₂, h₂⟩ := h₁.writeAtEnd rest
    have hcap : b₂.capacity = capacity.toNat := (hcap₂.trans hcap₁).trans hcap₀
    rw [List.nil_append] at h₂
    have hspan := h₂.span_le
    have hlen := length_le_spanAll (Evbuf.accepted first oks₁ ++ Evbuf.accepted rest oks₂)
    have hfuel : (Evbuf.accepted first oks₁ ++ Evbuf.accepted rest oks₂).length <
        capacity.toNat := by omega
    have htraverse : b₂.traverse capacity.toNat 0 = _ :=
      Evbuf.Aligned.traverse [] h₂ hfuel
    exact ⟨b₀, oks₁, b₁, _, oks₂, b₂, _, hreset, hfirst, hlen₁, hrest, hlen₂, htraverse,
      h₂.isValid_end⟩
  · intro b b' offset offset' args hwrite
    obtain ⟨size, -, hwrite⟩ := Option.bind_eq_some_iff.1 hwrite
    split at hwrite
    · obtain ⟨-, rfl, rfl⟩ : false = false ∧ b = b' ∧ offset = offset' := by simpa using hwrite
      exact ⟨rfl, rfl⟩
    · obtain ⟨_, -, hwrite⟩ := Option.bind_eq_some_iff.1 hwrite
      obtain ⟨_, -, hwrite⟩ := Option.bind_eq_some_iff.1 hwrite
      simp at hwrite

/-- A note-on of three bytes. -/
def noteOnArgs : EventArgs := ⟨0, 7, [0x90, 60, 100], by decide⟩

/-- A buffer of 40 bytes takes the first of two note-ons and refuses the second. -/
theorem evbuf_roundTrip_noteOn :
    ∃ b₀ b₁ offset b₂ last, (Evbuf.new 40 1 2).reset true = some b₀ ∧
      b₀.writeEach 0 [noteOnArgs] = some ([true], b₁, offset) ∧
      b₁.writeAtEnd [noteOnArgs] = some ([false], b₂) ∧
      b₂.traverse 40 0 = some ([noteOnArgs.event], last) := by
  obtain ⟨⟨b₀, oks₁, b₁, offset, oks₂, b₂, last, h1, h2, -, h3, -, h4, -⟩, -⟩ :=
    evbuf_roundTrip 40 1 2 (by decide) (by decide) [noteOnArgs] [noteOnArgs]
  have hfirst : ((Evbuf.new 40 1 2).reset true >>= fun b =>
      (b.writeEach 0 [noteOnArgs]).map Prod.fst) = some [true] := rfl
  have hsecond : ((Evbuf.new 40 1 2).reset true >>= fun b => b.writeEach 0 [noteOnArgs] >>=
      fun r => (r.2.1.writeAtEnd [noteOnArgs]).map Prod.fst) = some [false] := rfl
  replace h1 : (Evbuf.new 40 1 2).reset true = some b₀ := h1
  obtain rfl : oks₁ = [true] := by simpa [h1, h2] using hfirst
  obtain rfl : oks₂ = [false] := by simpa [h1, h2, h3] using hsecond
  exact ⟨b₀, b₁, offset, b₂, last, h1, h2, h3, h4⟩

end Soundcan.Galv
