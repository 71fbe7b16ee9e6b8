import Soundcan.Lib.Bytes

/-!
# LV2 atom sequences in memory

The layout of `LV2_Atom_Sequence` and the inline functions of the LV2 atom headers that the hosts
and the plugin of this repository call. A sequence starts with its `LV2_Atom` (size, type) and the
sequence body header (unit, pad); its events follow from offset 16, each a 16-byte header
(`time.frames`, `body.size`, `body.type`) and a body padded to 8 bytes. `atom.size` counts the
body header and the padded events.

`HoldsEvents` states which events a block holds from an offset on; every reader of the repository
is shown to return exactly those.
-/

namespace Soundcan.Lv2

open Bytes

/-! ## Sizes -/

/-- `sizeof(LV2_Atom)`. -/
abbrev sizeofAtom : Nat := 8

/-- `sizeof(LV2_Atom_Sequence_Body)`. -/
abbrev sizeofAtomSequenceBody : Nat := 8

/-- `sizeof(LV2_Atom_Sequence)`. -/
abbrev sizeofAtomSequence : Nat := 16

/-- `sizeof(LV2_Atom_Event)`. -/
abbrev sizeofAtomEvent : Nat := 16

/-- `lv2_atom_pad_size`: `(size + 7U) & (~7U)` on 32-bit words. -/
def atomPadSize (size : Nat) : Nat := (size + 7) % 2 ^ 32 / 8 * 8

/-- The next multiple of 8. -/
def pad8 (n : Nat) : Nat := (n + 7) / 8 * 8

/-- Padding is the next multiple of 8 as long as the addition does not wrap. -/
theorem atomPadSize_eq {n : Nat} (h : n + 7 < 2 ^ 32) : atomPadSize n = pad8 n := by
  rw [atomPadSize, Nat.mod_eq_of_lt h, pad8]

/-- Padding makes nothing smaller. -/
theorem le_pad8 (n : Nat) : n ≤ pad8 n := by
  rw [pad8]; omega

/-- Padding adds less than eight. -/
theorem pad8_lt (n : Nat) : pad8 n < n + 8 := by
  rw [pad8]; omega

/-- Padding ends at a multiple of eight. -/
theorem pad8_mod (n : Nat) : pad8 n % 8 = 0 := by
  rw [pad8]; omega

/-- Padding a size with the 16-byte event header in front pads the size alone. -/
theorem pad8_header (n : Nat) : pad8 (16 + n) = 16 + pad8 n := by
  rw [pad8, pad8]; omega

/-- A multiple of 8 is its own padding. -/
theorem pad8_of_mod {n : Nat} (h : n % 8 = 0) : pad8 n = n := by
  rw [pad8]; omega

/-! ## Events -/

/-- An event of a sequence: `LV2_Atom_Event` with its body. -/
structure AtomEvent where
  frames : Nat
  type : Nat
  body : List UInt8
  deriving DecidableEq, Repr

namespace AtomEvent

/-- The bytes of an event: header and body, without the padding. -/
def bytes (ev : AtomEvent) : List UInt8 :=
  leBytes 8 ev.frames ++ (leBytes 4 ev.body.length ++ (leBytes 4 ev.type ++ ev.body))

/-- The bytes an event takes in a sequence: header and padded body. -/
def span (ev : AtomEvent) : Nat := 16 + pad8 ev.body.length

/-- The fields fit their words. -/
structure Fits (ev : AtomEvent) : Prop where
  frames : ev.frames < 2 ^ 64
  type : ev.type < 2 ^ 32
  size : ev.body.length < 2 ^ 32

@[simp] theorem length_bytes (ev : AtomEvent) : ev.bytes.length = 16 + ev.body.length := by
  simp [bytes]; omega

/-- An event is inside its span. -/
theorem length_bytes_le_span (ev : AtomEvent) : ev.bytes.length ≤ ev.span := by
  have := le_pad8 ev.body.length
  simp [span]; omega

/-- A span is a multiple of eight. -/
theorem span_mod (ev : AtomEvent) : ev.span % 8 = 0 := by
  have := pad8_mod ev.body.length
  rw [span]; omega

/-- The header alone takes sixteen bytes. -/
theorem sixteen_le_span (ev : AtomEvent) : 16 ≤ ev.span := by
  rw [span]; omega

end AtomEvent

/-- The bytes a list of events takes. -/
def spanAll (evs : List AtomEvent) : Nat := (evs.map AtomEvent.span).sum

@[simp] theorem spanAll_nil : spanAll [] = 0 := rfl
@[simp] theorem spanAll_cons (ev : AtomEvent) (evs : List AtomEvent) :
    spanAll (ev :: evs) = ev.span + spanAll evs := rfl
@[simp] theorem spanAll_append (xs ys : List AtomEvent) :
    spanAll (xs ++ ys) = spanAll xs + spanAll ys := by
  simp [spanAll]

/-- The spans of events end at a multiple of eight. -/
theorem spanAll_mod (evs : List AtomEvent) : spanAll evs % 8 = 0 := by
  induction evs with
  | nil => rfl
  | cons ev evs ih =>
      have := ev.span_mod
      rw [spanAll_cons]; omega

/-- The block holds the events `evs` one after the other from offset `a`. -/
def HoldsEvents (b : Block) : Nat → List AtomEvent → Prop
  | _, [] => True
  | a, ev :: evs => b.Holds a ev.bytes ∧ HoldsEvents b (a + ev.span) evs

/-- Events appended to a list lie past the events before them. -/
theorem holdsEvents_append {b : Block} {xs ys : List AtomEvent} {a : Nat} :
    HoldsEvents b a (xs ++ ys) ↔ HoldsEvents b a xs ∧ HoldsEvents b (a + spanAll xs) ys := by
  induction xs generalizing a with
  | nil => simp [HoldsEvents]
  | cons x xs ih =>
      rw [List.cons_append, HoldsEvents, HoldsEvents, ih, spanAll_cons, Nat.add_assoc, and_assoc]

/-- A write past the events, or before them, keeps them. -/
theorem HoldsEvents.put {b : Block} {evs : List AtomEvent} {a c : Nat} {bs : List UInt8}
    (h : HoldsEvents b a evs) (hd : a + spanAll evs ≤ c ∨ c + bs.length ≤ a) :
    HoldsEvents (b.put c bs) a evs := by
  induction evs generalizing a with
  | nil => trivial
  | cons ev evs ih =>
      have hle := ev.length_bytes_le_span
      rw [spanAll_cons] at hd
      exact ⟨h.1.put (by omega), ih h.2 (by omega)⟩

/-! ## Reading events -/

/-- The event whose header is at offset `a`. -/
def readEvent (b : Block) (a : Nat) : Option AtomEvent := do
  let frames ← b.loadWord 8 a
  let size ← b.loadWord 4 (a + 8)
  let type ← b.loadWord 4 (a + 12)
  let body ← b.load (a + 16) size
  pure ⟨frames, type, body⟩

/-- The four fields of an event, held one after the other. -/
theorem holds_event_iff {b : Block} {a : Nat} {ev : AtomEvent} :
    b.Holds a ev.bytes ↔ b.Holds a (leBytes 8 ev.frames) ∧
      b.Holds (a + 8) (leBytes 4 ev.body.length) ∧ b.Holds (a + 12) (leBytes 4 ev.type) ∧
      b.Holds (a + 16) ev.body := by
  simp [AtomEvent.bytes, Block.holds_append, Nat.add_assoc]

/-- A held event reads back. -/
theorem readEvent_eq {b : Block} {a : Nat} {ev : AtomEvent} (hf : ev.Fits)
    (h : b.Holds a ev.bytes) : readEvent b a = some ev := by
  obtain ⟨h1, h2, h3, h4⟩ := holds_event_iff.1 h
  simp [readEvent, h1.loadWord_of_lt hf.frames, h2.loadWord_of_lt hf.size,
    h3.loadWord_of_lt hf.type, h4.load]

/-- `LV2_ATOM_SEQUENCE_FOREACH`: the events from offset `a` up to offset `e`. The offset grows by
at least 16 a step, so `e` steps are enough. -/
def readEvents (b : Block) (e : Nat) : Nat → Nat → Option (List AtomEvent)
  | 0, a => if e ≤ a then some [] else none
  | fuel + 1, a =>
    if e ≤ a then some []
    else do
      let ev ← readEvent b a
      let evs ← readEvents b e fuel (a + 16 + atomPadSize ev.body.length)
      pure (ev :: evs)

/-- The events of the sequence at the start of a block. -/
def sequenceEvents (b : Block) : Option (List AtomEvent) := do
  let size ← b.loadWord 4 0
  readEvents b (sizeofAtom + size) (sizeofAtom + size) sizeofAtomSequence

/-- Reading up to the end of the held events returns them. -/
theorem readEvents_eq {b : Block} {evs : List AtomEvent} {a e fuel : Nat}
    (hf : ∀ ev ∈ evs, ev.Fits) (h : HoldsEvents b a evs) (he : e = a + spanAll evs)
    (he' : e < 2 ^ 32) (hfuel : evs.length ≤ fuel) : readEvents b e fuel a = some evs := by
  induction evs generalizing a fuel with
  | nil => cases fuel <;> simp_all [readEvents]
  | cons ev evs ih =>
      obtain ⟨fuel, rfl⟩ : ∃ n, fuel = n + 1 := ⟨fuel - 1, by simp at hfuel; omega⟩
      rw [spanAll_cons] at he
      have hspan := ev.sixteen_le_span
      have hle := le_pad8 ev.body.length
      have hlt := pad8_lt ev.body.length
      have hpad : atomPadSize ev.body.length = pad8 ev.body.length := by
        apply atomPadSize_eq
        rw [AtomEvent.span] at he
        omega
      have hnext : a + 16 + pad8 ev.body.length = a + ev.span := by
        rw [AtomEvent.span]; omega
      rw [readEvents, if_neg (by omega), readEvent_eq (hf ev (by simp)) h.1]
      simp only [Option.bind_eq_bind, Option.bind_some, hpad, hnext]
      rw [ih (fun x hx => hf x (by simp [hx])) h.2 (by omega) (by simpa using hfuel)]
      rfl

/-! ## Sequences -/

/-- The block is an `LV2_Atom_Sequence` with the events `evs`: `atom.size` is 8 more than their
span, and they start at offset 16. -/
structure IsSequence (b : Block) (evs : List AtomEvent) : Prop where
  size : b.loadWord 4 0 = some (8 + spanAll evs)
  events : HoldsEvents b 16 evs
  fits : ∀ ev ∈ evs, ev.Fits
  bound : 16 + spanAll evs ≤ b.size
  small : b.size < 2 ^ 32

/-- There are at most as many events as bytes. -/
theorem length_le_spanAll (evs : List AtomEvent) : evs.length ≤ spanAll evs := by
  induction evs with
  | nil => simp
  | cons ev evs ih =>
      have := ev.sixteen_le_span
      simp; omega

/-- A reader of the sequence gets exactly its events. -/
theorem IsSequence.sequenceEvents {b : Block} {evs : List AtomEvent} (h : IsSequence b evs) :
    sequenceEvents b = some evs := by
  have hb := h.bound
  have hs := h.small
  have hl := length_le_spanAll evs
  simp only [Lv2.sequenceEvents, h.size, Option.bind_eq_bind, Option.bind_some, sizeofAtom,
    sizeofAtomSequence]
  exact readEvents_eq h.fits h.events (by omega) (by omega) (by omega)

/-- `lv2_atom_sequence_clear`: `seq->atom.size = sizeof(LV2_Atom_Sequence_Body)`. -/
def sequenceClear (b : Block) : Option Block := b.storeWord 4 0 sizeofAtomSequenceBody

/-- Clearing a buffer leaves an empty sequence. -/
theorem sequenceClear_spec {b : Block} (hb : 16 ≤ b.size) (hs : b.size < 2 ^ 32) :
    ∃ b', sequenceClear b = some b' ∧ IsSequence b' [] ∧ b'.size = b.size := by
  refine ⟨_, Block.storeWord_eq (by omega), ⟨?_, trivial, by simp, by simpa using hb, hs⟩, rfl⟩
  exact Block.loadWord_put_self (by omega) (by norm_num)

/-- The field writes of one event at offset `a`, in the order in which both hosts make them:
`time.frames`, `body.type`, `body.size`, and `memcpy` of the body. -/
def writeEvent (b : Block) (a : Nat) (ev : AtomEvent) : Option Block := do
  let b ← b.storeWord 8 a ev.frames
  let b ← b.storeWord 4 (a + 12) ev.type
  let b ← b.storeWord 4 (a + 8) ev.body.length
  b.store (a + 16) ev.body

/-- The field writes put the bytes of the event. -/
theorem writeEvent_eq {b : Block} {a : Nat} {ev : AtomEvent}
    (h : a + 16 + ev.body.length ≤ b.size) : writeEvent b a ev = some (b.put a ev.bytes) := by
  have hcomm : ((b.put a (leBytes 8 ev.frames)).put (a + 12) (leBytes 4 ev.type)).put (a + 8)
        (leBytes 4 ev.body.length) =
      ((b.put a (leBytes 8 ev.frames)).put (a + 8) (leBytes 4 ev.body.length)).put (a + 12)
        (leBytes 4 ev.type) := Block.put_comm (by simp)
  simp only [writeEvent, Option.bind_eq_bind]
  rw [Block.storeWord_eq (by omega), Option.bind_some,
    Block.storeWord_eq (by simp only [Block.size_put]; omega), Option.bind_some,
    Block.storeWord_eq (by simp only [Block.size_put]; omega), Option.bind_some, hcomm,
    Block.store_eq (by simp only [Block.size_put]; omega)]
  simp [AtomEvent.bytes, Block.put_append, Nat.add_assoc]

/-- Field writes that succeed are inside the block. -/
theorem writeEvent_eq_some_iff {b b' : Block} {a : Nat} {ev : AtomEvent} :
    writeEvent b a ev = some b' ↔
      a + 16 + ev.body.length ≤ b.size ∧ b.put a ev.bytes = b' := by
  constructor
  · intro h
    obtain ⟨b₁, h₁, h'⟩ := Option.bind_eq_some_iff.1 h
    obtain ⟨b₂, h₂, h'⟩ := Option.bind_eq_some_iff.1 h'
    obtain ⟨b₃, h₃, h'⟩ := Option.bind_eq_some_iff.1 h'
    obtain ⟨-, rfl⟩ := Block.store_eq_some_iff.1 h₁
    obtain ⟨-, rfl⟩ := Block.store_eq_some_iff.1 h₂
    obtain ⟨-, rfl⟩ := Block.store_eq_some_iff.1 h₃
    have hle : a + 16 + ev.body.length ≤ b.size := (Block.store_eq_some_iff.1 h').1
    rw [writeEvent_eq hle] at h
    exact ⟨hle, Option.some.inj h⟩
  · rintro ⟨hle, rfl⟩
    exact writeEvent_eq hle

/-- Writing an event at the end of a sequence and growing `atom.size` by its padded size appends
the event. -/
theorem IsSequence.append {b : Block} {evs : List AtomEvent} {ev : AtomEvent}
    (h : IsSequence b evs) (hf : ev.Fits) (hb : 16 + spanAll evs + ev.span ≤ b.size) :
    IsSequence ((b.put (16 + spanAll evs) ev.bytes).put 0
      (leBytes 4 (8 + spanAll evs + ev.span))) (evs ++ [ev]) := by
  have hs := h.small
  have hle := ev.length_bytes_le_span
  have hlt : 8 + spanAll evs + ev.span < 256 ^ 4 := by norm_num; omega
  refine ⟨?_, ?_, ?_, by simpa [Nat.add_assoc] using hb, hs⟩
  · rw [Block.loadWord_put_self (by simp; omega) hlt]
    simp [Nat.add_assoc]
  · rw [holdsEvents_append]
    have hev : (b.put (16 + spanAll evs) ev.bytes).Holds (16 + spanAll evs) ev.bytes :=
      Block.holds_put_self (by omega)
    refine ⟨(h.events.put (.inl (by omega))).put (.inr (by simp)), ?_, trivial⟩
    exact hev.put (.inr (by simp; omega))
  · intro x hx
    rcases List.mem_append.1 hx with hx | hx
    · exact h.fits x hx
    · rw [List.mem_singleton.1 hx]; exact hf

/-- `lv2_atom_sequence_append_event`: `capacity - seq->atom.size` is compared with the unpadded
size on 32-bit words; an event that does not fit is dropped. -/
def sequenceAppendEvent (b : Block) (capacity : Nat) (ev : AtomEvent) : Option Block := do
  let size ← b.loadWord 4 0
  let totalSize := sizeofAtomEvent + ev.body.length
  if wordSub 4 capacity size < totalSize then
    pure b
  else
    let b ← b.store (sizeofAtom + atomPadSize size) ev.bytes
    b.storeWord 4 0 (size + atomPadSize totalSize)

/-- An event that fits is appended. -/
theorem sequenceAppendEvent_spec {b : Block} {evs : List AtomEvent} {ev : AtomEvent}
    {capacity : Nat} (h : IsSequence b evs) (hf : ev.Fits) (hc : capacity + 8 ≤ b.size)
    (hfit : 8 + spanAll evs + ev.span ≤ capacity) :
    ∃ b', sequenceAppendEvent b capacity ev = some b' ∧ IsSequence b' (evs ++ [ev]) ∧
      b'.size = b.size := by
  have hs := h.small
  have hle := ev.length_bytes_le_span
  have hmod := spanAll_mod evs
  have hpad : atomPadSize (8 + spanAll evs) = 8 + spanAll evs := by
    rw [atomPadSize_eq (by omega), pad8_of_mod (by omega)]
  have hspan : pad8 (16 + ev.body.length) = ev.span := pad8_header _
  have hpad' : atomPadSize (16 + ev.body.length) = ev.span := by
    have := AtomEvent.length_bytes ev
    rw [atomPadSize_eq (by omega), hspan]
  have hroom : wordSub 4 capacity (8 + spanAll evs) = capacity - (8 + spanAll evs) :=
    wordSub_eq (by omega) (by norm_num; omega)
  have hlen := AtomEvent.length_bytes ev
  have hoff : 8 + (8 + spanAll evs) = 16 + spanAll evs := by omega
  refine ⟨_, ?_, h.append hf (by omega), rfl⟩
  rw [sequenceAppendEvent, h.size, Option.bind_eq_bind, Option.bind_some]
  simp only [hroom, sizeofAtomEvent, sizeofAtom, hpad, hpad', hoff]
  rw [if_neg (by omega), Block.store_eq (by omega), Option.bind_eq_bind, Option.bind_some,
    Block.storeWord_eq (by simp only [Block.size_put]; omega)]

/-- A list of events that fit is appended in order. -/
theorem foldlM_sequenceAppendEvent {b : Block} {old evs : List AtomEvent} {capacity : Nat}
    (h : IsSequence b old) (hf : ∀ ev ∈ evs, ev.Fits) (hc : capacity + 8 ≤ b.size)
    (hfit : 8 + spanAll (old ++ evs) ≤ capacity) :
    ∃ b', evs.foldlM (fun b ev => sequenceAppendEvent b capacity ev) b = some b' ∧
      IsSequence b' (old ++ evs) ∧ b'.size = b.size := by
  induction evs generalizing b old with
  | nil => exact ⟨b, rfl, by simpa using h, rfl⟩
  | cons ev evs ih =>
      rw [spanAll_append, spanAll_cons] at hfit
      obtain ⟨b₁, hstep, h₁, hb₁⟩ := sequenceAppendEvent_spec h (hf ev (by simp)) hc (by omega)
      obtain ⟨b', hrest, h', hb'⟩ := ih h₁ (fun x hx => hf x (by simp [hx])) (by omega)
        (by simp only [spanAll_append, spanAll_cons, spanAll_nil]; omega)
      refine ⟨b', ?_, by simpa using h', hb'.trans hb₁⟩
      rw [List.foldlM_cons, hstep]
      exact hrest

/-! ## What appending leaves alone -/

/-- Appending an event leaves the rest of the headers and what lies behind the event. -/
theorem sequenceAppendEvent_byte {b b' : Block} {evs : List AtomEvent} {ev : AtomEvent}
    {capacity i : Nat} (h : IsSequence b evs) (hb' : sequenceAppendEvent b capacity ev = some b')
    (hi : 4 ≤ i ∧ i < 16 ∨ 16 + spanAll evs + ev.span ≤ i) : b'.byte i = b.byte i := by
  have hbound := h.bound
  have hsmall := h.small
  have hmod := spanAll_mod evs
  have hle := ev.length_bytes_le_span
  have hpad : atomPadSize (8 + spanAll evs) = 8 + spanAll evs := by
    rw [atomPadSize_eq (by omega), pad8_of_mod (by omega)]
  rw [sequenceAppendEvent, h.size, Option.bind_eq_bind, Option.bind_some, hpad] at hb'
  dsimp only at hb'
  split at hb'
  next =>
    obtain rfl := Option.some.inj hb'
    rfl
  next =>
    obtain ⟨b₁, hstore, hb'⟩ := Option.bind_eq_some_iff.1 hb'
    obtain ⟨-, rfl⟩ := Block.store_eq_some_iff.1 hstore
    obtain ⟨-, rfl⟩ := Block.store_eq_some_iff.1 hb'
    rw [Block.byte_put (.inr (by simp; omega)), Block.byte_put (by simp only [sizeofAtom]; omega)]

/-- So does appending a list of events that fit. -/
theorem foldlM_sequenceAppendEvent_byte {b b' : Block} {old evs : List AtomEvent}
    {capacity i : Nat} (h : IsSequence b old) (hf : ∀ ev ∈ evs, ev.Fits)
    (hc : capacity + 8 ≤ b.size) (hfit : 8 + spanAll (old ++ evs) ≤ capacity)
    (hb' : evs.foldlM (fun b ev => sequenceAppendEvent b capacity ev) b = some b')
    (hi : 4 ≤ i ∧ i < 16 ∨ 16 + spanAll (old ++ evs) ≤ i) : b'.byte i = b.byte i := by
  induction evs generalizing b old with
  | nil =>
      obtain rfl := Option.some.inj hb'
      rfl
  | cons ev evs ih =>
      rw [spanAll_append, spanAll_cons] at hfit hi
      obtain ⟨b₁, hstep, h₁, hb₁⟩ := sequenceAppendEvent_spec h (hf ev (by simp)) hc (by omega)
      rw [List.foldlM_cons, hstep] at hb'
      have hrest : b'.byte i = b₁.byte i := by
        refine ih h₁ (fun x hx => hf x (by simp [hx])) (by omega) ?_ hb' ?_
        · simp only [spanAll_append, spanAll_cons, spanAll_nil]; omega
        · simp only [spanAll_append, spanAll_cons, spanAll_nil]; omega
      rw [hrest, sequenceAppendEvent_byte h hstep (by omega)]

/-- Events are held wherever the bytes from their offset on are the same. -/
theorem HoldsEvents.congr {b b' : Block} {evs : List AtomEvent} {a : Nat}
    (h : HoldsEvents b a evs) (hsize : b'.size = b.size)
    (hbyte : ∀ i, a ≤ i → b'.byte i = b.byte i) : HoldsEvents b' a evs := by
  induction evs generalizing a with
  | nil => trivial
  | cons ev evs ih =>
      refine ⟨⟨hsize ▸ h.1.1, fun i hi => ?_⟩, ih h.2 fun i hi => hbyte i (by omega)⟩
      rw [hbyte _ (by omega), h.1.2 i hi]

end Soundcan.Lv2
