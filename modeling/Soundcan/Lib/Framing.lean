import Soundcan.Lib.Fifo
import Soundcan.Lib.Transition

/-!
# Frames in a byte queue

A frame is a header of fixed length and a body whose length the header gives. A reader call takes
the space it sees on entry as its bound and then reads headers and bodies in turn; the writer may
add frames between any two of these reads (`Framing.channel`). Whatever the interleaving, what the
reader decodes is a prefix of what was accepted, and it is between two frames when its call ends
(`Framing.channelInv_of_run`). A call that runs undisturbed handles every frame it saw
(`Framing.readLoop_eq`).
-/

open ByteRing

/-- A format of frames for messages `μ` with parsed headers `η`, as one writer and one reader
implement it: `amend` is what the writer gives to a transaction, `readBody` what the reader does
behind a header. `Valid` messages are those that the reader can take. -/
structure Framing (μ η : Type) where
  Valid : μ → Prop
  headerSize : Nat
  header : μ → List UInt8
  body : μ → List UInt8
  amend : μ → Transaction → Option Transaction
  parse : List UInt8 → η
  bodySize : η → Nat
  readBody : η → ByteRing → Option (μ × ByteRing)
  headerSize_pos : 0 < headerSize
  length_header : ∀ m, (header m).length = headerSize
  amend_eq : ∀ m tx, Valid m → amend m tx = tx.amendWrite (header m ++ body m)
  bodySize_parse : ∀ m, Valid m → bodySize (parse (header m)) = (body m).length
  readBody_parse : ∀ m (r : ByteRing) rest, Valid m → r.bytes = body m ++ rest →
    readBody (parse (header m)) r = some (m, { r with bytes := rest })

namespace Framing

variable {μ η σ : Type} (fr : Framing μ η)

/-- The bytes of a message. -/
def encode (m : μ) : List UInt8 := fr.header m ++ fr.body m

/-- The bytes of a list of messages. -/
def encodeAll (ms : List μ) : List UInt8 := ms.flatMap fr.encode

@[simp] theorem length_encode (m : μ) :
    (fr.encode m).length = fr.headerSize + (fr.body m).length := by
  rw [encode, List.length_append, fr.length_header]

@[simp] theorem encodeAll_nil : fr.encodeAll [] = [] := rfl
@[simp] theorem encodeAll_cons (m : μ) (ms : List μ) :
    fr.encodeAll (m :: ms) = fr.encode m ++ fr.encodeAll ms := rfl
@[simp] theorem encodeAll_append (xs ys : List μ) :
    fr.encodeAll (xs ++ ys) = fr.encodeAll xs ++ fr.encodeAll ys := List.flatMap_append

/-- No message is encoded as nothing. -/
theorem length_encode_pos (m : μ) : 0 < (fr.encode m).length := by
  have := fr.headerSize_pos
  rw [length_encode]
  omega

/-! ## One reader call, undisturbed -/

/-- The reader's loop with a handler of messages, given the steps it may take. It is undefined when
a read or the handler is. -/
def readLoop (handle : σ → μ → Option σ) : Nat → Nat → Nat → ByteRing → σ → Option (ByteRing × σ)
  | 0, _, _, _, _ => none
  | fuel + 1, i, space, r, s =>
    if i < space then do
      let (bytes, r) ← r.read fr.headerSize
      let h := fr.parse bytes
      let (m, r) ← fr.readBody h r
      let s ← handle s m
      readLoop handle fuel (i + (fr.headerSize + fr.bodySize h)) space r s
    else
      some (r, s)

/-- A reader call: the loop up to the space seen on entry. -/
def readAll (handle : σ → μ → Option σ) (r : ByteRing) (s : σ) : Option (ByteRing × σ) :=
  fr.readLoop handle (r.readSpace + 1) 0 r.readSpace r s

/-- Reading the header of the message in front. -/
theorem read_header {r : ByteRing} {m : μ} {rest : List UInt8}
    (hr : r.bytes = fr.encode m ++ rest) :
    r.read fr.headerSize = some (fr.header m, { r with bytes := fr.body m ++ rest }) := by
  rw [← fr.length_header m]
  exact ByteRing.read_append (by rw [hr, encode, List.append_assoc])

/-- One round of the loop, on a message that the reader can take. -/
theorem readLoop_valid (handle : σ → μ → Option σ) {m : μ} (hm : fr.Valid m) (fuel : Nat)
    {i space : Nat} (hi : i < space) {r : ByteRing} {rest : List UInt8}
    (hr : r.bytes = fr.encode m ++ rest) (s : σ) :
    fr.readLoop handle (fuel + 1) i space r s = (handle s m).bind fun s =>
      fr.readLoop handle fuel (i + (fr.encode m).length) space { r with bytes := rest } s := by
  rw [readLoop, if_pos hi, fr.read_header hr]
  simp only [Option.bind_eq_bind, Option.bind_some, fr.bodySize_parse m hm, length_encode]
  rw [fr.readBody_parse m _ rest hm rfl, Option.bind_some]

/-- The loop handles the messages whose bytes it may read, in order, and leaves the bytes behind
them. -/
theorem readLoop_eq (handle : σ → μ → Option σ) {ms : List μ} (hv : ∀ m ∈ ms, fr.Valid m)
    (fuel i : Nat) (r : ByteRing) {rest : List UInt8} (hr : r.bytes = fr.encodeAll ms ++ rest)
    (hfuel : ms.length < fuel) (s : σ) :
    fr.readLoop handle fuel i (i + (fr.encodeAll ms).length) r s =
      (ms.foldlM handle s).map fun s => ({ r with bytes := rest }, s) := by
  induction ms generalizing fuel i r s with
  | nil =>
      obtain ⟨fuel, rfl⟩ : ∃ n, fuel = n + 1 := ⟨fuel - 1, by simp at hfuel; omega⟩
      rw [readLoop, if_neg (by simp)]
      simp [← show r.bytes = rest from hr]
  | cons m ms ih =>
      obtain ⟨fuel, rfl⟩ : ∃ n, fuel = n + 1 := ⟨fuel - 1, by simp at hfuel; omega⟩
      have hpos := fr.length_encode_pos m
      have hi : i + (fr.encodeAll (m :: ms)).length =
          i + (fr.encode m).length + (fr.encodeAll ms).length := by
        rw [encodeAll_cons, List.length_append, Nat.add_assoc]
      have hr' : r.bytes = fr.encode m ++ (fr.encodeAll ms ++ rest) := by
        rw [hr, encodeAll_cons, List.append_assoc]
      rw [fr.readLoop_valid handle (hv m List.mem_cons_self) fuel (by omega) hr',
        List.foldlM_cons, Option.bind_eq_bind, hi]
      cases handle s m with
      | none => rfl
      | some s' =>
          exact ih (fun x hx => hv x (List.mem_cons_of_mem _ hx)) fuel _ _ rfl
            (by simpa using hfuel) s'

/-- Where the reader cannot take a message, the loop is defined exactly when all are valid and
handled. -/
theorem isSome_readLoop_iff (handle : σ → μ → Option σ) {ms : List μ}
    (hbad : ∀ m ∈ ms, ¬fr.Valid m → ∀ (r : ByteRing) (rest : List UInt8),
      r.bytes = fr.body m ++ rest → fr.readBody (fr.parse (fr.header m)) r = none)
    (fuel i : Nat) (r : ByteRing) (hr : r.bytes = fr.encodeAll ms) (hfuel : ms.length < fuel)
    (s : σ) :
    (fr.readLoop handle fuel i (i + (fr.encodeAll ms).length) r s).isSome ↔
      (∀ m ∈ ms, fr.Valid m) ∧ (ms.foldlM handle s).isSome := by
  by_cases hv : ∀ m ∈ ms, fr.Valid m
  · have hr' : r.bytes = fr.encodeAll ms ++ [] := by rw [hr, List.append_nil]
    rw [fr.readLoop_eq handle hv fuel i r hr' hfuel]
    simpa using fun _ => hv
  · refine iff_of_false ?_ (fun h => hv h.1)
    induction ms generalizing fuel i r s with
    | nil => simp at hv
    | cons m ms ih =>
        obtain ⟨fuel, rfl⟩ : ∃ n, fuel = n + 1 := ⟨fuel - 1, by simp at hfuel; omega⟩
        have hpos := fr.length_encode_pos m
        have hlen : (fr.encodeAll (m :: ms)).length =
            (fr.encode m).length + (fr.encodeAll ms).length := by
          rw [encodeAll_cons, List.length_append]
        have hr' : r.bytes = fr.encode m ++ fr.encodeAll ms := hr
        by_cases hm : fr.Valid m
        · rw [fr.readLoop_valid handle hm fuel (by omega) hr']
          cases handle s m with
          | none => simp
          | some s' =>
              have hms : ¬∀ x ∈ ms, fr.Valid x := fun h => hv (List.forall_mem_cons.2 ⟨hm, h⟩)
              have hi : i + ((fr.encode m).length + (fr.encodeAll ms).length) =
                  i + (fr.encode m).length + (fr.encodeAll ms).length := by omega
              rw [Option.bind_some, hlen, hi]
              exact ih (fun x hx => hbad x (List.mem_cons_of_mem _ hx)) fuel _ _ rfl
                (by simpa using hfuel) s' hms
        · have hnone :=
            hbad m List.mem_cons_self hm ⟨r.capacity, fr.body m ++ fr.encodeAll ms⟩ _ rfl
          rw [readLoop, if_pos (by omega), fr.read_header hr']
          simp [hnone]

/-- There are at most as many messages as bytes. -/
theorem length_le_encodeAll (ms : List μ) : ms.length ≤ (fr.encodeAll ms).length := by
  induction ms with
  | nil => simp
  | cons m ms ih =>
      have := fr.length_encode_pos m
      rw [encodeAll_cons, List.length_append, List.length_cons]
      omega

/-- A reader call handles every message in the queue. -/
theorem readAll_eq (handle : σ → μ → Option σ) {ms : List μ} (hv : ∀ m ∈ ms, fr.Valid m)
    {r : ByteRing} (hr : r.bytes = fr.encodeAll ms) (s : σ) :
    fr.readAll handle r s = (ms.foldlM handle s).map fun s => ({ r with bytes := [] }, s) := by
  have hle := fr.length_le_encodeAll ms
  have hr' : r.bytes = fr.encodeAll ms ++ [] := by rw [hr, List.append_nil]
  have hloop := fr.readLoop_eq handle hv (r.readSpace + 1) 0 r hr'
    (by rw [ByteRing.readSpace, hr]; omega) s
  rw [Nat.zero_add, ← hr] at hloop
  exact hloop

/-- Where the reader cannot take a message, a call is defined exactly when all are valid and
handled. -/
theorem isSome_readAll_iff (handle : σ → μ → Option σ) {ms : List μ}
    (hbad : ∀ m ∈ ms, ¬fr.Valid m → ∀ (r : ByteRing) (rest : List UInt8),
      r.bytes = fr.body m ++ rest → fr.readBody (fr.parse (fr.header m)) r = none)
    {r : ByteRing} (hr : r.bytes = fr.encodeAll ms) (s : σ) :
    (fr.readAll handle r s).isSome ↔ (∀ m ∈ ms, fr.Valid m) ∧ (ms.foldlM handle s).isSome := by
  have hle := fr.length_le_encodeAll ms
  have hloop := fr.isSome_readLoop_iff handle hbad (r.readSpace + 1) 0 r hr
    (by rw [ByteRing.readSpace, hr]; omega) s
  rw [Nat.zero_add, ← hr] at hloop
  exact hloop

/-- A call that is defined empties the queue. -/
theorem bytes_of_readAll (handle : σ → μ → Option σ) {ms : List μ}
    (hbad : ∀ m ∈ ms, ¬fr.Valid m → ∀ (r : ByteRing) (rest : List UInt8),
      r.bytes = fr.body m ++ rest → fr.readBody (fr.parse (fr.header m)) r = none)
    {r r' : ByteRing} (hr : r.bytes = fr.encodeAll ms) {s s' : σ}
    (h : fr.readAll handle r s = some (r', s')) : r' = { r with bytes := [] } := by
  have hv := ((fr.isSome_readAll_iff handle hbad hr s).1 (by rw [h]; rfl)).1
  rw [fr.readAll_eq handle hv hr] at h
  obtain ⟨_, -, heq⟩ := Option.map_eq_some_iff.1 h
  exact (Prod.mk.inj heq).1.symm

/-! ## Reader calls while the writer runs -/

/-- Where the reader is: outside a call, at the head of its loop, behind a header, or out of a call
that it left early. -/
inductive Reader (η : Type) where
  | idle
  | loop (i space : Nat)
  | body (h : η) (i space : Nat)
  | failed
  deriving DecidableEq, Repr

/-- The queue with its writer and its reader. `writing` is the message being written and its
transaction; `accepted`, `decoded` and `entered` are history: the messages committed, those decoded,
and how many had been committed when the reader last entered a call. -/
structure Channel (μ η : Type) where
  ring : ByteRing
  writing : Option (μ × ByteRing.Transaction)
  reader : Reader η
  accepted : List μ
  decoded : List μ
  entered : Nat

/-- The steps of the two threads, at the grain of single queue operations. -/
inductive ChannelStep (μ : Type) where
  | begin (m : μ)
  | finish
  | enter
  | read

/-- The messages accepted and not decoded. -/
def Channel.pending (c : Channel μ η) : List μ := c.accepted.drop c.decoded.length

/-- The reader's next queue operation, with the message that it completes. -/
def Channel.readStep (c : Channel μ η) : Option (Channel μ η × Option μ) :=
  match c.reader with
  | .loop i space =>
    if i < space then
      match c.ring.read fr.headerSize with
      | some (bytes, ring) =>
        some ({ c with ring, reader := .body (fr.parse bytes) i space }, none)
      | none => some ({ c with reader := .failed }, none)
    else
      some ({ c with reader := .idle }, none)
  | .body h i space =>
    match fr.readBody h c.ring with
    | some (m, ring) =>
      let reader := .loop (i + (fr.headerSize + fr.bodySize h)) space
      some ({ c with ring, reader, decoded := c.decoded ++ [m] }, some m)
    | none => some ({ c with reader := .failed }, none)
  | _ => none

/-- One step. A write that does not fit its transaction is dropped. -/
def Channel.step (c : Channel μ η) : ChannelStep μ → Option (Channel μ η)
  | .begin m =>
    if c.writing.isNone then some { c with writing := some (m, c.ring.beginWrite) } else none
  | .finish =>
    c.writing.map fun (m, tx) =>
      match fr.amend m tx with
      | some tx =>
        { c with ring := c.ring.commitWrite tx, writing := none, accepted := c.accepted ++ [m] }
      | none => { c with writing := none }
  | .enter =>
    match c.reader with
    | .idle =>
      some { c with reader := .loop 0 c.ring.readSpace, entered := c.accepted.length }
    | _ => none
  | .read => (c.readStep fr).map Prod.fst

/-- The runs from an empty queue. -/
def channel (capacity : Nat) : Lts (Channel μ η) (ChannelStep μ) where
  init c := c = ⟨⟨capacity, []⟩, none, .idle, [], [], 0⟩
  step c a c' := Channel.step fr c a = some c'

/-- Only messages that the reader can take are written. -/
def WritesValid (_ : Channel μ η) : ChannelStep μ → Prop
  | .begin m => fr.Valid m
  | _ => True

/-! ## The invariant -/

/-- The queue holds the frames of `pending`, the messages accepted and not decoded. -/
structure Framed (bytes : List UInt8) (accepted decoded pending : List μ) : Prop where
  bytes_eq : bytes = fr.encodeAll pending
  accepted_eq : accepted = decoded ++ pending
  valid : ∀ m ∈ pending, fr.Valid m

/-- The invariant by the reader's place. In a call, `seen` are the messages that were in the queue
on entry and are still to be read; behind a header, the queue starts with the body of its
message. -/
inductive ReaderInv (bytes : List UInt8) (accepted decoded : List μ) (entered : Nat) :
    Reader η → Prop
  | idle {pending : List μ} : fr.Framed bytes accepted decoded pending →
      entered = decoded.length → ReaderInv bytes accepted decoded entered .idle
  | loop {i space : Nat} {seen later : List μ} :
      fr.Framed bytes accepted decoded (seen ++ later) →
      space = i + (fr.encodeAll seen).length → entered = decoded.length + seen.length →
      ReaderInv bytes accepted decoded entered (.loop i space)
  | body {m : μ} {i space : Nat} {seen later : List μ} :
      bytes = fr.body m ++ fr.encodeAll (seen ++ later) →
      accepted = decoded ++ m :: (seen ++ later) → (∀ x ∈ m :: (seen ++ later), fr.Valid x) →
      space = i + (fr.headerSize + (fr.body m).length) + (fr.encodeAll seen).length →
      entered = decoded.length + (seen.length + 1) →
      ReaderInv bytes accepted decoded entered (.body (fr.parse (fr.header m)) i space)

/-- The invariant of the queue. A transaction is empty until its message is given to it. -/
structure ChannelInv (c : Channel μ η) : Prop where
  writer : ∀ m tx, c.writing = some (m, tx) → fr.Valid m ∧ tx.bytes = []
  reader : fr.ReaderInv c.ring.bytes c.accepted c.decoded c.entered c.reader

variable {fr} {bytes : List UInt8} {accepted decoded pending : List μ} {entered : Nat}
  {rd : Reader η} {c c' : Channel μ η}

/-- A committed frame comes behind those in the queue. -/
theorem Framed.concat (h : fr.Framed bytes accepted decoded pending) {m : μ} (hm : fr.Valid m) :
    fr.Framed (bytes ++ fr.encode m) (accepted ++ [m]) decoded (pending ++ [m]) where
  bytes_eq := by simp [h.bytes_eq]
  accepted_eq := by simp [h.accepted_eq]
  valid x hx := by
    rcases List.mem_append.1 hx with hx | hx
    · exact h.valid x hx
    · rwa [List.mem_singleton.1 hx]

/-- The writer does not disturb the reader. -/
theorem ReaderInv.commit (h : fr.ReaderInv bytes accepted decoded entered rd) {m : μ}
    (hm : fr.Valid m) :
    fr.ReaderInv (bytes ++ fr.encode m) (accepted ++ [m]) decoded entered rd := by
  cases h with
  | idle hf he => exact .idle (hf.concat hm) he
  | @loop i space seen later hf hs he =>
      have hf' := hf.concat hm
      rw [List.append_assoc] at hf'
      exact .loop hf' hs he
  | @body x i space seen later hb ha hv hs he =>
      have hb' : bytes ++ fr.encode m = fr.body x ++ fr.encodeAll (seen ++ (later ++ [m])) := by
        simp [hb]
      refine .body hb' (by simp [ha]) ?_ hs he
      intro y hy
      rw [← List.append_assoc, ← List.cons_append, List.mem_append] at hy
      rcases hy with hy | hy
      · exact hv y hy
      · rwa [List.mem_singleton.1 hy]

/-- Entering a call: all that is in the queue is to be read. -/
theorem ReaderInv.enter {r : ByteRing} (h : fr.ReaderInv r.bytes accepted decoded entered .idle) :
    fr.ReaderInv r.bytes accepted decoded accepted.length (.loop 0 r.readSpace) := by
  cases h with
  | @idle pending hf he =>
      have hf' : fr.Framed r.bytes accepted decoded (pending ++ []) := by
        rwa [List.append_nil]
      refine .loop hf' ?_ ?_
      · rw [ByteRing.readSpace, hf.bytes_eq, Nat.zero_add]
      · rw [hf.accepted_eq, List.length_append]

/-- At the head of its loop the reader is at a frame, or done with what it saw on entry. -/
theorem ReaderInv.readHeader {r : ByteRing} {i space : Nat}
    (h : fr.ReaderInv r.bytes accepted decoded entered (.loop i space)) :
    if i < space then
      ∃ bytes ring, r.read fr.headerSize = some (bytes, ring) ∧
        fr.ReaderInv ring.bytes accepted decoded entered (.body (fr.parse bytes) i space)
    else fr.ReaderInv r.bytes accepted decoded entered .idle := by
  cases h with
  | @loop i space seen later hf hs he =>
      cases seen with
      | nil =>
          rw [if_neg (by simpa using hs.le)]
          exact .idle hf (by simpa using he)
      | cons m seen =>
          have hlen : (fr.encodeAll (m :: seen)).length =
              fr.headerSize + (fr.body m).length + (fr.encodeAll seen).length := by
            rw [encodeAll_cons, List.length_append, length_encode]
          have hpos := fr.headerSize_pos
          have hread := fr.read_header
            (show r.bytes = fr.encode m ++ fr.encodeAll (seen ++ later) from hf.bytes_eq)
          rw [if_pos (by omega)]
          refine ⟨_, _, hread, .body rfl hf.accepted_eq hf.valid ?_ (by simpa using he)⟩
          rw [hs, hlen]
          omega

/-- Behind a header the reader gets the message of that header. -/
theorem ReaderInv.readBody {r : ByteRing} {η' : η} {i space : Nat}
    (h : fr.ReaderInv r.bytes accepted decoded entered (.body η' i space)) :
    ∃ m ring, fr.readBody η' r = some (m, ring) ∧
      fr.ReaderInv ring.bytes accepted (decoded ++ [m]) entered
        (.loop (i + (fr.headerSize + fr.bodySize η')) space) := by
  cases h with
  | @body m i space seen later hb ha hv hs he =>
      have hm : fr.Valid m := hv m List.mem_cons_self
      have hf : fr.Framed (fr.encodeAll (seen ++ later)) accepted (decoded ++ [m])
          (seen ++ later) :=
        ⟨rfl, by simp [ha], fun x hx => hv x (List.mem_cons_of_mem _ hx)⟩
      refine ⟨m, _, fr.readBody_parse m r _ hm hb, .loop hf ?_ ?_⟩
      · rw [hs, fr.bodySize_parse m hm]
      · rw [he, List.length_append, List.length_singleton]
        omega

/-- No reader call fails. -/
theorem ReaderInv.ne_failed (h : fr.ReaderInv bytes accepted decoded entered rd) :
    rd ≠ .failed := by
  cases h <;> simp

/-- A finished write: the message is accepted with its frame, or nothing happens to the queue. -/
theorem ChannelInv.finish (h : fr.ChannelInv c) (hstep : Channel.step fr c .finish = some c') :
    ∃ m tx, c.writing = some (m, tx) ∧ fr.Valid m ∧
      ((fr.encode m).length ≤ tx.free ∧
          c' = { c with
            ring := { c.ring with bytes := c.ring.bytes ++ fr.encode m }
            writing := none
            accepted := c.accepted ++ [m] } ∨
        tx.free < (fr.encode m).length ∧ c' = { c with writing := none }) := by
  obtain ⟨⟨m, tx⟩, hw, hc'⟩ := Option.map_eq_some_iff.1 hstep
  obtain ⟨hm, htx⟩ := h.writer m tx hw
  refine ⟨m, tx, hw, hm, ?_⟩
  have hamend : fr.amend m tx = tx.amendWrite (fr.encode m) := fr.amend_eq m tx hm
  by_cases hfit : (fr.encode m).length ≤ tx.free
  · have hsome : fr.amend m tx = some ⟨tx.free - (fr.encode m).length, fr.encode m⟩ := by
      rw [hamend, ByteRing.Transaction.amendWrite, if_pos hfit, htx, List.nil_append]
    simp only [hsome] at hc'
    exact .inl ⟨hfit, hc'.symm⟩
  · have hnone : fr.amend m tx = none := by
      rw [hamend, ByteRing.Transaction.amendWrite, if_neg hfit]
    simp only [hnone] at hc'
    exact .inr ⟨by omega, hc'.symm⟩

/-- What the reader has decoded is a prefix of what was accepted. -/
theorem ReaderInv.decoded_prefix (h : fr.ReaderInv bytes accepted decoded entered rd) :
    decoded <+: accepted := by
  cases h with
  | idle hf | loop hf => exact ⟨_, hf.accepted_eq.symm⟩
  | body hb ha => exact ⟨_, ha.symm⟩

/-- A finished write puts its message behind the pending ones, if it is accepted. -/
theorem ChannelInv.pending_finish (h : fr.ChannelInv c)
    (hstep : Channel.step fr c .finish = some c') :
    ∃ m tx, c.writing = some (m, tx) ∧ c'.writing = none ∧ c'.reader = c.reader ∧
      ((fr.encode m).length ≤ tx.free ∧ c'.pending = c.pending ++ [m] ∨
        tx.free < (fr.encode m).length ∧ c'.pending = c.pending) := by
  obtain ⟨m, tx, hw, -, ⟨hroom, rfl⟩ | ⟨hfull, rfl⟩⟩ := h.finish hstep
  · refine ⟨m, tx, hw, rfl, rfl, .inl ⟨hroom, ?_⟩⟩
    exact List.drop_append_of_le_length h.reader.decoded_prefix.length_le
  · exact ⟨m, tx, hw, rfl, rfl, .inr ⟨hfull, rfl⟩⟩

/-- The reader's operations keep the invariant, and a completed message is the first of the pending
ones. -/
theorem ChannelInv.readStep (h : fr.ChannelInv c) {got : Option μ}
    (hread : c.readStep fr = some (c', got)) :
    fr.ChannelInv c' ∧ c'.writing = c.writing ∧ c.pending = got.toList ++ c'.pending := by
  have hreader := h.reader
  cases hrd : c.reader with
  | loop i space =>
      rw [hrd] at hreader
      have hhead := hreader.readHeader
      simp only [Channel.readStep, hrd] at hread
      split at hread
      next hlt =>
        rw [if_pos hlt] at hhead
        obtain ⟨bytes, ring, hheader, hinv⟩ := hhead
        simp only [hheader] at hread
        obtain ⟨rfl, rfl⟩ := Prod.mk.inj (Option.some.inj hread)
        exact ⟨⟨h.writer, hinv⟩, rfl, rfl⟩
      next hge =>
        rw [if_neg hge] at hhead
        obtain ⟨rfl, rfl⟩ := Prod.mk.inj (Option.some.inj hread)
        exact ⟨⟨h.writer, hhead⟩, rfl, rfl⟩
  | body η' i space =>
      rw [hrd] at hreader
      obtain ⟨m, ring, hbody, hinv⟩ := hreader.readBody
      simp only [Channel.readStep, hrd, hbody] at hread
      obtain ⟨rfl, rfl⟩ := Prod.mk.inj (Option.some.inj hread)
      refine ⟨⟨h.writer, hinv⟩, rfl, ?_⟩
      obtain ⟨rest, hrest⟩ := hinv.decoded_prefix
      simp [Channel.pending, ← hrest]
  | idle | failed => simp [Channel.readStep, hrd] at hread

/-- The reader's two operations on the message in front of the queue. -/
theorem Channel.readStep_message {m : μ} {rest : List UInt8} {i space : Nat} (hm : fr.Valid m)
    (hreader : c.reader = .loop i space) (hi : i < space)
    (hbytes : c.ring.bytes = fr.encode m ++ rest) :
    ∃ c₁ η', c.readStep fr = some (c₁, none) ∧ c₁.reader = .body η' i space ∧
      c₁.readStep fr = some ({ c with
        ring := { c.ring with bytes := rest }
        reader := .loop (i + (fr.encode m).length) space
        decoded := c.decoded ++ [m] }, some m) := by
  refine ⟨{ c with
    ring := { c.ring with bytes := fr.body m ++ rest }
    reader := .body (fr.parse (fr.header m)) i space }, fr.parse (fr.header m), ?_, rfl, ?_⟩
  · simp only [Channel.readStep, hreader, if_pos hi, fr.read_header hbytes]
  · have hbody := fr.readBody_parse m { c.ring with bytes := fr.body m ++ rest } rest hm rfl
    simp only [Channel.readStep, hbody, fr.bodySize_parse m hm, length_encode]

/-- Every step keeps the invariant. -/
theorem ChannelInv.step (h : fr.ChannelInv c) {a : ChannelStep μ} (ha : WritesValid fr c a)
    (hstep : Channel.step fr c a = some c') : fr.ChannelInv c' := by
  cases a with
  | begin m =>
      simp only [Channel.step] at hstep
      split at hstep
      · obtain rfl := Option.some.inj hstep
        refine ⟨?_, h.reader⟩
        rintro m' tx' hw
        obtain ⟨rfl, rfl⟩ := Prod.mk.inj (Option.some.inj hw)
        exact ⟨ha, rfl⟩
      · cases hstep
  | finish =>
      obtain ⟨m, tx, -, hm, ⟨-, rfl⟩ | ⟨-, rfl⟩⟩ := h.finish hstep
      · exact ⟨by simp, h.reader.commit hm⟩
      · exact ⟨by simp, h.reader⟩
  | enter =>
      cases hrd : c.reader with
      | idle =>
          simp only [Channel.step, hrd] at hstep
          obtain rfl := Option.some.inj hstep
          exact ⟨h.writer, (hrd ▸ h.reader).enter⟩
      | loop | body | failed => simp [Channel.step, hrd] at hstep
  | read =>
      obtain ⟨⟨c₁, got⟩, hread, rfl⟩ := Option.map_eq_some_iff.1 hstep
      exact (h.readStep hread).1

/-- Beginning a write or a reader call changes neither the queue nor what is pending. -/
theorem Channel.pending_begin {m : μ} (hstep : Channel.step fr c (.begin m) = some c') :
    c.writing = none ∧ (∃ tx, c'.writing = some (m, tx)) ∧ c'.pending = c.pending := by
  simp only [Channel.step] at hstep
  split at hstep
  next hw =>
    obtain rfl := Option.some.inj hstep
    exact ⟨by simpa using hw, ⟨_, rfl⟩, rfl⟩
  next => cases hstep

/-- Entering the reader leaves what is on its way. -/
theorem Channel.pending_enter (hstep : Channel.step fr c .enter = some c') :
    c'.writing = c.writing ∧ c'.pending = c.pending := by
  simp only [Channel.step] at hstep
  split at hstep
  · obtain rfl := Option.some.inj hstep
    exact ⟨rfl, rfl⟩
  · cases hstep

/-- An empty queue, with no write and no call under way. -/
theorem channelInv_empty (capacity : Nat) :
    fr.ChannelInv (⟨⟨capacity, []⟩, none, .idle, [], [], 0⟩ : Channel μ η) := by
  have hf : fr.Framed [] [] [] [] := ⟨rfl, rfl, by simp⟩
  exact ⟨by simp, .idle hf rfl⟩

/-- The invariant holds in every run that writes valid messages. -/
theorem channelInv_of_run {capacity : Nat} {tr : List (ChannelStep μ)}
    (h : ((fr.channel capacity).guard (WritesValid fr)).Run tr c) : fr.ChannelInv c :=
  h.guard_invariant (I := fun _ c => fr.ChannelInv c)
    (fun c hc => by
      obtain rfl : c = _ := hc
      exact channelInv_empty capacity)
    (fun _ _ _ _ hi ha hstep => hi.step ha hstep)

/-- Between two calls the queue holds whole frames, and all that was accepted before the last call
is decoded. -/
theorem ReaderInv.of_idle (h : fr.ReaderInv bytes accepted decoded entered .idle) :
    decoded = accepted.take entered ∧ bytes = fr.encodeAll (accepted.drop entered) := by
  cases h with
  | idle hf he =>
      rw [hf.accepted_eq, he, List.take_left, List.drop_left]
      exact ⟨rfl, hf.bytes_eq⟩

end Framing
