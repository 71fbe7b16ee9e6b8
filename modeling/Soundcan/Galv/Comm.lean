import Soundcan.Lib.Bytes
import Soundcan.Lib.Framing

/-!
# The communication rings

`ui_to_plugin` and `plugin_to_ui` carry messages of five types, each a header (type, payload size)
and a payload laid out by a struct of its own. The writers compute the sizes by hand; the readers,
`apply_ui_events` and `jalv_update`, advance by what the header says. Here are the layouts, the
writers and what the readers take out of a ring; what they do with a message is in the modules of
their threads. Both pairs are framings (`framing`), so that every interleaving of writes and reader
calls decodes what was accepted (`ring_roundTrip`).

A `float` is kept as its 32 bits.
-/

namespace Soundcan.Galv

open Bytes ByteRing Framing

/-! ## Messages -/

/-- `JalvRunState`. -/
inductive JalvRunState where
  | running
  | paused
  deriving DecidableEq, Repr

/-- A message in a ring: its type and its payload, in the words of the payload structs. The size of
an event's atom is the length of its body. -/
inductive JalvMessage where
  | controlPortChange (portIndex value : UInt32)
  | eventTransfer (portIndex type : UInt32) (body : List UInt8)
  | latencyChange (value : UInt32)
  | stateRequest
  | runStateChange (state : JalvRunState)
  deriving DecidableEq, Repr

/-- `JalvMessageHeader`. -/
structure JalvMessageHeader where
  type : UInt32
  size : UInt32
  deriving DecidableEq, Repr

/-! The values of `JalvMessageType`. -/

@[simp] abbrev CONTROL_PORT_CHANGE : UInt32 := 1
@[simp] abbrev EVENT_TRANSFER : UInt32 := 2
@[simp] abbrev LATENCY_CHANGE : UInt32 := 3
@[simp] abbrev STATE_REQUEST : UInt32 := 4
@[simp] abbrev RUN_STATE_CHANGE : UInt32 := 5

/-- The values of `JalvRunState`. -/
def JalvRunState.word : JalvRunState → UInt32
  | .running => 0
  | .paused => 1

/-- The run state with a given value. -/
def JalvRunState.ofWord (n : UInt32) : Option JalvRunState :=
  if n = 0 then some .running else if n = 1 then some .paused else none

@[simp] theorem JalvRunState.ofWord_word (s : JalvRunState) : ofWord s.word = some s := by
  cases s <;> rfl

/-! ## Words in memory -/

/-- The bytes of a 32-bit word. -/
def wordBytes (n : UInt32) : List UInt8 := leBytes 4 n.toNat

/-- The word in front of some bytes, and the bytes behind it. -/
def takeWord (bs : List UInt8) : Option (UInt32 × List UInt8) :=
  if 4 ≤ bs.length then some (UInt32.ofNat (ofLe (bs.take 4)), bs.drop 4) else none

@[simp] theorem length_wordBytes (n : UInt32) : (wordBytes n).length = 4 := length_leBytes 4 _

/-- The word that some bytes are. -/
theorem ofLe_wordBytes (n : UInt32) : UInt32.ofNat (ofLe (wordBytes n)) = n := by
  rw [wordBytes, ofLe_leBytes_of_lt n.toNat_lt, UInt32.ofNat_toNat]

@[simp] theorem takeWord_wordBytes_append (n : UInt32) (bs : List UInt8) :
    takeWord (wordBytes n ++ bs) = some (n, bs) := by
  have hlen := length_wordBytes n
  rw [takeWord, if_pos (by simp), List.take_append_of_le_length (by simp),
    List.take_of_length_le hlen.le, List.drop_append_of_le_length (by simp),
    List.drop_of_length_le hlen.le, ofLe_wordBytes, List.nil_append]

@[simp] theorem takeWord_wordBytes (n : UInt32) : takeWord (wordBytes n) = some (n, []) := by
  simpa using takeWord_wordBytes_append n []

/-- The bytes of a header. -/
def JalvMessageHeader.bytes (h : JalvMessageHeader) : List UInt8 :=
  wordBytes h.type ++ wordBytes h.size

/-- The header that some bytes are. -/
def JalvMessageHeader.ofBytes (bs : List UInt8) : JalvMessageHeader where
  type := UInt32.ofNat (ofLe (bs.take 4))
  size := UInt32.ofNat (ofLe (bs.drop 4))

/-- `sizeof(JalvMessageHeader)`. -/
abbrev sizeofMessageHeader : Nat := 8

@[simp] theorem JalvMessageHeader.length_bytes (h : JalvMessageHeader) : h.bytes.length = 8 := by
  simp [bytes]

@[simp] theorem JalvMessageHeader.ofBytes_bytes (h : JalvMessageHeader) : ofBytes h.bytes = h := by
  have htake : h.bytes.take 4 = wordBytes h.type := List.take_left' (length_wordBytes _)
  have hdrop : h.bytes.drop 4 = wordBytes h.size := List.drop_left' (length_wordBytes _)
  rw [ofBytes, htake, hdrop, ofLe_wordBytes, ofLe_wordBytes]

/-! ## Writers -/

/-- The header that the writer of a message computes. -/
def JalvMessage.header : JalvMessage → JalvMessageHeader
  | .controlPortChange .. => ⟨CONTROL_PORT_CHANGE, 8⟩
  | .eventTransfer _ _ body => ⟨EVENT_TRANSFER, 12 + UInt32.ofNat body.length⟩
  | .latencyChange _ => ⟨LATENCY_CHANGE, 4⟩
  | .stateRequest => ⟨STATE_REQUEST, 0⟩
  | .runStateChange _ => ⟨RUN_STATE_CHANGE, 4⟩

/-- The payload of a message. -/
def JalvMessage.payload : JalvMessage → List UInt8
  | .controlPortChange portIndex value => wordBytes portIndex ++ wordBytes value
  | .eventTransfer portIndex type body =>
    wordBytes portIndex ++ (wordBytes (UInt32.ofNat body.length) ++ (wordBytes type ++ body))
  | .latencyChange value => wordBytes value
  | .stateRequest => []
  | .runStateChange state => wordBytes state.word

/-- `jalv_write_split_message`, between the beginning of its transaction and the commit. -/
def jalvWriteSplitMessage (header body : List UInt8) (tx : Transaction) : Option Transaction :=
  (tx.amendWrite header).bind fun tx => tx.amendWrite body

/-- `jalv_write_event`. -/
def jalvWriteEvent (portIndex size type : UInt32) (body : List UInt8) (tx : Transaction) :
    Option Transaction :=
  let message : JalvMessageHeader := ⟨EVENT_TRANSFER, 12 + size⟩
  jalvWriteSplitMessage
    (message.bytes ++ (wordBytes portIndex ++ (wordBytes size ++ wordBytes type))) body tx

/-- `jalv_write_control`. -/
def jalvWriteControl (portIndex value : UInt32) (tx : Transaction) : Option Transaction :=
  let message : JalvMessageHeader := ⟨CONTROL_PORT_CHANGE, 8⟩
  tx.amendWrite (message.bytes ++ (wordBytes portIndex ++ wordBytes value))

/-- The writer of each type: the two above, the split write of `process_cb` and the two raw writes
of `jalv_apply_state`. -/
def JalvMessage.write : JalvMessage → Transaction → Option Transaction
  | .controlPortChange portIndex value => jalvWriteControl portIndex value
  | .eventTransfer portIndex type body =>
    jalvWriteEvent portIndex (UInt32.ofNat body.length) type body
  | .latencyChange value =>
    jalvWriteSplitMessage (JalvMessageHeader.bytes ⟨LATENCY_CHANGE, 4⟩) (wordBytes value)
  | .stateRequest => fun tx => tx.amendWrite (JalvMessageHeader.bytes ⟨STATE_REQUEST, 0⟩)
  | .runStateChange state => fun tx =>
    tx.amendWrite (JalvMessageHeader.bytes ⟨RUN_STATE_CHANGE, 4⟩ ++ wordBytes state.word)

/-- Every writer gives its transaction the header and the payload. -/
theorem JalvMessage.write_eq (m : JalvMessage) (tx : Transaction) :
    m.write tx = tx.amendWrite (m.header.bytes ++ m.payload) := by
  cases m with
  | controlPortChange | runStateChange => rfl
  | eventTransfer | latencyChange =>
      simp only [write, jalvWriteEvent, jalvWriteSplitMessage, header, payload,
        ByteRing.Transaction.amendWrite_append, List.append_assoc]
  | stateRequest => simp [write, header, payload]

/-- The header gives the size of the payload, as long as that is a 32-bit word. -/
theorem JalvMessage.size_header {m : JalvMessage} (h : m.payload.length < 2 ^ 32) :
    m.header.size.toNat = m.payload.length := by
  cases m with
  | eventTransfer portIndex type body =>
      have hlen : 12 + body.length < 2 ^ 32 := by
        simp [payload] at h
        omega
      simp [header, payload, UInt32.toNat_add]
      omega
  | _ => simp [header, payload]

/-! ## Readers -/

/-- The payload of a `CONTROL_PORT_CHANGE`. -/
def readControlChange (bs : List UInt8) : Option JalvMessage := do
  let (portIndex, bs) ← takeWord bs
  let (value, _) ← takeWord bs
  some (.controlPortChange portIndex value)

/-- The payload of an `EVENT_TRANSFER`: the atom has the size that its header says. -/
def readEventTransfer (bs : List UInt8) : Option JalvMessage := do
  let (portIndex, bs) ← takeWord bs
  let (size, bs) ← takeWord bs
  let (type, bs) ← takeWord bs
  if size.toNat ≤ bs.length then
    some (.eventTransfer portIndex type (bs.take size.toNat))
  else
    none

/-- The payload of a `LATENCY_CHANGE`. -/
def readLatencyChange (bs : List UInt8) : Option JalvMessage := do
  let (value, _) ← takeWord bs
  some (.latencyChange value)

/-- The payload of a `RUN_STATE_CHANGE`. -/
def readRunStateChange (bs : List UInt8) : Option JalvMessage := do
  let (state, _) ← takeWord bs
  let state ← JalvRunState.ofWord state
  some (.runStateChange state)

/-- What `apply_ui_events` reads behind a header, with `process_msg_size`. It is undefined where an
assertion on the size fails, a read falls short or the type is unknown. -/
def readUiMessage (processMsgSize : UInt32) (header : JalvMessageHeader) (ring : ByteRing) :
    Option (JalvMessage × ByteRing) :=
  if header.type = CONTROL_PORT_CHANGE then
    if header.size = 8 then do
      let (msg, ring) ← ring.read 8
      let msg ← readControlChange msg
      some (msg, ring)
    else none
  else if header.type = EVENT_TRANSFER then
    if header.size ≤ processMsgSize then do
      let (body, ring) ← ring.read header.size.toNat
      let msg ← readEventTransfer body
      some (msg, ring)
    else none
  else if header.type = STATE_REQUEST then
    some (.stateRequest, ring)
  else if header.type = RUN_STATE_CHANGE then
    if header.size = 4 then do
      let (msg, ring) ← ring.read 4
      let msg ← readRunStateChange msg
      some (msg, ring)
    else none
  else none

/-- What `jalv_update` reads behind a header, with `ui_msg_size`: first the payload, into `ui_msg`.
It is undefined where the payload overruns `ui_msg`, the read falls short or the type is unknown. -/
def readPluginMessage (uiMsgSize : UInt32) (header : JalvMessageHeader) (ring : ByteRing) :
    Option (JalvMessage × ByteRing) :=
  if header.size ≤ uiMsgSize then do
    let (body, ring) ← ring.read header.size.toNat
    let msg ←
      if header.type = CONTROL_PORT_CHANGE then readControlChange body
      else if header.type = EVENT_TRANSFER then readEventTransfer body
      else if header.type = LATENCY_CHANGE then readLatencyChange body
      else none
    some (msg, ring)
  else none

@[simp] theorem readControlChange_payload (portIndex value : UInt32) :
    readControlChange (JalvMessage.controlPortChange portIndex value).payload =
      some (.controlPortChange portIndex value) := by
  simp [readControlChange, JalvMessage.payload]

/-- An event is read back from its payload. -/
theorem readEventTransfer_payload (portIndex type : UInt32) {body : List UInt8}
    (h : body.length < 2 ^ 32) :
    readEventTransfer (JalvMessage.eventTransfer portIndex type body).payload =
      some (.eventTransfer portIndex type body) := by
  have hsize : (UInt32.ofNat body.length).toNat = body.length := UInt32.toNat_ofNat_of_lt' h
  simp [readEventTransfer, JalvMessage.payload, hsize]

@[simp] theorem readLatencyChange_payload (value : UInt32) :
    readLatencyChange (JalvMessage.latencyChange value).payload = some (.latencyChange value) := by
  simp [readLatencyChange, JalvMessage.payload]

@[simp] theorem readRunStateChange_payload (state : JalvRunState) :
    readRunStateChange (JalvMessage.runStateChange state).payload =
      some (.runStateChange state) := by
  simp [readRunStateChange, JalvMessage.payload]

/-! ## The two rings -/

/-- The two rings. -/
inductive Ring where
  | uiToPlugin
  | pluginToUi
  deriving DecidableEq, Repr

/-- The reader's part of each ring: what it reads behind a header. -/
def Ring.readMessage : Ring → UInt32 → JalvMessageHeader → ByteRing →
    Option (JalvMessage × ByteRing)
  | .uiToPlugin => readUiMessage
  | .pluginToUi => readPluginMessage

/-- Whether messages of this type go through a ring. -/
def Ring.carries : Ring → JalvMessage → Bool
  | .uiToPlugin, .latencyChange _ => false
  | .pluginToUi, .stateRequest => false
  | .pluginToUi, .runStateChange _ => false
  | _, _ => true

/-- How much of its message buffer a reader needs: on `ui_to_plugin` only an event is read into
`process_msg`, on `plugin_to_ui` every payload is read into `ui_msg`. -/
def Ring.bufferUse : Ring → JalvMessage → Nat
  | .uiToPlugin, .eventTransfer _ _ body => 12 + body.length
  | .uiToPlugin, _ => 0
  | .pluginToUi, m => m.payload.length

/-- The messages of a ring that fit the buffer of its reader. -/
def Ring.Receivable (ring : Ring) (bufferSize : UInt32) (m : JalvMessage) : Prop :=
  ring.carries m = true ∧ ring.bufferUse m ≤ bufferSize.toNat

instance (ring : Ring) (bufferSize : UInt32) (m : JalvMessage) :
    Decidable (ring.Receivable bufferSize m) :=
  inferInstanceAs (Decidable (_ ∧ _))

/-- The payload of an event takes twelve bytes and the body. -/
theorem JalvMessage.length_payload_eventTransfer (portIndex type : UInt32) (body : List UInt8) :
    (eventTransfer portIndex type body).payload.length = 12 + body.length := by
  simp [payload]
  omega

/-- A message that fits has a payload that is counted in a 32-bit word. -/
theorem Ring.Receivable.length_lt {ring : Ring} {bufferSize : UInt32} {m : JalvMessage}
    (h : ring.Receivable bufferSize m) : m.payload.length < 2 ^ 32 := by
  have hlt := bufferSize.toNat_lt
  have huse := h.2
  cases m with
  | eventTransfer portIndex type body =>
      have hlen := JalvMessage.length_payload_eventTransfer portIndex type body
      cases ring <;> simp only [bufferUse] at huse <;> omega
  | _ => simp [JalvMessage.payload]

/-- `apply_ui_events` reads the message that was written. -/
theorem readUiMessage_header {bufferSize : UInt32} {m : JalvMessage}
    (h : Ring.uiToPlugin.Receivable bufferSize m) {r : ByteRing} {rest : List UInt8}
    (hr : r.bytes = m.payload ++ rest) :
    readUiMessage bufferSize m.header r = some (m, { r with bytes := rest }) := by
  have hread := ByteRing.read_append hr
  cases m with
  | controlPortChange portIndex value =>
      replace hread : r.read 8 = _ := hread
      simp [readUiMessage, JalvMessage.header, hread]
  | eventTransfer portIndex type body =>
      have hlen := JalvMessage.length_payload_eventTransfer portIndex type body
      have hsize := JalvMessage.size_header h.length_lt
      have hlt : body.length < 2 ^ 32 := by
        have := h.length_lt
        omega
      have hle : (JalvMessage.eventTransfer portIndex type body).header.size ≤ bufferSize := by
        rw [UInt32.le_iff_toNat_le, hsize, hlen]
        exact h.2
      rw [← hsize] at hread
      have htype : (JalvMessage.eventTransfer portIndex type body).header.type = EVENT_TRANSFER :=
        rfl
      rw [readUiMessage, htype, if_neg (by decide), if_pos rfl, if_pos hle, hread]
      simp [readEventTransfer_payload portIndex type hlt]
  | latencyChange value => exact absurd h.1 Bool.false_ne_true
  | stateRequest =>
      obtain rfl : r.bytes = rest := hr
      simp [readUiMessage, JalvMessage.header]
  | runStateChange state =>
      replace hread : r.read 4 = _ := hread
      simp [readUiMessage, JalvMessage.header, hread]

/-- `jalv_update` reads the message that was written. -/
theorem readPluginMessage_header {bufferSize : UInt32} {m : JalvMessage}
    (h : Ring.pluginToUi.Receivable bufferSize m) {r : ByteRing} {rest : List UInt8}
    (hr : r.bytes = m.payload ++ rest) :
    readPluginMessage bufferSize m.header r = some (m, { r with bytes := rest }) := by
  have hread := ByteRing.read_append hr
  have hsize := JalvMessage.size_header h.length_lt
  have hle : m.header.size ≤ bufferSize := by
    rw [UInt32.le_iff_toNat_le, hsize]
    exact h.2
  rw [← hsize] at hread
  rw [readPluginMessage, if_pos hle, hread]
  cases m with
  | controlPortChange | latencyChange => simp [JalvMessage.header]
  | eventTransfer portIndex type body =>
      have hlt : body.length < 2 ^ 32 := by
        have := h.length_lt
        rw [JalvMessage.length_payload_eventTransfer] at this
        omega
      simp [JalvMessage.header, readEventTransfer_payload portIndex type hlt]
  | stateRequest | runStateChange => exact absurd h.1 Bool.false_ne_true

/-- No reader reads a message that does not fit its buffer. -/
theorem Ring.readMessage_eq_none {ring : Ring} {bufferSize : UInt32} {m : JalvMessage}
    (hcarries : ring.carries m = true) (hlt : m.payload.length < 2 ^ 32)
    (h : ¬ring.Receivable bufferSize m) (r : ByteRing) :
    ring.readMessage bufferSize m.header r = none := by
  have hsize := JalvMessage.size_header hlt
  have huse : ¬ring.bufferUse m ≤ bufferSize.toNat := fun hle => h ⟨hcarries, hle⟩
  cases ring with
  | uiToPlugin =>
      cases m with
      | eventTransfer portIndex type body =>
          have hgt : ¬(JalvMessage.eventTransfer portIndex type body).header.size ≤ bufferSize := by
            rw [UInt32.le_iff_toNat_le, hsize, JalvMessage.length_payload_eventTransfer]
            exact huse
          have htype : (JalvMessage.eventTransfer portIndex type body).header.type =
              EVENT_TRANSFER := rfl
          rw [readMessage, readUiMessage, htype, if_neg (by decide), if_pos rfl, if_neg hgt]
      | _ => exact absurd (Nat.zero_le _) huse
  | pluginToUi =>
      have hgt : ¬m.header.size ≤ bufferSize := by
        rw [UInt32.le_iff_toNat_le, hsize]
        exact huse
      rw [readMessage, readPluginMessage, if_neg hgt]

/-- A ring with its writers and its reader. -/
def framing (ring : Ring) (bufferSize : UInt32) : Framing JalvMessage JalvMessageHeader where
  Valid := ring.Receivable bufferSize
  headerSize := sizeofMessageHeader
  header m := m.header.bytes
  body m := m.payload
  amend m := m.write
  parse := JalvMessageHeader.ofBytes
  bodySize h := h.size.toNat
  readBody := ring.readMessage bufferSize
  headerSize_pos := by decide
  length_header m := m.header.length_bytes
  amend_eq m tx _ := m.write_eq tx
  bodySize_parse m hm := by
    rw [JalvMessageHeader.ofBytes_bytes, JalvMessage.size_header hm.length_lt]
  readBody_parse m r rest hm hr := by
    rw [JalvMessageHeader.ofBytes_bytes]
    cases ring with
    | uiToPlugin => exact readUiMessage_header hm hr
    | pluginToUi => exact readPluginMessage_header hm hr

/-- A ring with its writers and its reader, at the grain of single ring operations: from an empty
ring, in any interleaving, with messages that the reader can take. -/
def ringRuns (ring : Ring) (bufferSize : UInt32) (capacity : Nat) :
    Lts (Channel JalvMessage JalvMessageHeader) (ChannelStep JalvMessage) :=
  ((framing ring bufferSize).channel capacity).guard (WritesValid (framing ring bufferSize))

/-- The round trip through either ring, in every interleaving of writes and reader calls: no reader
call fails; what is decoded is a prefix of what was accepted; a write that does not fit leaves the
ring as it was, and one that does adds its message; and between two calls all that was accepted when
the last one began is decoded and the ring holds the frames of the rest. -/
theorem ring_roundTrip (ring : Ring) (bufferSize : UInt32) {capacity : Nat}
    {tr : List (ChannelStep JalvMessage)} {c : Channel JalvMessage JalvMessageHeader}
    (h : (ringRuns ring bufferSize capacity).Run tr c) :
    c.reader ≠ .failed ∧
    c.decoded <+: c.accepted ∧
    (∀ c', Channel.step (framing ring bufferSize) c .finish = some c' →
      c'.ring = c.ring ∧ c'.accepted = c.accepted ∨
      ∃ m, c.writing.map Prod.fst = some m ∧ c'.accepted = c.accepted ++ [m] ∧
        c'.ring.bytes = c.ring.bytes ++ (m.header.bytes ++ m.payload)) ∧
    (c.reader = .idle →
      c.decoded = c.accepted.take c.entered ∧
      c.ring.bytes =
        (c.accepted.drop c.entered).flatMap fun m => m.header.bytes ++ m.payload) := by
  have hinv := channelInv_of_run h
  refine ⟨hinv.reader.ne_failed, hinv.reader.decoded_prefix, ?_, ?_⟩
  · intro c' hstep
    obtain ⟨m, tx, hw, -, ⟨-, rfl⟩ | ⟨-, rfl⟩⟩ := hinv.finish hstep
    · exact .inr ⟨m, by rw [hw]; rfl, rfl, rfl⟩
    · exact .inl ⟨rfl, rfl⟩
  · intro hidle
    have hreader := hinv.reader
    rw [hidle] at hreader
    exact hreader.of_idle

/-- A control change is accepted by a ring of 24 bytes, an event is refused, and the reader decodes
the control change. -/
theorem ring_roundTrip_control :
    let m : JalvMessage := .controlPortChange 3 0x3f800000
    let event : JalvMessage := .eventTransfer 1 7 [0x90, 60, 100]
    ∃ c, (ringRuns .uiToPlugin 1024 24).Run
        [.begin m, .finish, .enter, .begin event, .read, .finish, .read, .read] c ∧
      c.accepted = [m] ∧ c.decoded = [m] ∧ c.reader ≠ .failed := by
  intro m event
  have hrun : (ringRuns .uiToPlugin 1024 24).Run
      [.begin m, .finish, .enter, .begin event, .read, .finish, .read, .read]
      ⟨⟨24, []⟩, none, .idle, [m], [m], 1⟩ := by
    refine Lts.Run.guard (Lts.run_of_foldlM (fun _ _ _ h => h) rfl rfl) ?_
    intro a ha c
    fin_cases ha <;> trivial
  exact ⟨_, hrun, rfl, rfl, (ring_roundTrip _ _ hrun).1⟩

end Soundcan.Galv
