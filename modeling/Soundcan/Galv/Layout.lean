import Soundcan.Galv.Comm

/-!
# Plugin ports and what they make of messages

The ports of a plugin, the sizes that `create_port` and `jalv_process_activate` derive from them,
and what the two readers do with a message: `apply_ui_events` turns it into an action of the process
thread, under its assertions, and `jalv_update` into an event for the frontend.
-/

namespace Soundcan.Galv

/-! ## Ports -/

/-- `PortType`. -/
inductive PortType where
  | unknown
  | control
  | audio
  | event
  | cv
  deriving DecidableEq, Repr

/-- `PortFlow`. -/
inductive PortFlow where
  | unknown
  | input
  | output
  deriving DecidableEq, Repr

/-- `JalvProcessPort`; `minimumSize` is the port's `rsz:minimumSize`, if that is an integer. -/
structure ProcessPort where
  type : PortType
  flow : PortFlow
  minimumSize : Option Int32
  reportsLatency : Bool
  deriving DecidableEq, Repr

namespace ProcessPort

/-- `buf_size`: `(uint32_t)MAX(minimumSize, 0)`, or 0. -/
def bufSize (port : ProcessPort) : UInt32 :=
  match port.minimumSize with
  | some n => if n > 0 then n.toUInt32 else 0
  | none => 0

/-- The ports that `jalv_process_activate` gives an event buffer. -/
def hasEvbuf (port : ProcessPort) : Bool := port.type = .event

/-- The ports whose event buffer the plugin reads. -/
def isEventInput (port : ProcessPort) : Bool := port.type = .event ∧ port.flow = .input

end ProcessPort

/-- The URIDs of messages and events. -/
structure JalvURIDs where
  atomChunk : UInt32
  atomEventTransfer : UInt32
  atomObject : UInt32
  atomSequence : UInt32
  patchGet : UInt32
  deriving DecidableEq, Repr

/-- The ports of a plugin, with the fields of `JalvProcess` that do not change after its
activation. -/
structure Layout where
  ports : List ProcessPort
  controlIn : UInt32
  urids : JalvURIDs
  deriving DecidableEq, Repr

/-! ## Buffer sizes -/

/-- The largest `buf_size` of the ports in use, and at least `start`. -/
def maxBufSize (use : ProcessPort → Bool) (start : UInt32) (ports : List ProcessPort) : UInt32 :=
  ports.foldl (fun size port =>
    if use port then (if size > port.bufSize then size else port.bufSize) else size) start

/-- What does not exceed the largest `buf_size` does not exceed one of them. -/
theorem le_maxBufSize_iff (use : ProcessPort → Bool) (start : UInt32) (ports : List ProcessPort)
    (n : Nat) :
    n ≤ (maxBufSize use start ports).toNat ↔
      n ≤ start.toNat ∨ ∃ port ∈ ports, use port = true ∧ n ≤ port.bufSize.toNat := by
  induction ports generalizing start with
  | nil => simp [maxBufSize]
  | cons port ports ih =>
      rw [maxBufSize, List.foldl_cons, ← maxBufSize, ih]
      by_cases huse : use port = true
      · by_cases hlt : start > port.bufSize
        · have hlt' : port.bufSize.toNat < start.toNat := UInt32.lt_iff_toNat_lt.1 hlt
          simp only [huse, hlt, if_true, List.exists_mem_cons_iff, true_and]
          constructor
          · rintro (h | h)
            · exact .inl h
            · exact .inr (.inr h)
          · rintro (h | h | h)
            · exact .inl h
            · exact .inl (by omega)
            · exact .inr h
        · have hle : start.toNat ≤ port.bufSize.toNat :=
            Nat.not_lt.1 fun h => hlt (UInt32.lt_iff_toNat_lt.2 h)
          simp only [huse, hlt, if_true, if_false, List.exists_mem_cons_iff, true_and]
          constructor
          · rintro (h | h)
            · exact .inr (.inl h)
            · exact .inr (.inr h)
          · rintro (h | h | h)
            · exact .inl (by omega)
            · exact .inl h
            · exact .inr h
      · simp [huse]

namespace Layout

variable (L : Layout)

/-- `process_msg_size`: at least 1024, and what the event inputs ask for. -/
def processMsgSize : UInt32 := maxBufSize ProcessPort.isEventInput 1024 L.ports

/-- `ui_msg_size`: what the outputs ask for. -/
def uiMsgSize : UInt32 := maxBufSize (fun port => port.flow = .output) 0 L.ports

/-- The message buffer of the reader of a ring. -/
def bufferSize : Ring → UInt32
  | .uiToPlugin => L.processMsgSize
  | .pluginToUi => L.uiMsgSize

/-- The ring with the readers' buffers of this layout. -/
def framing (ring : Ring) : Framing JalvMessage JalvMessageHeader :=
  Galv.framing ring (L.bufferSize ring)

/-! ## What the readers do with a message -/

/-- The body of `get_msg`, a `patch:Get` with the identifier 0. -/
def getMsgBody : List UInt8 := wordBytes 0 ++ wordBytes L.urids.patchGet

end Layout

/-- What `apply_ui_events` does with a message. -/
inductive UiAction where
  | setControl (port : Nat) (value : UInt32)
  | writeEvent (port : Nat) (type : UInt32) (body : List UInt8)
  | setRunState (state : JalvRunState)
  deriving DecidableEq, Repr

namespace Layout

variable (L : Layout)

/-- The action of a message, undefined where an assertion of `apply_ui_events` fails, where the port
of an event has no event buffer and where the type is unknown. -/
def uiAction : JalvMessage → Option UiAction
  | .controlPortChange portIndex value =>
    if portIndex.toNat < L.ports.length then some (.setControl portIndex.toNat value) else none
  | .eventTransfer portIndex type body => do
    let port ← L.ports[portIndex.toNat]?
    if port.hasEvbuf then some (.writeEvent portIndex.toNat type body) else none
  | .stateRequest => do
    let port ← L.ports[L.controlIn.toNat]?
    if port.isEventInput then
      some (.writeEvent L.controlIn.toNat L.urids.atomObject L.getMsgBody)
    else none
  | .runStateChange state => some (.setRunState state)
  | .latencyChange _ => none

/-- `apply_ui_events`, up to the effects of its actions. -/
def applyUiEvents (ring : ByteRing) : Option (ByteRing × List UiAction) :=
  (L.framing .uiToPlugin).readAll
    (fun actions m => (L.uiAction m).map fun action => actions ++ [action]) ring []

end Layout

/-- A call of `jalv_update` into the frontend or the backend. -/
inductive FrontendEvent where
  | portEvent (portIndex bufferSize protocol : UInt32) (buffer : List UInt8)
  | recomputeLatencies
  deriving DecidableEq, Repr

namespace Layout

variable (L : Layout)

/-- The call for a message. A control change is handed on with `body` as its value. -/
def frontendEvent : JalvMessage → Option FrontendEvent
  | .controlPortChange portIndex value =>
    some (.portEvent portIndex 4 0 ((JalvMessage.controlPortChange portIndex value).payload.take 4))
  | .eventTransfer portIndex type body =>
    let size := UInt32.ofNat body.length
    some (.portEvent portIndex (8 + size) L.urids.atomEventTransfer
      (wordBytes size ++ (wordBytes type ++ body)))
  | .latencyChange _ => some .recomputeLatencies
  | .stateRequest => none
  | .runStateChange _ => none

/-- `jalv_update`, from where it takes the read space. -/
def jalvUpdate (ring : ByteRing) : Option (ByteRing × List FrontendEvent) :=
  (L.framing .pluginToUi).readAll
    (fun events m => (L.frontendEvent m).map fun event => events ++ [event]) ring []

/-- The frontend sees the value of a control change exactly when that is the port index, which is
what `body` starts with. -/
theorem frontendEvent_controlPortChange (portIndex value : UInt32) :
    L.frontendEvent (.controlPortChange portIndex value) =
      some (.portEvent portIndex 4 0 (wordBytes value)) ↔ value = portIndex := by
  have htake : (JalvMessage.controlPortChange portIndex value).payload.take 4 =
      wordBytes portIndex := List.take_left' (length_wordBytes _)
  constructor
  · intro h
    have hbytes : wordBytes portIndex = wordBytes value := by simpa [frontendEvent, htake] using h
    rw [← ofLe_wordBytes value, ← hbytes, ofLe_wordBytes]
  · rintro rfl
    rw [frontendEvent, htake]

end Layout

end Soundcan.Galv
