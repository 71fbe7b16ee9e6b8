import Soundcan.Galv.Layout
import Soundcan.Lib.Transition

/-!
# Which messages the receivers can handle

The writers check a message against the free space of a ring, the receivers against the sizes that
come from the plugin's ports. `receivers_defined_iff` says which messages that a ring accepted its
receiver can handle: on `ui_to_plugin` an event must go to an event port and fit 1024 bytes or the
minimum size of some event input; on `plugin_to_ui` every message must fit the minimum size of some
output, so that a plugin whose outputs ask for no size gets no message across.
-/

namespace Soundcan.Galv

open Framing

/-! ## Writers -/

/-- A call of `jalv_send_to_plugin`: `buffer` has `bufferSize` bytes. -/
structure UiWrite where
  portIndex : UInt32
  bufferSize : UInt32
  protocol : UInt32
  buffer : List UInt8
  length_buffer : buffer.length = bufferSize.toNat

/-- What a cycle of `process_cb` leaves for its loop over the ports: by port the new latency where
it changed, the events in the port's buffer and the value of the control. -/
structure CycleOutput where
  latency : Nat → Option UInt32
  events : Nat → List (UInt32 × List UInt8)
  controls : Nat → UInt32
  sendUiUpdates : Bool
  hasUi : Bool

namespace Layout

variable (L : Layout)

/-- `jalv_send_to_plugin`: the message it writes, if the arguments are good. -/
def jalvSendToPlugin (w : UiWrite) : Option JalvMessage :=
  if L.ports.length ≤ w.portIndex.toNat then
    none
  else if w.protocol = 0 then
    if w.bufferSize ≠ 4 then none else do
      let (value, _) ← takeWord w.buffer
      some (.controlPortChange w.portIndex value)
  else if w.protocol = L.urids.atomEventTransfer then
    if w.bufferSize < 8 then none else do
      let (size, bs) ← takeWord w.buffer
      let (type, body) ← takeWord bs
      if 8 + size.toNat ≠ w.bufferSize.toNat then none
      else some (.eventTransfer w.portIndex type body)
  else
    none

/-- The messages that the loop of `process_cb` over the ports writes. -/
def deliveries (out : CycleOutput) : List JalvMessage :=
  L.ports.zipIdx.flatMap fun (port, p) =>
    if port.flow = .output ∧ port.type = .control ∧ port.reportsLatency = true then
      (out.latency p).toList.map .latencyChange
    else if port.flow = .output ∧ port.type = .event then
      if out.hasUi then
        (out.events p).map fun (type, body) => .eventTransfer (UInt32.ofNat p) type body
      else
        []
    else if out.sendUiUpdates = true ∧ port.flow = .output ∧ port.type = .control then
      [.controlPortChange (UInt32.ofNat p) (out.controls p)]
    else
      []

/-- What the writers to `ui_to_plugin` write: control changes and events for ports that exist. -/
def UiWritten : JalvMessage → Prop
  | .controlPortChange portIndex _ => portIndex.toNat < L.ports.length
  | .eventTransfer portIndex _ _ => portIndex.toNat < L.ports.length
  | _ => False

variable {L}

/-- What the interface writes is a kind of message that its ring carries. -/
theorem UiWritten.carries {m : JalvMessage} (h : L.UiWritten m) :
    Ring.uiToPlugin.carries m = true := by
  cases m with
  | controlPortChange | eventTransfer => rfl
  | latencyChange | stateRequest | runStateChange => exact h.elim

/-- What it sends to the plugin is written so. -/
theorem uiWritten_jalvSendToPlugin {w : UiWrite} {m : JalvMessage}
    (h : L.jalvSendToPlugin w = some m) : L.UiWritten m := by
  simp only [jalvSendToPlugin] at h
  split at h
  · cases h
  next hport =>
    have hlt : w.portIndex.toNat < L.ports.length := Nat.not_le.1 hport
    split at h
    · split at h
      · cases h
      · obtain ⟨⟨value, bs⟩, -, hm⟩ := Option.bind_eq_some_iff.1 h
        obtain rfl := Option.some.inj hm
        exact hlt
    · split at h
      · split at h
        · cases h
        · obtain ⟨⟨size, bs⟩, -, h⟩ := Option.bind_eq_some_iff.1 h
          obtain ⟨⟨type, body⟩, -, h⟩ := Option.bind_eq_some_iff.1 h
          dsimp only at h
          split at h
          · cases h
          · obtain rfl := Option.some.inj h
            exact hlt
      · cases h

/-- What the process delivers is a kind that the other ring carries. -/
theorem carries_of_mem_deliveries {out : CycleOutput} {m : JalvMessage}
    (h : m ∈ L.deliveries out) : Ring.pluginToUi.carries m = true := by
  obtain ⟨⟨port, p⟩, -, h⟩ := List.mem_flatMap.1 h
  dsimp only at h
  split at h
  · obtain ⟨value, -, rfl⟩ := List.mem_map.1 h
    rfl
  · split at h
    · split at h
      · obtain ⟨⟨type, body⟩, -, rfl⟩ := List.mem_map.1 h
        rfl
      · cases h
    · split at h
      · rw [List.mem_singleton.1 h]
        rfl
      · cases h

end Layout

/-! ## The rings in use -/

/-- A ring, and as history the messages it accepted since the last call of its reader. -/
structure Queue where
  ring : ByteRing
  pending : List JalvMessage
  deriving DecidableEq

/-- A write, dropped where it does not fit. -/
def Queue.write (q : Queue) (m : JalvMessage) : Queue :=
  match m.write q.ring.beginWrite with
  | some tx => ⟨q.ring.commitWrite tx, q.pending ++ [m]⟩
  | none => q

/-- The two rings. -/
structure Rings where
  uiToPlugin : Queue
  pluginToUi : Queue
  deriving DecidableEq

/-- The steps: the writers' calls, with `setPortValue` for the control changes of `set_port_value`
on either ring, and the readers' calls. -/
inductive RingStep where
  | sendToPlugin (w : UiWrite)
  | setPortValue (ring : Ring) (portIndex value : UInt32)
  | deliver (out : CycleOutput)
  | applyUiEvents
  | jalvUpdate

namespace Layout

/-- One step. A reader's call has a step where it is defined. -/
def step (L : Layout) (s : Rings) : RingStep → Option Rings
  | .sendToPlugin w =>
    match L.jalvSendToPlugin w with
    | some m => some { s with uiToPlugin := s.uiToPlugin.write m }
    | none => some s
  | .setPortValue ring portIndex value =>
    if portIndex.toNat < L.ports.length then
      let m := JalvMessage.controlPortChange portIndex value
      match ring with
      | .uiToPlugin => some { s with uiToPlugin := s.uiToPlugin.write m }
      | .pluginToUi => some { s with pluginToUi := s.pluginToUi.write m }
    else none
  | .deliver out =>
    some { s with pluginToUi := (L.deliveries out).foldl Queue.write s.pluginToUi }
  | .applyUiEvents =>
    (L.applyUiEvents s.uiToPlugin.ring).map fun (ring, _) => { s with uiToPlugin := ⟨ring, []⟩ }
  | .jalvUpdate =>
    (L.jalvUpdate s.pluginToUi.ring).map fun (ring, _) => { s with pluginToUi := ⟨ring, []⟩ }

/-- The runs from two empty rings. -/
def rings (L : Layout) (ringSize : UInt32) : Lts Rings RingStep where
  init s := s = ⟨⟨⟨ringSize.toNat, []⟩, []⟩, ⟨⟨ringSize.toNat, []⟩, []⟩⟩
  step s a s' := L.step s a = some s'

end Layout

/-- The ring holds the frames of the pending messages, which are of a kind and have payloads counted
in 32 bits. -/
structure Queued (ringSize : UInt32) (kind : JalvMessage → Prop) (q : Queue) : Prop where
  capacity : q.ring.capacity = ringSize.toNat
  bytes : q.ring.bytes = q.pending.flatMap fun m => m.header.bytes ++ m.payload
  kind : ∀ m ∈ q.pending, kind m
  length_lt : ∀ m ∈ q.pending, m.payload.length < 2 ^ 32

variable {ringSize : UInt32} {kind : JalvMessage → Prop} {q : Queue} {L : Layout} {s : Rings}

/-- A write keeps the ring in order. -/
theorem Queued.write (h : Queued ringSize kind q) {m : JalvMessage} (hm : kind m) :
    Queued ringSize kind (q.write m) := by
  have hamend := m.write_eq q.ring.beginWrite
  rw [ByteRing.Transaction.amendWrite] at hamend
  split at hamend
  next hfit =>
    have hsize := ringSize.toNat_lt
    have hlt : m.payload.length < 2 ^ 32 := by
      rw [List.length_append, ByteRing.beginWrite, h.capacity] at hfit
      simp only at hfit
      omega
    rw [Queue.write, hamend]
    exact
      { capacity := h.capacity
        bytes := by simp [ByteRing.commitWrite, ByteRing.beginWrite, h.bytes]
        kind := fun x hx => (List.mem_append.1 hx).elim (h.kind x) fun hx => by
          rwa [List.mem_singleton.1 hx]
        length_lt := fun x hx => (List.mem_append.1 hx).elim (h.length_lt x) fun hx => by
          rwa [List.mem_singleton.1 hx] }
  next hfull =>
    rw [Queue.write, hamend]
    exact h

/-- So do several writes. -/
theorem Queued.writes (h : Queued ringSize kind q) {ms : List JalvMessage}
    (hms : ∀ m ∈ ms, kind m) : Queued ringSize kind (ms.foldl Queue.write q) := by
  induction ms generalizing q with
  | nil => exact h
  | cons m ms ih =>
      exact ih (h.write (hms m List.mem_cons_self)) fun x hx => hms x (List.mem_cons_of_mem _ hx)

/-- A handler that collects what it makes of each message is defined when all of it is. -/
theorem isSome_foldlM_collect {β : Type} (f : JalvMessage → Option β) (ms : List JalvMessage)
    (acc : List β) :
    (ms.foldlM (fun acc m => (f m).map fun b => acc ++ [b]) acc).isSome ↔
      ∀ m ∈ ms, (f m).isSome := by
  induction ms generalizing acc with
  | nil => simp
  | cons m ms ih =>
      rw [List.foldlM_cons, List.forall_mem_cons]
      cases f m with
      | none => simp
      | some b => simpa using ih (acc ++ [b])

/-- A message that the reader of a ring cannot take stops it. -/
theorem Queued.reads_none {ring : Ring} (h : Queued ringSize kind q)
    (hcarries : ∀ m, kind m → ring.carries m = true) :
    ∀ m ∈ q.pending, ¬(L.framing ring).Valid m → ∀ (r : ByteRing) (rest : List UInt8),
      r.bytes = (L.framing ring).body m ++ rest →
      (L.framing ring).readBody ((L.framing ring).parse ((L.framing ring).header m)) r = none := by
  intro m hm hvalid r rest _
  have hread := Ring.readMessage_eq_none (hcarries m (h.kind m hm)) (h.length_lt m hm) hvalid r
  rw [← m.header.ofBytes_bytes] at hread
  exact hread

/-- After a reader's call its ring is empty. -/
theorem Queued.read {ring : Ring} (h : Queued ringSize kind q)
    (hcarries : ∀ m, kind m → ring.carries m = true) {β : Type}
    {handle : β → JalvMessage → Option β} {b b' : β} {r : ByteRing}
    (hread : (L.framing ring).readAll handle q.ring b = some (r, b')) :
    Queued ringSize kind ⟨r, []⟩ := by
  obtain rfl := (L.framing ring).bytes_of_readAll handle (h.reads_none hcarries) h.bytes hread
  exact ⟨h.capacity, rfl, by simp, by simp⟩

/-- Both rings, in every run. -/
structure RingsInv (ringSize : UInt32) (L : Layout) (s : Rings) : Prop where
  uiToPlugin : Queued ringSize L.UiWritten s.uiToPlugin
  pluginToUi : Queued ringSize (fun m => Ring.pluginToUi.carries m = true) s.pluginToUi

/-- Every step keeps both rings in order. -/
theorem RingsInv.step (h : RingsInv ringSize L s) {a : RingStep} {s' : Rings}
    (hstep : L.step s a = some s') : RingsInv ringSize L s' := by
  cases a with
  | sendToPlugin w =>
      simp only [Layout.step] at hstep
      split at hstep
      next m hm =>
        obtain rfl := Option.some.inj hstep
        exact ⟨h.uiToPlugin.write (Layout.uiWritten_jalvSendToPlugin hm), h.pluginToUi⟩
      next =>
        obtain rfl := Option.some.inj hstep
        exact h
  | setPortValue ring portIndex value =>
      simp only [Layout.step] at hstep
      split at hstep
      next hport =>
        cases ring with
        | uiToPlugin =>
            obtain rfl := Option.some.inj hstep
            exact ⟨h.uiToPlugin.write hport, h.pluginToUi⟩
        | pluginToUi =>
            obtain rfl := Option.some.inj hstep
            exact ⟨h.uiToPlugin, h.pluginToUi.write rfl⟩
      next => cases hstep
  | deliver out =>
      obtain rfl := Option.some.inj hstep
      exact ⟨h.uiToPlugin, h.pluginToUi.writes fun m hm => Layout.carries_of_mem_deliveries hm⟩
  | applyUiEvents =>
      obtain ⟨⟨ring, actions⟩, hread, rfl⟩ := Option.map_eq_some_iff.1 hstep
      exact ⟨h.uiToPlugin.read (fun _ => Layout.UiWritten.carries) hread, h.pluginToUi⟩
  | jalvUpdate =>
      obtain ⟨⟨ring, events⟩, hread, rfl⟩ := Option.map_eq_some_iff.1 hstep
      exact ⟨h.uiToPlugin, h.pluginToUi.read (fun _ h => h) hread⟩

/-- The rings keep their invariant in every run. -/
theorem ringsInv_of_run {tr : List RingStep} (h : (L.rings ringSize).Run tr s) :
    RingsInv ringSize L s :=
  h.invariant (I := fun _ s => RingsInv ringSize L s)
    (fun s hs => by
      obtain rfl : s = _ := hs
      exact ⟨⟨rfl, rfl, by simp, by simp⟩, ⟨rfl, rfl, by simp, by simp⟩⟩)
    (fun _ _ _ _ _ hi hstep => hi.step hstep)

/-! ## Adequacy -/

namespace Layout

variable (L : Layout)

/-- The receiver of `ui_to_plugin` can handle the message: the payload fits `process_msg` and an
event names a port with an event buffer. -/
def UiAdequate (m : JalvMessage) : Prop :=
  m.payload.length ≤ L.processMsgSize.toNat ∧
  ∀ portIndex type body, m = .eventTransfer portIndex type body →
    ∃ port, L.ports[portIndex.toNat]? = some port ∧ port.hasEvbuf = true

/-- An event is for an event port, and with its 12-byte head fits 1024 bytes or the size that some
event input asks for. -/
def UiFits : JalvMessage → Prop
  | .eventTransfer portIndex _ body =>
    (∃ port, L.ports[portIndex.toNat]? = some port ∧ port.type = .event) ∧
    (12 + body.length ≤ 1024 ∨
      ∃ port ∈ L.ports, port.isEventInput = true ∧ 12 + body.length ≤ port.bufSize.toNat)
  | _ => True

/-- The receiver of `plugin_to_ui` can handle the message: the payload fits `ui_msg`. -/
def PluginAdequate (m : JalvMessage) : Prop := m.payload.length ≤ L.uiMsgSize.toNat

/-- The payload fits the size that some output asks for. -/
def PluginFits (m : JalvMessage) : Prop :=
  ∃ port ∈ L.ports, port.flow = .output ∧ m.payload.length ≤ port.bufSize.toNat

variable {L}

/-- A size fits the buffer of the process if it fits 1024 bytes or an event input. -/
theorem le_processMsgSize_iff {n : Nat} :
    n ≤ L.processMsgSize.toNat ↔
      n ≤ 1024 ∨ ∃ port ∈ L.ports, port.isEventInput = true ∧ n ≤ port.bufSize.toNat :=
  le_maxBufSize_iff _ _ _ _

/-- A size fits the buffer of the interface if it fits an output. -/
theorem le_uiMsgSize_iff {n : Nat} (h : 0 < n) :
    n ≤ L.uiMsgSize.toNat ↔
      ∃ port ∈ L.ports, port.flow = .output ∧ n ≤ port.bufSize.toNat := by
  rw [uiMsgSize, le_maxBufSize_iff]
  constructor
  · rintro (hn | ⟨port, hmem, hflow, hn⟩)
    · exact absurd hn (by simpa using h.ne')
    · exact ⟨port, hmem, by simpa using hflow, hn⟩
  · rintro ⟨port, hmem, hflow, hn⟩
    exact .inr ⟨port, hmem, by simpa using hflow, hn⟩

/-- What a written message needs on `ui_to_plugin`. -/
theorem uiAdequate_iff {m : JalvMessage} (h : L.UiWritten m) : L.UiAdequate m ↔ L.UiFits m := by
  cases m with
  | controlPortChange portIndex value =>
      refine iff_of_true ⟨?_, fun _ _ _ heq => nomatch heq⟩ trivial
      exact le_processMsgSize_iff.2 (.inl (by simp [JalvMessage.payload]))
  | eventTransfer portIndex type body =>
      rw [UiAdequate, UiFits, JalvMessage.length_payload_eventTransfer, le_processMsgSize_iff]
      constructor
      · rintro ⟨hsize, hport⟩
        obtain ⟨port, hget, hevbuf⟩ := hport portIndex type body rfl
        exact ⟨⟨port, hget, by simpa [ProcessPort.hasEvbuf] using hevbuf⟩, hsize⟩
      · rintro ⟨⟨port, hget, htype⟩, hsize⟩
        refine ⟨hsize, fun _ _ _ heq => ?_⟩
        obtain ⟨rfl, -, -⟩ := JalvMessage.eventTransfer.inj heq
        exact ⟨port, hget, by simpa [ProcessPort.hasEvbuf] using htype⟩
  | latencyChange | stateRequest | runStateChange => exact h.elim

/-- What a written message needs on `plugin_to_ui`. -/
theorem pluginAdequate_iff {m : JalvMessage} (h : Ring.pluginToUi.carries m = true) :
    L.PluginAdequate m ↔ L.PluginFits m := by
  refine le_uiMsgSize_iff ?_
  cases m with
  | controlPortChange | eventTransfer | latencyChange => simp [JalvMessage.payload]
  | stateRequest | runStateChange => exact absurd h Bool.false_ne_true

/-- `apply_ui_events` takes and handles the messages that it is adequate for. -/
theorem uiHandled_iff {m : JalvMessage} (h : L.UiWritten m) :
    ((L.framing .uiToPlugin).Valid m ∧ (L.uiAction m).isSome) ↔ L.UiAdequate m := by
  cases m with
  | controlPortChange portIndex value =>
      refine iff_of_true ⟨⟨rfl, Nat.zero_le _⟩, ?_⟩ ((uiAdequate_iff h).2 trivial)
      have hlt : portIndex.toNat < L.ports.length := h
      rw [uiAction, if_pos hlt]
      rfl
  | eventTransfer portIndex type body =>
      have hvalid : (L.framing .uiToPlugin).Valid (.eventTransfer portIndex type body) ↔
          (JalvMessage.eventTransfer portIndex type body).payload.length ≤
            L.processMsgSize.toNat := by
        rw [JalvMessage.length_payload_eventTransfer]
        exact and_iff_right rfl
      rw [hvalid, UiAdequate]
      refine and_congr_right fun _ => ?_
      have hlt : portIndex.toNat < L.ports.length := h
      simp [uiAction, List.getElem?_eq_getElem hlt]
  | latencyChange | stateRequest | runStateChange => exact h.elim

/-- `jalv_update` handles every message that fits `ui_msg`. -/
theorem pluginHandled_iff {m : JalvMessage} (h : Ring.pluginToUi.carries m = true) :
    ((L.framing .pluginToUi).Valid m ∧ (L.frontendEvent m).isSome) ↔ L.PluginAdequate m := by
  have hvalid : (L.framing .pluginToUi).Valid m ↔ L.PluginAdequate m := and_iff_right h
  rw [hvalid]
  refine and_iff_left ?_
  cases m with
  | controlPortChange | eventTransfer | latencyChange => rfl
  | stateRequest | runStateChange => exact absurd h Bool.false_ne_true

/-- In every run, for every message that a ring accepted: the receiver can handle it exactly when it
fits what the ports of the plugin ask for, and the receiver's next call is free of failing
assertions, overruns and missing event buffers exactly when that is so of all that it will read. -/
theorem receivers_defined_iff {ringSize : UInt32} {tr : List RingStep} {s : Rings}
    (h : (L.rings ringSize).Run tr s) :
    (∀ m ∈ s.uiToPlugin.pending, L.UiAdequate m ↔ L.UiFits m) ∧
    (∀ m ∈ s.pluginToUi.pending, L.PluginAdequate m ↔ L.PluginFits m) ∧
    ((L.applyUiEvents s.uiToPlugin.ring).isSome ↔ ∀ m ∈ s.uiToPlugin.pending, L.UiFits m) ∧
    ((L.jalvUpdate s.pluginToUi.ring).isSome ↔ ∀ m ∈ s.pluginToUi.pending, L.PluginFits m) := by
  obtain ⟨hui, hplugin⟩ := ringsInv_of_run h
  refine ⟨fun m hm => uiAdequate_iff (hui.kind m hm),
    fun m hm => pluginAdequate_iff (hplugin.kind m hm), ?_, ?_⟩
  · rw [applyUiEvents, Framing.isSome_readAll_iff _ _ (hui.reads_none fun _ => UiWritten.carries)
      hui.bytes, isSome_foldlM_collect, ← forall₂_and]
    refine forall₂_congr fun m hm => ?_
    rw [uiHandled_iff (hui.kind m hm), uiAdequate_iff (hui.kind m hm)]
  · rw [jalvUpdate, Framing.isSome_readAll_iff _ _ (hplugin.reads_none fun _ h => h)
      hplugin.bytes, isSome_foldlM_collect, ← forall₂_and]
    refine forall₂_congr fun m hm => ?_
    rw [pluginHandled_iff (hplugin.kind m hm), pluginAdequate_iff (hplugin.kind m hm)]

/-- A note-on that the UI sends to port 0. -/
def noteOnWrite : UiWrite where
  portIndex := 0
  bufferSize := 11
  protocol := 1
  buffer := wordBytes 3 ++ (wordBytes 7 ++ [0x90, 60, 100])
  length_buffer := rfl

/-- A synth with a MIDI input that asks for 2048 bytes and a control output that asks for none. -/
def synth : Layout where
  ports := [⟨.event, .input, some 2048, false⟩, ⟨.control, .output, none, false⟩]
  controlIn := 0
  urids := ⟨2, 1, 3, 4, 5⟩

/-- The receiver can handle the note-on. -/
theorem receivers_defined_noteOn :
    ∃ s, (synth.rings 4096).Run [.sendToPlugin noteOnWrite] s ∧
      s.uiToPlugin.pending = [.eventTransfer 0 7 [0x90, 60, 100]] ∧
      (synth.applyUiEvents s.uiToPlugin.ring).isSome := by
  have hrun : (synth.rings 4096).Run [.sendToPlugin noteOnWrite]
      ⟨Queue.write ⟨⟨4096, []⟩, []⟩ (.eventTransfer 0 7 [0x90, 60, 100]), ⟨⟨4096, []⟩, []⟩⟩ :=
    Lts.run_of_foldlM (fun _ _ _ h => h) rfl rfl
  refine ⟨_, hrun, rfl, (receivers_defined_iff hrun).2.2.1.2 ?_⟩
  intro m hm
  obtain rfl : m = .eventTransfer 0 7 [0x90, 60, 100] := List.mem_singleton.1 hm
  exact ⟨⟨_, rfl, rfl⟩, .inl (by decide)⟩

/-- The same synth with a control output that reports its latency. -/
def latencySynth : Layout where
  ports := [⟨.event, .input, some 2048, false⟩, ⟨.control, .output, none, true⟩]
  controlIn := 0
  urids := ⟨2, 1, 3, 4, 5⟩

/-- The first latency of the plugin is accepted by the ring, and overruns `ui_msg`, which has no
bytes; so does the value of a control output where the host asks for updates. -/
theorem controlOutput_overruns :
    let latency : JalvMessage := .latencyChange (64 : UInt32).toFloat32.toBits
    let value : JalvMessage := .controlPortChange 1 0x3f800000
    let reported : CycleOutput :=
      ⟨fun _ => some (64 : UInt32).toFloat32.toBits, fun _ => [], fun _ => 0, false, false⟩
    let updated : CycleOutput := ⟨fun _ => none, fun _ => [], fun _ => 0x3f800000, true, false⟩
    (∃ s, (latencySynth.rings 4096).Run [.deliver reported] s ∧
      s.pluginToUi.pending = [latency] ∧ ¬latencySynth.PluginAdequate latency ∧
      latencySynth.jalvUpdate s.pluginToUi.ring = none) ∧
    ∃ s, (synth.rings 4096).Run [.deliver updated] s ∧ s.pluginToUi.pending = [value] ∧
      ¬synth.PluginAdequate value ∧ synth.jalvUpdate s.pluginToUi.ring = none := by
  intro latency value reported updated
  have hlatency : (latencySynth.rings 4096).Run [.deliver reported]
      ⟨⟨⟨4096, []⟩, []⟩, Queue.write ⟨⟨4096, []⟩, []⟩ latency⟩ :=
    Lts.run_of_foldlM (fun _ _ _ h => h) rfl rfl
  have hvalue : (synth.rings 4096).Run [.deliver updated]
      ⟨⟨⟨4096, []⟩, []⟩, Queue.write ⟨⟨4096, []⟩, []⟩ value⟩ :=
    Lts.run_of_foldlM (fun _ _ _ h => h) rfl rfl
  exact ⟨⟨_, hlatency, rfl, Nat.not_le.2 (by decide), rfl⟩,
    _, hvalue, rfl, Nat.not_le.2 (by decide), rfl⟩

end Layout

end Soundcan.Galv
