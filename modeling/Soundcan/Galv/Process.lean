import Soundcan.Galv.Layout
import Soundcan.Galv.Evbuf

/-!
# The process thread

`process_cb` step by step: the test of `run_state`, the preparation of the port buffers, the loop of
`apply_ui_events` message by message, and the start and end of `lilv_instance_run`. A silent cycle
(`process_silent`) applies the messages of the UI and returns. The thread reads `ui_to_plugin` at
the grain of single ring operations, as one end of its `Framing.Channel`; the other end is the UI
thread's. Steps that would fail an assertion or leave an allocation are undefined.

What the cycle does behind `lilv_instance_run` (worker replies, MIDI output, messages to the UI)
touches none of the state here.
-/

namespace Soundcan.Galv

open Lv2 Framing

/-- Where the process thread is. `running` says that the cycle was entered in the state
`RUNNING`. -/
inductive ProcessPc where
  | idle
  | cycle (running : Bool)
  | applying (running : Bool)
  | apply (running : Bool) (msg : JalvMessage)
  | post (running : Bool)
  | run
  | running
  deriving DecidableEq, Repr

/-- The state of the process thread, with its end of `ui_to_plugin` and the semaphore `paused`.
`due` is history: by port, the events that `apply_ui_events` has written since the plugin last
ran. -/
structure Process where
  uiToPlugin : Channel JalvMessage JalvMessageHeader
  runState : JalvRunState
  paused : Nat
  nframes : UInt32
  evbufs : Nat → Evbuf
  controls : Nat → UInt32
  pc : ProcessPc
  due : Nat → List AtomEvent

/-- What `process_cb` has for the event inputs before the plugin runs: by port, the position and the
MIDI events of the cycle. -/
structure Prepared where
  events : Nat → List AtomEvent
  fits : ∀ p, ∀ ev ∈ events p, ev.Fits

/-- What the plugin writes when it runs: the bytes of its event outputs and its control outputs. -/
structure PluginOutput where
  events : Nat → Nat → UInt8
  controls : Nat → UInt32

/-- The steps of the process thread. -/
inductive ProcessStep where
  | cycle (nframes : UInt32) (prepared : Prepared)
  | enter
  | read
  | apply
  | post
  | runPlugin
  | endRun (out : PluginOutput)

/-! ## The state after activation -/

/-- `JalvSettings`; the sizes in a buffer of `midi_buf_size` bytes are counted in 32 bits. -/
structure JalvSettings where
  midiBufSize : Nat
  midiBufSize_le : midiBufSize + 40 ≤ 2 ^ 32

/-- The event buffer that `jalv_process_activate` gives a port. -/
def Layout.newEvbuf (L : Layout) (settings : JalvSettings) (port : ProcessPort) : Option Evbuf :=
  let size := if port.bufSize ≠ 0 then port.bufSize.toNat else settings.midiBufSize
  (Evbuf.new size L.urids.atomChunk.toNat L.urids.atomSequence.toNat).reset (port.flow = .input)

/-- The state behind `jalv_activate`: running, with an empty ring and new event buffers. -/
structure Process.Initial (L : Layout) (settings : JalvSettings) (ringSize : UInt32)
    (s : Process) : Prop where
  uiToPlugin : s.uiToPlugin = ⟨⟨ringSize.toNat, []⟩, none, .idle, [], [], 0⟩
  runState : s.runState = .running
  paused : s.paused = 0
  pc : s.pc = .idle
  due : s.due = fun _ => []
  evbufs : ∀ p port, L.ports[p]? = some port → port.hasEvbuf = true →
    L.newEvbuf settings port = some (s.evbufs p)

/-! ## Preparing the port buffers -/

/-- What `process_cb` does to the buffer of an event port. -/
def preparePort (port : ProcessPort) (prepared : List AtomEvent) (b : Evbuf) : Option Evbuf :=
  if port.isEventInput then do
    let b ← b.reset true
    b.writeAll 0 prepared
  else if port.hasEvbuf then
    b.reset false
  else
    some b

/-- The loop over the ports from port `p` on. -/
def preparePorts (prepared : Prepared) :
    List ProcessPort → Nat → (Nat → Evbuf) → Option (Nat → Evbuf)
  | [], _, evbufs => some evbufs
  | port :: ports, p, evbufs => do
    let b ← preparePort port (prepared.events p) (evbufs p)
    preparePorts prepared ports (p + 1) (Function.update evbufs p b)

namespace Process

/-! ## Steps -/

/-- The effect of an action of `apply_ui_events`. -/
def perform (s : Process) (running : Bool) : UiAction → Option Process
  | .setControl port value =>
    some { s with
      controls := Function.update s.controls port value
      pc := .applying running }
  | .writeEvent port type body => do
    let b := s.evbufs port
    let ev : AtomEvent := ⟨s.nframes.toNat, type.toNat, body⟩
    let offset ← b.endOffset
    let (written, b, _) ← b.write offset ev
    let due := if written then Function.update s.due port (s.due port ++ [ev]) else s.due
    some { s with evbufs := Function.update s.evbufs port b, due, pc := .applying running }
  | .setRunState .paused => some { s with runState := .paused, pc := .post running }
  | .setRunState .running => some { s with runState := .running, pc := .applying running }

/-- One step. -/
def step (L : Layout) (s : Process) : ProcessStep → Option Process
  | .cycle nframes prepared =>
    match s.pc with
    | .idle =>
      if s.runState = .paused then
        some { s with nframes, pc := .cycle false }
      else do
        let evbufs ← preparePorts prepared L.ports 0 s.evbufs
        some { s with nframes, evbufs, pc := .cycle true }
    | _ => none
  | .enter =>
    match s.pc with
    | .cycle running => do
      let uiToPlugin ← Channel.step (L.framing .uiToPlugin) s.uiToPlugin .enter
      some { s with uiToPlugin, pc := .applying running }
    | _ => none
  | .read =>
    match s.pc with
    | .applying running => do
      let (uiToPlugin, msg) ← s.uiToPlugin.readStep (L.framing .uiToPlugin)
      match msg, uiToPlugin.reader with
      | some msg, _ => some { s with uiToPlugin, pc := .apply running msg }
      | none, .failed => none
      | none, .idle => some { s with uiToPlugin, pc := if running then .run else .idle }
      | none, _ => some { s with uiToPlugin }
    | _ => none
  | .apply =>
    match s.pc with
    | .apply running msg => do
      let action ← L.uiAction msg
      s.perform running action
    | _ => none
  | .post =>
    match s.pc with
    | .post running => some { s with paused := s.paused + 1, pc := .applying running }
    | _ => none
  | .runPlugin =>
    match s.pc with
    | .run => some { s with due := fun _ => [], pc := .running }
    | _ => none
  | .endRun out =>
    match s.pc with
    | .running =>
      let evbufs p := match L.ports[p]? with
        | some port =>
          if port.type = .event ∧ port.flow = .output then
            { s.evbufs p with buf := { (s.evbufs p).buf with byte := out.events p } }
          else s.evbufs p
        | none => s.evbufs p
      let controls p := match L.ports[p]? with
        | some port =>
          if port.type = .control ∧ port.flow = .output then out.controls p else s.controls p
        | none => s.controls p
      some { s with evbufs, controls, pc := .idle }
    | _ => none

/-! ## What a step does -/

variable {L : Layout} {s s' : Process}

/-- A cycle begins silent, or with the port buffers prepared. -/
theorem step_cycle {nframes : UInt32} {prepared : Prepared}
    (h : s.step L (.cycle nframes prepared) = some s') :
    s.pc = .idle ∧
      (s.runState = .paused ∧ s' = { s with nframes, pc := .cycle false } ∨
        s.runState = .running ∧ ∃ evbufs,
          preparePorts prepared L.ports 0 s.evbufs = some evbufs ∧
          s' = { s with nframes, evbufs, pc := .cycle true }) := by
  simp only [step] at h
  split at h
  next hpc =>
    split at h
    next hstate =>
      exact ⟨hpc, .inl ⟨hstate, (Option.some.inj h).symm⟩⟩
    next hstate =>
      obtain ⟨evbufs, hevbufs, hs'⟩ := Option.bind_eq_some_iff.1 h
      refine ⟨hpc, .inr ⟨?_, evbufs, hevbufs, (Option.some.inj hs').symm⟩⟩
      cases hrun : s.runState with
      | running => rfl
      | paused => exact absurd hrun hstate
  next => cases h

/-- The reader of the channel is entered at the start of a cycle. -/
theorem step_enter (h : s.step L .enter = some s') :
    ∃ r uiToPlugin, s.pc = .cycle r ∧
      Channel.step (L.framing .uiToPlugin) s.uiToPlugin .enter = some uiToPlugin ∧
      s' = { s with uiToPlugin, pc := .applying r } := by
  simp only [step] at h
  split at h
  next r hpc =>
    obtain ⟨uiToPlugin, henter, hs'⟩ := Option.bind_eq_some_iff.1 h
    exact ⟨r, uiToPlugin, hpc, henter, (Option.some.inj hs').symm⟩
  next => cases h

/-- A read goes on in the loop, completes a message, or ends the loop. -/
theorem step_read (h : s.step L .read = some s') :
    ∃ r uiToPlugin msg pc, s.pc = .applying r ∧
      s.uiToPlugin.readStep (L.framing .uiToPlugin) = some (uiToPlugin, msg) ∧
      s' = { s with uiToPlugin, pc } ∧
      (pc = .applying r ∧ msg = none ∨ (∃ m, pc = .apply r m ∧ msg = some m) ∨
        pc = (if r then .run else .idle) ∧ msg = none) := by
  simp only [step] at h
  split at h
  next r hpc =>
    obtain ⟨⟨uiToPlugin, msg⟩, hread, h⟩ := Option.bind_eq_some_iff.1 h
    refine ⟨r, uiToPlugin, msg, s'.pc, hpc, hread, ?_⟩
    dsimp only at h
    split at h
    next =>
      obtain rfl := Option.some.inj h
      exact ⟨rfl, .inr (.inl ⟨_, rfl, rfl⟩)⟩
    next => cases h
    next =>
      obtain rfl := Option.some.inj h
      exact ⟨rfl, .inr (.inr ⟨rfl, rfl⟩)⟩
    next =>
      obtain rfl := Option.some.inj h
      exact ⟨rfl, .inl ⟨hpc, rfl⟩⟩
  next => cases h

/-- A message is applied as its action. -/
theorem step_apply (h : s.step L .apply = some s') :
    ∃ r m action, s.pc = .apply r m ∧ L.uiAction m = some action ∧
      s.perform r action = some s' := by
  simp only [step] at h
  split at h
  next r m hpc =>
    obtain ⟨action, haction, hperform⟩ := Option.bind_eq_some_iff.1 h
    exact ⟨r, m, action, hpc, haction, hperform⟩
  next => cases h

/-- A pause is answered with a post. -/
theorem step_post (h : s.step L .post = some s') :
    ∃ r, s.pc = .post r ∧ s' = { s with paused := s.paused + 1, pc := .applying r } := by
  simp only [step] at h
  split at h
  next r hpc => exact ⟨r, hpc, (Option.some.inj h).symm⟩
  next => cases h

/-- The plugin runs, and nothing is due to it any more. -/
theorem step_runPlugin (h : s.step L .runPlugin = some s') :
    s.pc = .run ∧ s' = { s with due := fun _ => [], pc := .running } := by
  simp only [step] at h
  split at h
  next hpc => exact ⟨hpc, (Option.some.inj h).symm⟩
  next => cases h

/-- The run of the plugin leaves the buffers of the event inputs as they are. -/
theorem step_endRun {out : PluginOutput} (h : s.step L (.endRun out) = some s') :
    s.pc = .running ∧ ∃ evbufs controls, s' = { s with evbufs, controls, pc := .idle } ∧
      ∀ p port, L.ports[p]? = some port → port.isEventInput = true → evbufs p = s.evbufs p := by
  simp only [step] at h
  split at h
  next hpc =>
    refine ⟨hpc, _, _, (Option.some.inj h).symm, ?_⟩
    intro p port hport hinput
    have hflow : ¬(port.type = .event ∧ port.flow = .output) := by
      intro ⟨_, hout⟩
      simp [ProcessPort.isEventInput, hout] at hinput
    simp only [hport]
    rw [if_neg hflow]
  next => cases h

/-- The run of the plugin leaves the controls as they are, but for its control outputs. -/
theorem step_endRun_controls {out : PluginOutput} (h : s.step L (.endRun out) = some s') {p : Nat}
    {port : ProcessPort} (hport : L.ports[p]? = some port)
    (hflow : ¬(port.type = .control ∧ port.flow = .output)) : s'.controls p = s.controls p := by
  simp only [step] at h
  split at h
  · rw [← Option.some.inj h]
    simp only [hport]
    rw [if_neg hflow]
  · cases h

/-- A written event is due if it fitted. -/
theorem perform_writeEvent {r : Bool} {port : Nat} {type : UInt32} {body : List UInt8}
    (h : s.perform r (.writeEvent port type body) = some s') :
    ∃ offset written b next,
      (s.evbufs port).endOffset = some offset ∧
      (s.evbufs port).write offset ⟨s.nframes.toNat, type.toNat, body⟩ =
        some (written, b, next) ∧
      s' = { s with
        evbufs := Function.update s.evbufs port b
        due := if written then
            Function.update s.due port (s.due port ++ [⟨s.nframes.toNat, type.toNat, body⟩])
          else s.due
        pc := .applying r } := by
  simp only [perform] at h
  obtain ⟨offset, hoffset, h⟩ := Option.bind_eq_some_iff.1 h
  obtain ⟨⟨written, b, next⟩, hwrite, h⟩ := Option.bind_eq_some_iff.1 h
  exact ⟨offset, written, b, next, hoffset, hwrite, (Option.some.inj h).symm⟩

/-- No action touches the channel that it came from. -/
theorem perform_uiToPlugin {r : Bool} {action : UiAction} (h : s.perform r action = some s') :
    s'.uiToPlugin = s.uiToPlugin := by
  cases action with
  | setControl port value =>
      obtain rfl := Option.some.inj h
      rfl
  | writeEvent port type body =>
      obtain ⟨_, _, _, _, -, -, rfl⟩ := perform_writeEvent h
      rfl
  | setRunState state =>
      cases state <;> obtain rfl := Option.some.inj h <;> rfl

/-- Behind an action the thread goes on in the loop, or posts the semaphore first. -/
theorem perform_pc {r : Bool} {action : UiAction} (h : s.perform r action = some s') :
    s'.pc = .applying r ∨ s'.pc = .post r := by
  cases action with
  | setControl port value =>
      obtain rfl := Option.some.inj h
      exact .inl rfl
  | writeEvent port type body =>
      obtain ⟨_, _, _, _, -, -, rfl⟩ := perform_writeEvent h
      exact .inl rfl
  | setRunState state =>
      cases state with
      | running =>
          obtain rfl := Option.some.inj h
          exact .inl rfl
      | paused =>
          obtain rfl := Option.some.inj h
          exact .inr rfl

/-- The process thread keeps the ring in order and does not write to it. -/
theorem step_channel {a : ProcessStep} (h : s.step L a = some s')
    (hchan : (L.framing .uiToPlugin).ChannelInv s.uiToPlugin) :
    (L.framing .uiToPlugin).ChannelInv s'.uiToPlugin ∧
      s'.uiToPlugin.writing = s.uiToPlugin.writing := by
  cases a with
  | cycle nframes prepared =>
      obtain ⟨-, ⟨-, rfl⟩ | ⟨-, _, -, rfl⟩⟩ := step_cycle h <;> exact ⟨hchan, rfl⟩
  | enter =>
      obtain ⟨r, uiToPlugin, -, henter, rfl⟩ := step_enter h
      exact ⟨hchan.step (a := .enter) trivial henter, (Channel.pending_enter henter).1⟩
  | read =>
      obtain ⟨r, uiToPlugin, msg, pc, -, hread, rfl, -⟩ := step_read h
      obtain ⟨hinv, hwriting, -⟩ := hchan.readStep hread
      exact ⟨hinv, hwriting⟩
  | apply =>
      obtain ⟨r, m, action, -, -, hperform⟩ := step_apply h
      rw [perform_uiToPlugin hperform]
      exact ⟨hchan, rfl⟩
  | post =>
      obtain ⟨r, -, rfl⟩ := step_post h
      exact ⟨hchan, rfl⟩
  | runPlugin =>
      obtain ⟨-, rfl⟩ := step_runPlugin h
      exact ⟨hchan, rfl⟩
  | endRun out =>
      obtain ⟨-, _, _, rfl, -⟩ := step_endRun h
      exact ⟨hchan, rfl⟩

end Process

/-! ## A small plugin -/

/-- An event input that asks for no size. -/
def eventInput : ProcessPort := ⟨.event, .input, none, false⟩

/-- A plugin with one port, the control input. -/
def oneInput : Layout := ⟨[eventInput], 0, ⟨2, 1, 3, 4, 5⟩⟩

/-- A cycle without position and MIDI events. -/
def nothingPrepared : Prepared := ⟨fun _ => [], by simp⟩

/-- MIDI buffers of 4096 bytes. -/
def midi4096 : JalvSettings := ⟨4096, by norm_num⟩

/-- The input has a buffer. -/
theorem isSome_newEvbuf_oneInput : (oneInput.newEvbuf midi4096 eventInput).isSome := rfl

/-- Its event buffer. -/
def oneInputEvbuf : Evbuf := (oneInput.newEvbuf midi4096 eventInput).get isSome_newEvbuf_oneInput

/-- The process thread behind the activation of the plugin. -/
def oneInputProcess : Process where
  uiToPlugin := ⟨⟨4096, []⟩, none, .idle, [], [], 0⟩
  runState := .running
  paused := 0
  nframes := 0
  evbufs _ := oneInputEvbuf
  controls _ := 0
  pc := .idle
  due _ := []

/-- The process starts as it should. -/
theorem initial_oneInputProcess : oneInputProcess.Initial oneInput midi4096 4096 where
  uiToPlugin := rfl
  runState := rfl
  paused := rfl
  pc := rfl
  due := rfl
  evbufs p port hport _ := by
    obtain rfl : port = eventInput := by
      cases p <;> simp [oneInput] at hport
      exact hport.symm
    exact (Option.some_get isSome_newEvbuf_oneInput).symm

end Soundcan.Galv
