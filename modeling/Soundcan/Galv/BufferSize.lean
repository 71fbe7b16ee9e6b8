import Soundcan.Lib.Replaceable
import Soundcan.Galv.Restore

/-!
# A change of the buffer size

`buffer_size_cb` calls `jalv_process_activate` again while the plugin is `RUNNING`: both rings and
the event buffers are replaced by new ones. JACK calls it between two cycles of the process thread,
and the UI thread goes on beside it. What `ui_to_plugin` holds is lost then, a pause request with
the rest, and the UI thread waits for ever for its answer; so is what `plugin_to_ui` holds behind
the call of `jalv_update` under way, and what the writes under way put into the replaced rings
(`losesNothing_iff`).
-/

namespace Soundcan.Galv

open Framing

/-! ## The rings and their users -/

/-- The two threads, with the rings that were in the place of `ui_to_plugin`, the oldest first, and
`plugin_to_ui` with those in its place. -/
structure Resizing where
  host : Host
  replaced : List (Channel JalvMessage JalvMessageHeader)
  pluginToUi : Replaceable JalvMessage JalvMessageHeader

/-- The steps: those of the two threads, the end of a write of the UI thread to a ring that was
replaced meanwhile, the operations on `plugin_to_ui`, and `buffer_size_cb` with the settings that
it leaves. -/
inductive ResizingStep where
  | host (a : HostStep)
  | finishReplaced (i : Nat)
  | pluginToUi (a : ReplaceableStep JalvMessage)
  | bufferSize (settings : JalvSettings)

/-- The messages that the writers of a ring give it: of a type that it carries, with a size that is
a 32-bit word. -/
abbrev Ring.Writes (ring : Ring) (m : JalvMessage) : Prop := ring.Receivable 0xffffffff m

/-- The new event buffers of the ports from port `p` on. -/
def Layout.activatePorts (L : Layout) (settings : JalvSettings) :
    List ProcessPort → Nat → (Nat → Evbuf) → Option (Nat → Evbuf)
  | [], _, evbufs => some evbufs
  | port :: ports, p, evbufs =>
    if port.hasEvbuf then do
      let b ← L.newEvbuf settings port
      L.activatePorts settings ports (p + 1) (Function.update evbufs p b)
    else
      L.activatePorts settings ports (p + 1) evbufs

/-- A step of the two threads for a plugin that restores its state safely, or does not. -/
def Host.stepOf (L : Layout) (safeRestore : Bool) (s : Host) : HostStep → Option Host
  | .test => (s.step L .test).map fun _ => s.test safeRestore
  | a => s.step L a

namespace Resizing

/-- `ui_to_plugin` and the rings that it has replaced. -/
def uiToPlugin (s : Resizing) : Replaceable JalvMessage JalvMessageHeader :=
  ⟨s.host.process.uiToPlugin, s.replaced⟩

/-- The UI thread does nothing else while it is in a write to a replaced ring. -/
def allows (s : Resizing) : HostStep → Bool
  | .process _ => true
  | .begin m => s.replaced.all (·.writing.isNone) && decide (Ring.uiToPlugin.Writes m)
  | _ => s.replaced.all (·.writing.isNone)

/-- The operations of the writers of `plugin_to_ui` and of its reader. -/
def isOperation : ReplaceableStep JalvMessage → Bool
  | .current (.begin m) => decide (Ring.pluginToUi.Writes m)
  | .current _ | .replaced _ _ => true
  | .replace => false

/-- One step. -/
def step (L : Layout) (safeRestore : Bool) (ringSize : UInt32) (s : Resizing) :
    ResizingStep → Option Resizing
  | .host a =>
    if s.allows a then do
      let host ← s.host.stepOf L safeRestore a
      some { s with host }
    else none
  | .finishReplaced i => do
    let rings ← s.uiToPlugin.step (L.framing .uiToPlugin) ringSize.toNat (.replaced i .finish)
    some { s with host := { s.host with ui := s.host.ui.afterWrite }, replaced := rings.replaced }
  | .pluginToUi a =>
    if isOperation a then do
      let pluginToUi ← s.pluginToUi.step (L.framing .pluginToUi) ringSize.toNat a
      some { s with pluginToUi }
    else none
  | .bufferSize settings =>
    match s.host.process.pc with
    | .idle =>
      if s.host.process.runState = .running then do
        let evbufs ← L.activatePorts settings L.ports 0 s.host.process.evbufs
        let rings ← s.uiToPlugin.step (L.framing .uiToPlugin) ringSize.toNat .replace
        let pluginToUi ← s.pluginToUi.step (L.framing .pluginToUi) ringSize.toNat .replace
        let process := { s.host.process with uiToPlugin := rings.current, evbufs }
        some ⟨{ s.host with process }, rings.replaced, pluginToUi⟩
      else some s
    | _ => none

/-- A pause request is on its way to the process thread, or is applied and to be answered, or is
answered. -/
def Answers (s : Resizing) : Prop :=
  .runStateChange .paused ∈ s.host.process.unapplied ∨ s.host.process.pc.isPost = true ∨
    0 < s.host.process.paused

/-- Every message that a replaced ring accepted is delivered, or is by the call under way, and a UI
thread that waits is answered. -/
structure LosesNothing (s : Resizing) : Prop where
  uiToPlugin : s.uiToPlugin.Delivered
  pluginToUi : s.pluginToUi.Delivered
  answered : s.host.ui = .wait → s.Answers

/-- The steps that lose nothing. A change of the buffer size finds `ui_to_plugin` empty, and nothing
in `plugin_to_ui` behind what the call of `jalv_update` under way reads; a write that is under way
on a replaced ring is refused, and is no pause request; and a pause request finds room. -/
def Keeps (L : Layout) (s : Resizing) : ResizingStep → Prop
  | .bufferSize _ => s.host.process.runState = .running →
    s.host.process.uiToPlugin.pending = [] ∧ s.pluginToUi.current.Delivered
  | .finishReplaced i => s.host.ui ≠ .sendPause ∧
    s.uiToPlugin.Keeps (L.framing .uiToPlugin) (.replaced i .finish)
  | .pluginToUi a => s.pluginToUi.Keeps (L.framing .pluginToUi) a
  | .host .finish => s.host.ui = .sendPause →
    ∀ w ∈ s.host.process.uiToPlugin.writing, 12 ≤ w.2.free
  | .host _ => True

instance (L : Layout) (s : Resizing) (a : ResizingStep) : Decidable (s.Keeps L a) :=
  match a with
  | .bufferSize _ => inferInstanceAs (Decidable (_ → _ ∧ _))
  | .finishReplaced _ => inferInstanceAs (Decidable (_ ∧ Replaceable.Keeps _ _ _))
  | .pluginToUi _ => inferInstanceAs (Decidable (Replaceable.Keeps _ _ _))
  | .host .finish =>
    inferInstanceAs (Decidable (_ → ∀ w ∈ s.host.process.uiToPlugin.writing, 12 ≤ w.2.free))
  | .host .test | .host (.begin _) | .host .wake | .host .startRestore | .host (.setPortValue _ _)
  | .host .endRestore | .host .leave | .host (.process _) => inferInstanceAs (Decidable True)

end Resizing

/-- The runs, from the state behind `jalv_activate`. -/
def resizing (L : Layout) (safeRestore : Bool) (settings : JalvSettings) (ringSize : UInt32) :
    Lts Resizing ResizingStep where
  init s := (host L settings ringSize).init s.host ∧ s.replaced = [] ∧
    s.pluginToUi = ⟨.new ringSize.toNat, []⟩
  step s a s' := s.step L safeRestore ringSize a = some s'

/-! ## Readers of any buffer size -/

/-- A ring with a reader whose buffer takes every message. -/
def Ring.unbounded (ring : Ring) : Framing JalvMessage JalvMessageHeader :=
  Galv.framing ring 0xffffffff

/-- What a reader takes, it takes with the largest buffer. -/
theorem Ring.readMessage_unbounded {ring : Ring} {bufferSize : UInt32} {header : JalvMessageHeader}
    {r : ByteRing} {x : JalvMessage × ByteRing}
    (h : ring.readMessage bufferSize header r = some x) :
    ring.readMessage 0xffffffff header r = some x := by
  have hmax : header.size ≤ 0xffffffff := by
    rw [UInt32.le_iff_toNat_le]
    exact Nat.le_of_lt_succ header.size.toNat_lt
  cases ring with
  | uiToPlugin =>
      simp only [readMessage, readUiMessage] at h ⊢
      split at h
      next htype => rw [if_pos htype, h]
      next htype =>
        rw [if_neg htype]
        split at h
        next htype' =>
          rw [if_pos htype', if_pos hmax]
          split at h
          · exact h
          · cases h
        next htype' => rw [if_neg htype', h]
  | pluginToUi =>
      simp only [readMessage, readPluginMessage] at h ⊢
      rw [if_pos hmax]
      split at h
      · exact h
      · cases h

section
variable {ring : Ring} {bufferSize : UInt32} {c c' : Channel JalvMessage JalvMessageHeader}

/-- A step of a reader that does not fail is one of the reader with the largest buffer. -/
theorem readStep_unbounded {msg : Option JalvMessage}
    (h : c.readStep (framing ring bufferSize) = some (c', msg)) (hreader : c'.reader ≠ .failed) :
    c.readStep ring.unbounded = some (c', msg) := by
  cases hrd : c.reader with
  | idle | failed => simp [Channel.readStep, hrd] at h
  | loop i space =>
      rw [← h]
      simp only [Channel.readStep, hrd]
      rfl
  | body header i space =>
      have hbody : (framing ring bufferSize).readBody header c.ring =
        ring.readMessage bufferSize header c.ring := rfl
      simp only [Channel.readStep, hrd, hbody] at h
      split at h
      next m r hread =>
        have hunbounded : ring.unbounded.readBody header c.ring = some (m, r) :=
          Ring.readMessage_unbounded hread
        simp only [Channel.readStep, hrd, hunbounded]
        exact h
      next =>
        obtain ⟨rfl, -⟩ := Prod.mk.inj (Option.some.inj h)
        exact absurd rfl hreader

/-- A channel that does not fail is one without bounds. -/
theorem step_unbounded {a : ChannelStep JalvMessage}
    (h : Channel.step (framing ring bufferSize) c a = some c') (hreader : c'.reader ≠ .failed) :
    Channel.step ring.unbounded c a = some c' := by
  cases a with
  | begin | finish | enter => exact h
  | read =>
      obtain ⟨⟨c₁, msg⟩, hread, rfl⟩ := Option.map_eq_some_iff.1 h
      exact Option.map_eq_some_iff.2 ⟨(c₁, msg), readStep_unbounded hread hreader, rfl⟩

/-- So is a step on a ring or on those in its place. -/
theorem replaceableStep_unbounded {capacity : Nat}
    {s s' : Replaceable JalvMessage JalvMessageHeader} {a : ReplaceableStep JalvMessage}
    (h : s.step (framing ring bufferSize) capacity a = some s') :
    s.step ring.unbounded capacity a = some s' := by
  have hchecked : ∀ {c c' : Channel JalvMessage JalvMessageHeader} {a : ChannelStep JalvMessage},
      c.checkedStep (framing ring bufferSize) a = some c' →
      c.checkedStep ring.unbounded a = some c' := by
    intro c c' a hstep
    obtain ⟨hchannel, hreader⟩ := Channel.checkedStep_eq hstep
    rw [Channel.checkedStep, step_unbounded hchannel hreader]
    rw [Channel.checkedStep, hchannel] at hstep
    exact hstep
  cases a with
  | current a =>
      simp only [Replaceable.step] at h ⊢
      split at h
      next hallows =>
        obtain ⟨current, hcurrent, hs'⟩ := Option.bind_eq_some_iff.1 h
        rw [if_pos hallows, hchecked hcurrent]
        exact hs'
      next => cases h
  | replaced i a =>
      simp only [Replaceable.step] at h ⊢
      split at h
      next hgoes =>
        obtain ⟨c, hc, hrest⟩ := Option.bind_eq_some_iff.1 h
        obtain ⟨c', hc', hs'⟩ := Option.bind_eq_some_iff.1 hrest
        rw [if_pos hgoes, hc, Option.bind_eq_bind, Option.bind_some, hchecked hc']
        exact hs'
      next => cases h
  | replace => exact h

end

/-! ## The pause handshake -/

/-- `apply_ui_events` is under way. -/
def ProcessPc.inCall : ProcessPc → Bool
  | .applying _ | .apply _ _ | .post _ => true
  | .idle | .cycle _ | .run | .running => false

/-- The pause requests that no wait has come back from: on their way, applied and to be answered, or
answered. -/
def Process.asked (s : Process) : Nat :=
  s.inFlight.count .paused + (if s.pc.isPost then 1 else 0) + s.paused

/-- What is asked of the process thread is counted. -/
theorem Resizing.answers_iff {s : Resizing} : s.Answers ↔ 0 < s.host.process.asked := by
  have hmem : .runStateChange .paused ∈ s.host.process.unapplied ↔
      0 < s.host.process.inFlight.count .paused := by
    rw [List.count_pos_iff, Process.inFlight, List.mem_filterMap]
    constructor
    · exact fun h => ⟨_, h, rfl⟩
    · rintro ⟨m, hm, hchange⟩
      cases m <;> simp [JalvMessage.runChange] at hchange
      rwa [hchange] at hm
  rw [Answers, hmem, Process.asked]
  split
  next hpost => exact iff_of_true (.inr (.inl hpost)) (by omega)
  next hpost =>
    constructor
    · rintro (h | h | h)
      · omega
      · exact absurd h hpost
      · omega
    · intro h
      rcases Nat.eq_zero_or_pos (s.host.process.inFlight.count .paused) with hzero | hpos
      · exact .inr (.inr (by omega))
      · exact .inl hpos

section
variable {L : Layout} {s s' : Process}

/-- Behind a read the call has not failed, and it is over when the process thread is out of
`apply_ui_events`. -/
theorem Process.step_read_reader (h : s.step L .read = some s') :
    s'.uiToPlugin.reader ≠ .failed ∧
      (s'.pc.inCall = false → s'.uiToPlugin.reader = .idle) := by
  simp only [step] at h
  split at h
  next r hpc =>
    obtain ⟨⟨uiToPlugin, msg⟩, hread, h⟩ := Option.bind_eq_some_iff.1 h
    dsimp only at h
    split at h
    next m =>
      obtain rfl := Option.some.inj h
      refine ⟨?_, fun hcall => by cases hcall⟩
      unfold Channel.readStep at hread
      split at hread
      · split at hread
        · split at hread <;> cases (Prod.mk.inj (Option.some.inj hread)).2
        · cases (Prod.mk.inj (Option.some.inj hread)).2
      · split at hread
        · rw [← (Prod.mk.inj (Option.some.inj hread)).1]
          simp
        · cases (Prod.mk.inj (Option.some.inj hread)).2
      · cases hread
    next => cases h
    next hidle =>
      obtain rfl := Option.some.inj h
      rw [show uiToPlugin.reader = .idle from hidle]
      exact ⟨by simp, fun _ => rfl⟩
    next hfailed _ =>
      obtain rfl := Option.some.inj h
      refine ⟨fun hreader => hfailed hreader, fun hcall => ?_⟩
      rw [show s.pc = .applying r from hpc] at hcall
      cases hcall
  next => cases h

/-- Of the ring the process thread only enters a call and reads. -/
theorem Process.step_uiToPlugin {a : ProcessStep} (h : s.step L a = some s') :
    s'.uiToPlugin = s.uiToPlugin ∨ ∃ b, (b = .enter ∨ b = .read) ∧
      Channel.step Ring.uiToPlugin.unbounded s.uiToPlugin b = some s'.uiToPlugin := by
  cases a with
  | cycle nframes prepared =>
      obtain ⟨-, ⟨-, rfl⟩ | ⟨-, _, -, rfl⟩⟩ := step_cycle h <;> exact .inl rfl
  | enter =>
      obtain ⟨r, uiToPlugin, -, henter, rfl⟩ := step_enter h
      exact .inr ⟨.enter, .inl rfl, henter⟩
  | read =>
      have hreader := (step_read_reader h).1
      obtain ⟨r, uiToPlugin, msg, pc, -, hread, rfl, -⟩ := step_read h
      have hstep : Channel.step (L.framing .uiToPlugin) s.uiToPlugin .read = some uiToPlugin :=
        Option.map_eq_some_iff.2 ⟨(uiToPlugin, msg), hread, rfl⟩
      exact .inr ⟨.read, .inr rfl, step_unbounded hstep hreader⟩
  | apply =>
      obtain ⟨r, m, action, -, -, hperform⟩ := step_apply h
      exact .inl (perform_uiToPlugin hperform)
  | post =>
      obtain ⟨r, -, rfl⟩ := step_post h
      exact .inl rfl
  | runPlugin =>
      obtain ⟨-, rfl⟩ := step_runPlugin h
      exact .inl rfl
  | endRun out =>
      obtain ⟨-, _, _, rfl, -⟩ := step_endRun h
      exact .inl rfl

/-- Outside of `apply_ui_events` no call is under way. -/
theorem Process.step_reader {a : ProcessStep} (h : s.step L a = some s')
    (hreader : s.pc.inCall = false → s.uiToPlugin.reader = .idle) :
    s'.pc.inCall = false → s'.uiToPlugin.reader = .idle := by
  cases a with
  | cycle nframes prepared =>
      obtain ⟨hpc, ⟨-, rfl⟩ | ⟨-, _, -, rfl⟩⟩ := step_cycle h <;>
        exact fun _ => hreader (by rw [hpc]; rfl)
  | enter =>
      obtain ⟨r, uiToPlugin, -, -, rfl⟩ := step_enter h
      intro hcall
      cases hcall
  | read => exact (step_read_reader h).2
  | apply =>
      obtain ⟨r, m, action, -, -, hperform⟩ := step_apply h
      intro hcall
      rcases perform_pc hperform with hpc | hpc
      · rw [hpc] at hcall
        cases hcall
      · rw [hpc] at hcall
        cases hcall
  | post =>
      obtain ⟨r, -, rfl⟩ := step_post h
      intro hcall
      cases hcall
  | runPlugin =>
      obtain ⟨hpc, rfl⟩ := step_runPlugin h
      exact fun _ => hreader (by rw [hpc]; rfl)
  | endRun out =>
      obtain ⟨hpc, _, _, rfl, -⟩ := step_endRun h
      exact fun _ => hreader (by rw [hpc]; rfl)

/-- The process thread only moves a pause request towards its answer. -/
theorem Process.step_asked {a : ProcessStep} (h : s.step L a = some s')
    (hchan : Ring.uiToPlugin.unbounded.ChannelInv s.uiToPlugin) : s'.asked = s.asked := by
  cases a with
  | cycle nframes prepared =>
      obtain ⟨hpc, ⟨-, rfl⟩ | ⟨-, _, -, rfl⟩⟩ := step_cycle h <;>
        simp [asked, inFlight_eq, hpc]
  | enter =>
      obtain ⟨r, uiToPlugin, hpc, henter, rfl⟩ := step_enter h
      simp [asked, inFlight_eq, hpc, (Channel.pending_enter henter).2]
  | read =>
      have hreader := (step_read_reader h).1
      obtain ⟨r, uiToPlugin, msg, pc, hpc, hread, rfl, hcases⟩ := step_read h
      obtain ⟨-, -, hpending⟩ := hchan.readStep (readStep_unbounded hread hreader)
      rcases hcases with ⟨rfl, rfl⟩ | ⟨m, rfl, rfl⟩ | ⟨rfl, rfl⟩
      · simp [asked, inFlight_eq, hpc, hpending]
      · simp [asked, inFlight_eq, hpc, hpending]
      · cases r <;> simp [asked, inFlight_eq, hpc, hpending]
  | apply =>
      obtain ⟨r, m, action, hpc, haction, hperform⟩ := step_apply h
      rw [asked, asked, inFlight_apply hpc]
      rcases uiAction_runChange haction with ⟨state, rfl, rfl⟩ | ⟨hnone, hstate⟩
      · cases state <;> obtain rfl := Option.some.inj hperform <;>
          simp [inFlight_eq, hpc, JalvMessage.runChange]
      · obtain ⟨-, hring, hpaused, hpc'⟩ := perform_eq hstate hperform
        simp [inFlight_eq, hpc, hpc', hring, hpaused, hnone]
  | post =>
      obtain ⟨r, hpc, rfl⟩ := step_post h
      simp [asked, inFlight_eq, hpc]
      omega
  | runPlugin =>
      obtain ⟨hpc, rfl⟩ := step_runPlugin h
      simp [asked, inFlight_eq, hpc]
  | endRun out =>
      obtain ⟨hpc, _, _, rfl, -⟩ := step_endRun h
      simp [asked, inFlight_eq, hpc]

end

/-- The UI thread may be in a write of the message at a place. -/
def UiPc.Writes (ui : UiPc) (m : JalvMessage) : Prop :=
  ui.mayWrite m = true ∨ ∃ mustPause, ui = .restoring mustPause ∧ m.runChange = none

/-- What a step of the UI thread does that ends no write: it may begin one, and it leaves the
semaphore or takes its answer. -/
structure Host.UiStep (a : HostStep) (s s' : Host) : Prop where
  ring : s'.process.uiToPlugin = s.process.uiToPlugin ∨ ∃ m,
    (a = .begin m ∨ ∃ portIndex value, m = .controlPortChange portIndex value) ∧
      Channel.step Ring.uiToPlugin.unbounded s.process.uiToPlugin (.begin m) =
        some s'.process.uiToPlugin
  writing : ∀ m tx, s'.process.uiToPlugin.writing = some (m, tx) → s'.ui.Writes m
  pc : s'.process.pc = s.process.pc
  asked : s.ui = .wait ∧ s.process.asked = s'.process.asked + 1 ∨
    s.ui ≠ .wait ∧ s'.process.asked = s.process.asked
  ui : s'.ui ≠ .wait

section
variable {L : Layout} {safeRestore : Bool} {s s' : Host}

/-- Where the UI thread is not in a write, it is in none behind a step that leaves the ring. -/
theorem Host.UiStep.of_eq {a : HostStep} {ui : UiPc} (hui : s.ui ≠ .wait) (hui' : ui ≠ .wait)
    (hwriting : s.process.uiToPlugin.writing = none) : Host.UiStep a s { s with ui } where
  ring := .inl rfl
  writing m tx hw := by
    rw [hwriting] at hw
    cases hw
  pc := rfl
  asked := .inr ⟨hui, rfl⟩
  ui := hui'

/-- The beginning of a write. -/
theorem Host.UiStep.of_begin {a : HostStep} {m : JalvMessage} (hui : s.ui ≠ .wait)
    (ha : a = .begin m ∨ ∃ portIndex value, m = .controlPortChange portIndex value)
    (hwrites : s.ui.Writes m) {uiToPlugin : Channel JalvMessage JalvMessageHeader}
    (hbegin : Channel.step Ring.uiToPlugin.unbounded s.process.uiToPlugin (.begin m) =
      some uiToPlugin) :
    Host.UiStep a s { s with process := { s.process with uiToPlugin } } where
  ring := .inr ⟨m, ha, hbegin⟩
  writing m' tx' hw := by
    obtain ⟨-, ⟨tx, htx⟩, -⟩ := Channel.pending_begin hbegin
    obtain ⟨rfl, -⟩ := Prod.mk.inj (Option.some.inj (htx.symm.trans hw))
    exact hwrites
  pc := rfl
  asked := by
    refine .inr ⟨hui, ?_⟩
    simp [Process.asked, Process.inFlight_eq, (Channel.pending_begin hbegin).2.2]
  ui := hui

/-- No message is written at a place where none may be. -/
theorem writing_eq_none {c : Channel JalvMessage JalvMessageHeader} {ui : UiPc}
    (hwriting : ∀ m tx, c.writing = some (m, tx) → ui.Writes m) (hui : ∀ m, ¬ui.Writes m) :
    c.writing = none := by
  cases hw : c.writing with
  | none => rfl
  | some w => exact absurd (hwriting w.1 w.2 hw) (hui w.1)

/-- What the interface does, but for the end of a write. -/
theorem Host.uiStep {a : HostStep} (h : s.stepOf L safeRestore a = some s')
    (hprocess : ∀ b, a ≠ .process b) (hfinish : a ≠ .finish)
    (hwriting : ∀ m tx, s.process.uiToPlugin.writing = some (m, tx) → s.ui.Writes m) :
    Host.UiStep a s s' := by
  cases a with
  | test =>
      obtain ⟨t, htest, rfl⟩ := Option.map_eq_some_iff.1 h
      obtain ⟨hnone, hui, -⟩ := step_test htest
      refine .of_eq (by simp [hui]) ?_ hnone
      split <;> simp
  | begin m =>
      obtain ⟨hmay, uiToPlugin, hbegin, rfl⟩ := step_begin (L := L) h
      refine .of_begin ?_ (.inl rfl) (.inl hmay) hbegin
      rintro hui
      rw [hui] at hmay
      cases hmay
  | finish => exact absurd rfl hfinish
  | wake =>
      obtain ⟨paused, hui, hpaused, rfl⟩ := step_wake (L := L) h
      have hnone := writing_eq_none hwriting (by simp [hui, UiPc.Writes, UiPc.mayWrite])
      refine ⟨.inl rfl, fun m tx hw => ?_, rfl, .inl ⟨hui, ?_⟩, by simp⟩
      · exact absurd (hw.symm.trans hnone) (by simp)
      · simp [Process.asked, Process.inFlight_eq, hpaused]
        omega
  | startRestore =>
      obtain ⟨mustPause, hui, rfl⟩ := step_startRestore (L := L) h
      have hnone := writing_eq_none hwriting (by simp [hui, UiPc.Writes, UiPc.mayWrite])
      exact .of_eq (by simp [hui]) (by simp) hnone
  | setPortValue portIndex value =>
      obtain ⟨mustPause, hui, ⟨controls, rfl⟩ | ⟨uiToPlugin, hbegin, rfl⟩⟩ :=
        step_setPortValue (L := L) h
      · exact ⟨.inl rfl, hwriting, rfl, .inr ⟨by simp [hui], rfl⟩, by simp [hui]⟩
      · exact .of_begin (by simp [hui]) (.inr ⟨portIndex, value, rfl⟩)
          (.inr ⟨mustPause, hui, rfl⟩) hbegin
  | endRestore =>
      obtain ⟨hnone, mustPause, hui, rfl⟩ := step_endRestore (L := L) h
      exact .of_eq (by simp [hui]) (by simp) hnone
  | leave =>
      obtain ⟨hui, rfl⟩ := step_leave (L := L) h
      have hnone := writing_eq_none hwriting (by simp [hui, UiPc.Writes, UiPc.mayWrite])
      exact .of_eq (by simp [hui]) (by simp) hnone
  | process b => exact absurd rfl (hprocess b)

end

/-! ## The invariant, and what keeps -/

/-- The invariant of the threads and their rings. -/
structure ResizingInv (s : Resizing) : Prop where
  uiToPlugin : Ring.uiToPlugin.unbounded.ReplaceableInv s.uiToPlugin
  pluginToUi : Ring.pluginToUi.unbounded.ReplaceableInv s.pluginToUi
  reader : s.host.process.pc.inCall = false → s.host.process.uiToPlugin.reader = .idle
  replaced : ∀ c ∈ s.replaced, c.reader = .idle
  writing : ∀ c ∈ s.host.process.uiToPlugin :: s.replaced, ∀ m tx, c.writing = some (m, tx) →
    s.host.ui.Writes m
  asked : s.host.process.asked ≤ if s.host.ui = .wait then 1 else 0

variable {L : Layout} {safeRestore : Bool} {ringSize : UInt32} {s s' : Resizing}

/-- Losing nothing, said of the channels and of the pauses. -/
theorem Resizing.losesNothing_iff_asked : s.LosesNothing ↔
    s.uiToPlugin.Delivered ∧ s.pluginToUi.Delivered ∧
      (s.host.ui = .wait → 0 < s.host.process.asked) := by
  constructor
  · intro h
    exact ⟨h.uiToPlugin, h.pluginToUi, fun hui => answers_iff.1 (h.answered hui)⟩
  · rintro ⟨hui, hplugin, hasked⟩
    exact ⟨hui, hplugin, fun hwait => answers_iff.2 (hasked hwait)⟩

/-- Nothing is under way on a replaced ring behind a write to the one in use. -/
theorem ResizingInv.current (h : ResizingInv s) {uiToPlugin : Channel JalvMessage JalvMessageHeader}
    {a : ChannelStep JalvMessage}
    (hvalid : Framing.WritesValid Ring.uiToPlugin.unbounded s.host.process.uiToPlugin a)
    (hbegin : ∀ m, a = .begin m → ∀ c ∈ s.replaced, c.writing = none)
    (hstep : Channel.step Ring.uiToPlugin.unbounded s.host.process.uiToPlugin a =
      some uiToPlugin) :
    Ring.uiToPlugin.unbounded.ReplaceableInv ⟨uiToPlugin, s.replaced⟩ := by
  have hcurrent := h.uiToPlugin.channels _ List.mem_cons_self
  have hreader := (hcurrent.step hvalid hstep).reader.ne_failed
  have hallows : ∀ c ∈ s.uiToPlugin.replaced, c.allows a = true := by
    intro c hc
    cases a with
    | begin m => simp [Channel.allows, hbegin m rfl c hc]
    | enter => simp [Channel.allows, h.replaced c hc]
    | finish | read => rfl
  have hrings : s.uiToPlugin.step Ring.uiToPlugin.unbounded 0 (.current a) =
      some ⟨uiToPlugin, s.replaced⟩ := Replaceable.step_of_current hallows hstep hreader
  exact h.uiToPlugin.step (a := .current a) hvalid hrings

/-- A step of the process thread. -/
theorem ResizingInv.process (h : ResizingInv s) {a : ProcessStep} {process : Process}
    (hstep : s.host.process.step L a = some process) :
    ResizingInv { s with host := { s.host with process } } ∧
      (({ s with host := { s.host with process } } : Resizing).LosesNothing ↔ s.LosesNothing) := by
  have hcurrent := h.uiToPlugin.channels _ List.mem_cons_self
  have hasked := Process.step_asked hstep hcurrent
  have hring : Ring.uiToPlugin.unbounded.ReplaceableInv ⟨process.uiToPlugin, s.replaced⟩ ∧
      process.uiToPlugin.writing = s.host.process.uiToPlugin.writing := by
    rcases Process.step_uiToPlugin hstep with heq | ⟨b, hb, hchannel⟩
    · rw [heq]
      exact ⟨h.uiToPlugin, rfl⟩
    · rcases hb with rfl | rfl
      · refine ⟨h.current (a := .enter) trivial ?_ hchannel, (Channel.pending_enter hchannel).1⟩
        intro m hbegin
        cases hbegin
      · refine ⟨h.current (a := .read) trivial ?_ hchannel, (Channel.step_read hchannel).2.2⟩
        intro m hbegin
        cases hbegin
  constructor
  · refine ⟨hring.1, h.pluginToUi, Process.step_reader hstep h.reader, h.replaced, ?_, ?_⟩
    · obtain ⟨hwriting, hreplaced⟩ := List.forall_mem_cons.1 h.writing
      refine List.forall_mem_cons.2 ⟨fun m tx hw => hwriting m tx (hring.2.symm.trans hw), ?_⟩
      exact hreplaced
    · rw [hasked]
      exact h.asked
  · rw [Resizing.losesNothing_iff_asked, Resizing.losesNothing_iff_asked, hasked]
    exact Iff.rfl

/-- A step of the UI thread that ends no write. -/
theorem ResizingInv.ui (h : ResizingInv s) {a : HostStep} {host : Host}
    (hfree : ∀ c ∈ s.replaced, c.writing = none)
    (hwrites : ∀ m, a = .begin m → Ring.uiToPlugin.Writes m) (hstep : Host.UiStep a s.host host) :
    ResizingInv { s with host } ∧
      (({ s with host } : Resizing).LosesNothing ↔ s.LosesNothing) := by
  have hasked := h.asked
  constructor
  · refine ⟨?_, h.pluginToUi, ?_, h.replaced, ?_, ?_⟩
    · rcases hstep.ring with heq | ⟨m, hm, hbegin⟩
      · show Ring.uiToPlugin.unbounded.ReplaceableInv ⟨host.process.uiToPlugin, s.replaced⟩
        rw [heq]
        exact h.uiToPlugin
      · refine h.current (a := .begin m) ?_ (fun _ _ => hfree) hbegin
        rcases hm with rfl | ⟨portIndex, value, rfl⟩
        · exact hwrites m rfl
        · exact ⟨rfl, Nat.zero_le _⟩
    · intro hcall
      have hidle := h.reader (hstep.pc ▸ hcall)
      rcases hstep.ring with heq | ⟨m, -, hbegin⟩
      · exact heq ▸ hidle
      · rw [Channel.reader_begin hbegin]
        exact hidle
    · refine List.forall_mem_cons.2 ⟨hstep.writing, fun c hc m tx hw => ?_⟩
      rw [hfree c hc] at hw
      cases hw
    · show host.process.asked ≤ if host.ui = .wait then 1 else 0
      rw [if_neg hstep.ui]
      rcases hstep.asked with ⟨hwait, heq⟩ | ⟨hwait, heq⟩
      · rw [if_pos hwait] at hasked
        omega
      · rw [if_neg hwait] at hasked
        omega
  · rw [Resizing.losesNothing_iff_asked, Resizing.losesNothing_iff_asked]
    refine and_congr Iff.rfl (and_congr Iff.rfl (iff_of_true ?_ ?_))
    · exact fun hwait => absurd hwait hstep.ui
    · intro hwait
      rcases hstep.asked with ⟨-, heq⟩ | ⟨hnot, -⟩
      · omega
      · exact absurd hwait hnot

/-- The pause request is written before the wait, and nowhere else. -/
theorem UiPc.Writes.paused_iff {ui : UiPc} {m : JalvMessage} (h : ui.Writes m) :
    m = .runStateChange .paused ↔ ui = .sendPause := by
  rcases h with hmay | ⟨mustPause, rfl, hnone⟩
  · cases ui with
    | idle =>
        cases m <;> simp [mayWrite] at hmay ⊢
    | sendPause => simpa [mayWrite] using hmay
    | restored mustPause => cases mustPause <;> simp [mayWrite] at hmay ⊢; simp [hmay]
    | sendRun => simp [mayWrite] at hmay ⊢; simp [hmay]
    | wait | restore | restoring => simp [mayWrite] at hmay
  · refine iff_of_false ?_ (by simp)
    rintro rfl
    cases hnone

/-- An interface that writes does not wait. -/
theorem UiPc.Writes.ne_wait {ui : UiPc} {m : JalvMessage} (h : ui.Writes m) : ui ≠ .wait := by
  rintro rfl
  rcases h with hmay | ⟨mustPause, hui, -⟩
  · cases hmay
  · cases hui

/-- The interface waits behind the write of its pause request, and behind no other. -/
theorem UiPc.afterWrite_eq_wait_iff {ui : UiPc} (hui : ui ≠ .wait) :
    ui.afterWrite = .wait ↔ ui = .sendPause := by
  cases ui with
  | restored mustPause => cases mustPause <;> simp [afterWrite]
  | wait => exact absurd rfl hui
  | idle | sendPause | restore | restoring | sendRun => simp [afterWrite]

/-- An accepted message is asked for if it is a pause request. -/
theorem Process.asked_concat (s : Process) {m : JalvMessage}
    {uiToPlugin : Channel JalvMessage JalvMessageHeader}
    (hpending : uiToPlugin.pending = s.uiToPlugin.pending ++ [m]) :
    ({ s with uiToPlugin } : Process).asked =
      s.asked + if m = .runStateChange .paused then 1 else 0 := by
  cases hm : m.runChange with
  | none =>
      have hne : m ≠ .runStateChange .paused := by
        rintro rfl
        cases hm
      simp [asked, inFlight_eq, hpending, hm, hne]
  | some state =>
      obtain rfl : m = .runStateChange state := by
        cases m <;> simp [JalvMessage.runChange] at hm
        rw [hm]
      cases state <;> simp [asked, inFlight_eq, hpending, JalvMessage.runChange]
      omega

/-- A pause request is asked for where its write finds room. -/
theorem Process.asked_written (s : Process) {m : JalvMessage}
    {uiToPlugin : Channel JalvMessage JalvMessageHeader} {length free : Nat}
    (hpending : length ≤ free ∧ uiToPlugin.pending = s.uiToPlugin.pending ++ [m] ∨
      free < length ∧ uiToPlugin.pending = s.uiToPlugin.pending) :
    ({ s with uiToPlugin } : Process).asked =
      s.asked + if m = .runStateChange .paused ∧ length ≤ free then 1 else 0 := by
  rcases hpending with ⟨hroom, hpending⟩ | ⟨hfull, hpending⟩
  · rw [asked_concat s hpending]
    simp only [hroom, and_true]
  · rw [if_neg fun hand => absurd hand.2 (Nat.not_le.2 hfull)]
    simp [asked, inFlight_eq, hpending]

/-- Where a write is under way nothing is asked for yet. -/
theorem ResizingInv.underWay (h : ResizingInv s) {c : Channel JalvMessage JalvMessageHeader}
    (hc : c ∈ s.host.process.uiToPlugin :: s.replaced) {m : JalvMessage}
    {tx : ByteRing.Transaction} (hw : c.writing = some (m, tx)) :
    s.host.ui.Writes m ∧ s.host.process.asked = 0 := by
  have hwrites := h.writing c hc m tx hw
  have hasked := h.asked
  rw [if_neg hwrites.ne_wait] at hasked
  exact ⟨hwrites, Nat.le_zero.1 hasked⟩

/-- A UI thread that does not wait is to be answered nothing. -/
theorem Resizing.losesNothing_iff_delivered (hui : s.host.ui ≠ .wait) :
    s.LosesNothing ↔ s.uiToPlugin.Delivered ∧ s.pluginToUi.Delivered := by
  rw [losesNothing_iff_asked]
  exact and_congr_right' (and_iff_left fun hwait => absurd hwait hui)

/-- Of the writes only that of the pause request is to find room. -/
theorem Resizing.keeps_finish_iff {m : JalvMessage} {tx : ByteRing.Transaction}
    (hw : s.host.process.uiToPlugin.writing = some (m, tx)) (hwrites : s.host.ui.Writes m) :
    s.Keeps L (.host .finish) ↔ (s.host.ui = .sendPause →
      (Ring.uiToPlugin.unbounded.encode m).length ≤ tx.free) := by
  refine forall_congr' fun hui => ?_
  have hlength : (Ring.uiToPlugin.unbounded.encode m).length = 12 := by
    rw [hwrites.paused_iff.2 hui]
    rfl
  rw [hlength]
  constructor
  · exact fun hall => hall (m, tx) hw
  · intro hroom w hw'
    obtain rfl := Option.some.inj (hw.symm.trans hw')
    exact hroom

/-- The end of a write to the ring in use. -/
theorem ResizingInv.finish (h : ResizingInv s) (hfree : ∀ c ∈ s.replaced, c.writing = none)
    {uiToPlugin : Channel JalvMessage JalvMessageHeader}
    (hstep : Channel.step Ring.uiToPlugin.unbounded s.host.process.uiToPlugin .finish =
      some uiToPlugin) :
    let t : Resizing :=
      { s with host := ⟨{ s.host.process with uiToPlugin }, s.host.ui.afterWrite⟩ }
    ResizingInv t ∧ (t.LosesNothing ↔ s.LosesNothing ∧ s.Keeps L (.host .finish)) := by
  intro t
  have hcurrent := h.uiToPlugin.channels _ List.mem_cons_self
  obtain ⟨m, tx, hw, hnone, hreader, hpending⟩ := hcurrent.pending_finish hstep
  obtain ⟨hwrites, hzero⟩ := h.underWay List.mem_cons_self hw
  have hafter : t.host.ui = .wait ↔ s.host.ui = .sendPause :=
    UiPc.afterWrite_eq_wait_iff hwrites.ne_wait
  have hasked : t.host.process.asked =
      if s.host.ui = .sendPause ∧ (Ring.uiToPlugin.unbounded.encode m).length ≤ tx.free then 1
      else 0 := by
    rw [show t.host.process.asked = _ from Process.asked_written _ hpending, hzero, Nat.zero_add]
    simp only [hwrites.paused_iff]
  constructor
  · have hring := h.current (a := .finish) trivial (fun _ _ => hfree) hstep
    refine ⟨hring, h.pluginToUi, ?_, h.replaced, ?_, ?_⟩
    · exact fun hcall => hreader.trans (h.reader hcall)
    · refine List.forall_mem_cons.2 ⟨fun m' tx' hw' => ?_, fun c hc m' tx' hw' => ?_⟩
      · cases hnone.symm.trans hw'
      · cases (hfree c hc).symm.trans hw'
    · rw [hasked]
      simp only [hafter]
      split
      next hand => rw [if_pos hand.1]
      next => exact Nat.zero_le _
  · have hanswered : (t.host.ui = .wait → 0 < t.host.process.asked) ↔
        (s.host.ui = .sendPause → (Ring.uiToPlugin.unbounded.encode m).length ≤ tx.free) := by
      rw [hasked, hafter]
      refine forall_congr' fun hui => ?_
      split
      next hand => exact iff_of_true Nat.one_pos hand.2
      next hnot => exact iff_of_false (Nat.lt_irrefl 0) fun hroom => hnot ⟨hui, hroom⟩
    rw [Resizing.losesNothing_iff_asked, Resizing.losesNothing_iff_delivered hwrites.ne_wait,
      hanswered, Resizing.keeps_finish_iff hw hwrites, and_assoc]
    exact Iff.rfl

/-- The end of a write to a ring that was replaced meanwhile. -/
theorem ResizingInv.finishReplaced (h : ResizingInv s) {i : Nat}
    {rings : Replaceable JalvMessage JalvMessageHeader}
    (hstep : s.uiToPlugin.step (L.framing .uiToPlugin) ringSize.toNat (.replaced i .finish) =
      some rings) :
    let t : Resizing :=
      { s with host := { s.host with ui := s.host.ui.afterWrite }, replaced := rings.replaced }
    ResizingInv t ∧ (t.LosesNothing ↔ s.LosesNothing ∧ s.Keeps L (.finishReplaced i)) := by
  intro t
  have hrings := replaceableStep_unbounded hstep
  have hnone := h.uiToPlugin.writing_eq_none hrings
  have hinv := h.uiToPlugin.step (a := .replaced i .finish) trivial hrings
  have hdelivered := Replaceable.delivered_step_iff h.uiToPlugin (a := .replaced i .finish) trivial
    hrings
  obtain ⟨-, front, c, back, c', hreplaced, hi, hchannel, -, rfl⟩ :=
    Replaceable.step_replaced hrings
  have hmem : c ∈ s.replaced := List.mem_of_getElem? hi
  have hc := h.uiToPlugin.channels c (List.mem_cons_of_mem _ hmem)
  obtain ⟨m, tx, hw, -, hreader, -⟩ := hc.pending_finish hchannel
  obtain ⟨hwrites, hzero⟩ := h.underWay (List.mem_cons_of_mem _ hmem) hw
  have hasked : t.host.process.asked = 0 := hzero
  have hafter : t.host.ui = .wait ↔ s.host.ui = .sendPause :=
    UiPc.afterWrite_eq_wait_iff hwrites.ne_wait
  constructor
  · refine ⟨hinv, h.pluginToUi, h.reader, ?_, ?_, ?_⟩
    · have hreaders := h.replaced
      rw [show s.replaced = front ++ c :: back from hreplaced] at hreaders
      show ∀ x ∈ front ++ c' :: back, x.reader = .idle
      simp only [List.forall_mem_append, List.forall_mem_cons] at hreaders ⊢
      obtain ⟨hfront, hidle, hback⟩ := hreaders
      exact ⟨hfront, hreader.trans hidle, hback⟩
    · intro x hx m' tx' hw'
      cases (hnone x hx).symm.trans hw'
    · rw [hasked]
      exact Nat.zero_le _
  · have hanswered : (t.host.ui = .wait → 0 < t.host.process.asked) ↔ s.host.ui ≠ .sendPause := by
      rw [hafter, hasked]
      exact forall_congr' fun _ => iff_of_false (Nat.lt_irrefl 0) id
    rw [Resizing.losesNothing_iff_asked, Resizing.losesNothing_iff_delivered hwrites.ne_wait,
      hanswered]
    constructor
    · rintro ⟨hui, hplugin, hpause⟩
      obtain ⟨hui', hkeeps⟩ := hdelivered.1 hui
      exact ⟨⟨hui', hplugin⟩, hpause, hkeeps⟩
    · rintro ⟨⟨hui, hplugin⟩, hpause, hkeeps⟩
      exact ⟨hdelivered.2 ⟨hui, hkeeps⟩, hplugin, hpause⟩

/-- An operation on `plugin_to_ui`. -/
theorem ResizingInv.plugin (h : ResizingInv s) {a : ReplaceableStep JalvMessage}
    (ha : Resizing.isOperation a = true) {pluginToUi : Replaceable JalvMessage JalvMessageHeader}
    (hstep : s.pluginToUi.step (L.framing .pluginToUi) ringSize.toNat a = some pluginToUi) :
    ResizingInv { s with pluginToUi } ∧
      (({ s with pluginToUi } : Resizing).LosesNothing ↔
        s.LosesNothing ∧ s.Keeps L (.pluginToUi a)) := by
  have hrings := replaceableStep_unbounded hstep
  have hvalid : s.pluginToUi.WritesValid Ring.pluginToUi.unbounded a := by
    cases a with
    | current a =>
        cases a with
        | begin m =>
            have hwrites : Ring.pluginToUi.Writes m := of_decide_eq_true ha
            exact hwrites
        | enter | finish | read => trivial
    | replaced i a => trivial
    | replace => cases ha
  have hkeeps : s.pluginToUi.Keeps Ring.pluginToUi.unbounded a ↔ s.Keeps L (.pluginToUi a) := by
    cases a with
    | replaced i a => cases a <;> exact Iff.rfl
    | current | replace => exact Iff.rfl
  constructor
  · exact ⟨h.uiToPlugin, h.pluginToUi.step hvalid hrings, h.reader, h.replaced, h.writing, h.asked⟩
  · rw [Resizing.losesNothing_iff_asked, Resizing.losesNothing_iff_asked,
      Replaceable.delivered_step_iff h.pluginToUi hvalid hrings, hkeeps]
    constructor
    · rintro ⟨hui, ⟨hplugin, hkept⟩, hwait⟩
      exact ⟨⟨hui, hplugin, hwait⟩, hkept⟩
    · rintro ⟨⟨hui, hplugin, hwait⟩, hkept⟩
      exact ⟨hui, ⟨hplugin, hkept⟩, hwait⟩

/-- Between two cycles, with nothing on its way, only the answers are asked for. -/
theorem Process.asked_eq_paused {s : Process} (hpc : s.pc = .idle)
    (hpending : s.uiToPlugin.pending = []) : s.asked = s.paused := by
  simp [asked, inFlight_eq, hpc, hpending]

/-- A change of the buffer size while the plugin is running. -/
theorem ResizingInv.bufferSize (h : ResizingInv s) (hpc : s.host.process.pc = .idle)
    (hrun : s.host.process.runState = .running) (settings : JalvSettings) (evbufs : Nat → Evbuf)
    {capacity : Nat} :
    let t : Resizing :=
      ⟨{ s.host with process := { s.host.process with uiToPlugin := .new capacity, evbufs } },
        s.replaced ++ [s.host.process.uiToPlugin],
        ⟨.new capacity, s.pluginToUi.replaced ++ [s.pluginToUi.current]⟩⟩
    ResizingInv t ∧ (t.LosesNothing ↔ s.LosesNothing ∧ s.Keeps L (.bufferSize settings)) := by
  intro t
  have hidle := h.reader (by rw [hpc]; rfl)
  have hcurrent := h.uiToPlugin.channels _ List.mem_cons_self
  have hasked : t.host.process.asked = s.host.process.paused := Process.asked_eq_paused hpc rfl
  constructor
  · refine ⟨h.uiToPlugin.replace capacity, h.pluginToUi.replace capacity, fun _ => rfl, ?_, ?_, ?_⟩
    · exact List.forall_mem_append.2 ⟨h.replaced, List.forall_mem_singleton.2 hidle⟩
    · obtain ⟨hwriting, hreplaced⟩ := List.forall_mem_cons.1 h.writing
      refine List.forall_mem_cons.2 ⟨fun m tx hw => ?_, ?_⟩
      · cases hw
      · exact List.forall_mem_append.2 ⟨hreplaced, List.forall_mem_singleton.2 hwriting⟩
    · rw [hasked]
      exact le_trans (Nat.le_add_left _ _) h.asked
  · have hui : s.uiToPlugin.step Ring.uiToPlugin.unbounded capacity .replace =
      some t.uiToPlugin := rfl
    have hplugin : s.pluginToUi.step Ring.pluginToUi.unbounded capacity .replace =
      some t.pluginToUi := rfl
    have hkeeps : s.Keeps L (.bufferSize settings) ↔
        s.host.process.uiToPlugin.pending = [] ∧ s.pluginToUi.current.Delivered :=
      ⟨fun hkept => hkept hrun, fun hkept _ => hkept⟩
    have huiKept : s.uiToPlugin.Keeps Ring.uiToPlugin.unbounded .replace ↔
        s.host.process.uiToPlugin.pending = [] := hcurrent.delivered_iff_pending hidle
    have hanswered : s.host.process.uiToPlugin.pending = [] →
        s.host.process.asked = t.host.process.asked := by
      intro hpending
      rw [hasked, Process.asked_eq_paused hpc hpending]
    rw [Resizing.losesNothing_iff_asked, Resizing.losesNothing_iff_asked, hkeeps,
      Replaceable.delivered_step_iff h.uiToPlugin (a := .replace) trivial hui,
      Replaceable.delivered_step_iff h.pluginToUi (a := .replace) trivial hplugin, huiKept]
    constructor
    · rintro ⟨⟨hui, hempty⟩, ⟨hplugin, hcovered⟩, hwait⟩
      exact ⟨⟨hui, hplugin, hanswered hempty ▸ hwait⟩, hempty, hcovered⟩
    · rintro ⟨⟨hui, hplugin, hwait⟩, hempty, hcovered⟩
      exact ⟨⟨hui, hempty⟩, ⟨hplugin, hcovered⟩, hanswered hempty ▸ hwait⟩

/-- A step of one of the two threads. -/
theorem ResizingInv.host (h : ResizingInv s) {a : HostStep} (hallows : s.allows a = true)
    {host : Host} (hhost : s.host.stepOf L safeRestore a = some host) :
    ResizingInv { s with host } ∧ (({ s with host } : Resizing).LosesNothing ↔
      s.LosesNothing ∧ s.Keeps L (.host a)) := by
  have hwriting := (List.forall_mem_cons.1 h.writing).1
  have hui : (∀ b, a ≠ .process b) → a ≠ .finish → (∀ c ∈ s.replaced, c.writing = none) →
      (∀ m, a = .begin m → Ring.uiToPlugin.Writes m) →
      ResizingInv { s with host } ∧ (({ s with host } : Resizing).LosesNothing ↔
        s.LosesNothing ∧ s.Keeps L (.host a)) := by
    intro hprocess hfinish hfree hwrites
    have hkeeps : s.Keeps L (.host a) := by
      cases a with
      | finish => exact absurd rfl hfinish
      | test | begin | wake | startRestore | setPortValue | endRestore | leave
      | process => trivial
    obtain ⟨hinv, hiff⟩ := h.ui hfree hwrites (Host.uiStep hhost hprocess hfinish hwriting)
    exact ⟨hinv, hiff.trans (and_iff_left hkeeps).symm⟩
  have hfree (hall : s.replaced.all (·.writing.isNone) = true) :
      ∀ c ∈ s.replaced, c.writing = none :=
    fun c hc => by simpa using List.all_eq_true.1 hall c hc
  cases a with
  | process b =>
      obtain ⟨process, hprocess, rfl⟩ := Host.step_process hhost
      obtain ⟨hinv, hiff⟩ := h.process hprocess
      exact ⟨hinv, hiff.trans (and_iff_left trivial).symm⟩
  | finish =>
      obtain ⟨uiToPlugin, hfinish, rfl⟩ := Host.step_finish (L := L) hhost
      exact h.finish (hfree hallows) hfinish
  | begin m =>
      obtain ⟨hall, hwrites⟩ := Bool.and_eq_true_iff.1 hallows
      refine hui (by simp) (by simp) (hfree hall) fun m' heq => ?_
      obtain rfl := HostStep.begin.inj heq
      exact of_decide_eq_true hwrites
  | test | wake | startRestore | setPortValue | endRestore | leave =>
      exact hui (by simp) (by simp) (hfree hallows) (by simp)

/-- Every step keeps the invariant, and loses nothing exactly when it keeps. -/
theorem ResizingInv.step (h : ResizingInv s) {a : ResizingStep}
    (hstep : s.step L safeRestore ringSize a = some s') :
    ResizingInv s' ∧ (s'.LosesNothing ↔ s.LosesNothing ∧ s.Keeps L a) := by
  cases a with
  | host a =>
      simp only [Resizing.step] at hstep
      split at hstep
      next hallows =>
        obtain ⟨host, hhost, hs'⟩ := Option.bind_eq_some_iff.1 hstep
        obtain rfl := Option.some.inj hs'
        exact h.host hallows hhost
      next => cases hstep
  | finishReplaced i =>
      obtain ⟨rings, hrings, hs'⟩ := Option.bind_eq_some_iff.1 hstep
      obtain rfl := Option.some.inj hs'
      exact h.finishReplaced hrings
  | pluginToUi a =>
      simp only [Resizing.step] at hstep
      split at hstep
      next ha =>
        obtain ⟨pluginToUi, hplugin, hs'⟩ := Option.bind_eq_some_iff.1 hstep
        obtain rfl := Option.some.inj hs'
        exact h.plugin ha hplugin
      next => cases hstep
  | bufferSize settings =>
      simp only [Resizing.step] at hstep
      split at hstep
      next hpc =>
        split at hstep
        next hrun =>
          obtain ⟨evbufs, -, hstep⟩ := Option.bind_eq_some_iff.1 hstep
          obtain rfl := Option.some.inj hstep
          exact h.bufferSize hpc hrun settings evbufs
        next hrun =>
          obtain rfl := Option.some.inj hstep
          exact ⟨h, (and_iff_left fun hrunning => absurd hrunning hrun).symm⟩
      next => cases hstep

/-- Behind the activation nothing is accepted yet. -/
theorem resizingInv_init {settings : JalvSettings}
    (h : (resizing L safeRestore settings ringSize).init s) : ResizingInv s ∧ s.LosesNothing := by
  obtain ⟨⟨process, ui⟩, replaced, pluginToUi⟩ := s
  obtain ⟨⟨hprocess, hui⟩, hreplaced, hplugin⟩ := h
  obtain rfl : ui = .idle := hui
  obtain rfl : replaced = [] := hreplaced
  obtain rfl : pluginToUi = ⟨.new ringSize.toNat, []⟩ := hplugin
  have hring : process.uiToPlugin = .new ringSize.toNat := hprocess.uiToPlugin
  refine ⟨⟨?_, replaceableInv_new _ _, ?_, List.forall_mem_nil _, ?_, ?_⟩,
    ⟨List.forall_mem_nil _, List.forall_mem_nil _, fun hwait => by cases hwait⟩⟩
  · show Ring.uiToPlugin.unbounded.ReplaceableInv ⟨process.uiToPlugin, []⟩
    rw [hring]
    exact replaceableInv_new _ _
  · intro _
    show process.uiToPlugin.reader = .idle
    rw [hring]
    rfl
  · intro c hc m tx hw
    obtain rfl := List.mem_singleton.1 hc
    rw [show (_ : Process).uiToPlugin = .new ringSize.toNat from hring] at hw
    cases hw
  · have hpc : process.pc = .idle := hprocess.pc
    have hpaused : process.paused = 0 := hprocess.paused
    have hpending : (Channel.new ringSize.toNat : Channel JalvMessage JalvMessageHeader).pending =
      [] := rfl
    simp [Process.asked, Process.inFlight_eq, hring, hpc, hpaused, hpending]

/-- In every run, nothing is lost and a waiting UI thread is answered exactly when each step keeps:
each change of the buffer size while `RUNNING` finds `ui_to_plugin` empty and nothing in
`plugin_to_ui` behind what the call under way reads, and so on. -/
theorem losesNothing_iff {settings : JalvSettings} {tr : List ResizingStep}
    (h : (resizing L safeRestore settings ringSize).Run tr s) :
    s.LosesNothing ↔
      ((resizing L safeRestore settings ringSize).guard (Resizing.Keeps L)).Run tr s := by
  refine Lts.Run.iff_guard (fun s hs => (resizingInv_init hs).2) (fun tr s a s' hr hstep => ?_) h
  have hinv : ResizingInv s := hr.invariant (I := fun _ s => ResizingInv s)
    (fun s hs => (resizingInv_init hs).1) fun tr s a s' _ hi ht => (hi.step ht).1
  exact (hinv.step hstep).2

/-! ## A change behind a pause request -/

/-- The threads and their rings behind the activation of a plugin with one input. -/
def oneInputResizing : Resizing := ⟨oneInputHost, [], ⟨.new 4096, []⟩⟩

/-- The run starts as it should. -/
theorem initial_oneInputResizing : (resizing oneInput false midi4096 4096).init oneInputResizing :=
  ⟨initial_oneInputHost, rfl, rfl⟩

/-- The UI thread writes its request for a pause, and waits. -/
def requestPause : List ResizingStep :=
  [.host .test, .host (.begin (.runStateChange .paused)), .host .finish]

/-- A change of the buffer size in front of the request. -/
def earlyChange : List ResizingStep := .bufferSize midi4096 :: requestPause

/-- A change behind the request. -/
def lateChange : List ResizingStep := requestPause ++ [.bufferSize midi4096]

/-- The early change loses nothing. -/
theorem losesNothing_earlyChange : ∃ t,
    (resizing oneInput false midi4096 4096).Run earlyChange t ∧ t.host.ui = .wait ∧
      t.LosesNothing := by
  have hfold : (earlyChange.foldlM
      (fun t a => if Resizing.Keeps oneInput t a then t.step oneInput false 4096 a else none)
      oneInputResizing).map (fun t => t.host.ui) = some .wait := by rfl
  obtain ⟨t, ht, hui⟩ := Option.map_eq_some_iff.1 hfold
  have hrun := Lts.run_guard_of_foldlM (M := resizing oneInput false midi4096 4096)
    (fun _ _ _ h => h) initial_oneInputResizing ht
  exact ⟨t, hrun.of_guard, hui, (losesNothing_iff hrun.of_guard).2 hrun⟩

/-- The late change takes the request away, and nothing answers the wait. -/
theorem lateChange_loses : ∃ t,
    (resizing oneInput false midi4096 4096).Run lateChange t ∧ t.host.ui = .wait ∧
      .runStateChange .paused ∉ t.host.process.unapplied ∧ t.host.process.pc = .idle ∧
      t.host.process.paused = 0 := by
  have hfold : (lateChange.foldlM (Resizing.step oneInput false 4096) oneInputResizing).map
      (fun t => (t.host.ui, t.host.process.unapplied, t.host.process.pc,
        t.host.process.paused)) = some (.wait, [], .idle, 0) := by rfl
  obtain ⟨t, ht, hplace⟩ := Option.map_eq_some_iff.1 hfold
  simp only [Prod.mk.injEq] at hplace
  obtain ⟨hui, hunapplied, hpc, hpaused⟩ := hplace
  refine ⟨t, Lts.run_of_foldlM (fun _ _ _ h => h) initial_oneInputResizing ht, hui, ?_, hpc,
    hpaused⟩
  rw [hunapplied]
  exact List.not_mem_nil

end Soundcan.Galv
