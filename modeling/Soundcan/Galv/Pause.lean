import Soundcan.Galv.Process
import Soundcan.Lib.Transition

/-!
# The pause protocol

`jalv_apply_state` for a plugin that cannot restore its state while it runs: the UI thread asks the
process thread to pause, waits on the semaphore, restores, and asks it to resume. Two orders of
steps break the protocol. The process thread posts the semaphore inside the running cycle that
consumes the request, and runs the plugin behind that; and a second call finds `run_state` still
`PAUSED` while the resume message of the first is on its way, and restores without asking. Where
neither happens, the restore never overlaps the run (`restore_excludes_run`).
-/

namespace Soundcan.Galv

open Framing

/-- Where the UI thread is in `jalv_apply_state`; `mustPause` is its `must_pause`. -/
inductive UiPc where
  | idle
  | sendPause
  | wait
  | restore (mustPause : Bool)
  | restoring (mustPause : Bool)
  | restored (mustPause : Bool)
  | sendRun
  deriving DecidableEq, Repr

/-- The two threads. -/
structure Host where
  process : Process
  ui : UiPc

/-- The steps of the two threads. A write of the UI thread takes a `begin` and a `finish`;
`setPortValue` is the callback of `lilv_state_restore`. -/
inductive HostStep where
  | test
  | begin (m : JalvMessage)
  | finish
  | wake
  | startRestore
  | setPortValue (portIndex value : UInt32)
  | endRestore
  | leave
  | process (a : ProcessStep)

/-- The message that `jalv_apply_state` writes at a place; outside of it, the UI thread writes
anything else. -/
def UiPc.mayWrite : UiPc → JalvMessage → Bool
  | .idle, .runStateChange _ => false
  | .idle, _ => true
  | .sendPause, m => m = .runStateChange .paused
  | .restored true, m => m = .stateRequest
  | .sendRun, m => m = .runStateChange .running
  | _, _ => false

/-- Where the UI thread goes on behind a write, whether that was accepted or not. -/
def UiPc.afterWrite : UiPc → UiPc
  | .sendPause => .wait
  | .restored true => .sendRun
  | .sendRun => .idle
  | ui => ui

namespace Host

/-- One step. -/
def step (L : Layout) (s : Host) : HostStep → Option Host
  | .test =>
    if s.process.uiToPlugin.writing.isSome then none else
    match s.ui with
    | .idle =>
      some { s with ui := if s.process.runState = .running then .sendPause else .restore false }
    | _ => none
  | .begin m =>
    if s.ui.mayWrite m then do
      let uiToPlugin ← Channel.step (L.framing .uiToPlugin) s.process.uiToPlugin (.begin m)
      some { s with process := { s.process with uiToPlugin } }
    else none
  | .finish => do
    let uiToPlugin ← Channel.step (L.framing .uiToPlugin) s.process.uiToPlugin .finish
    some { s with process := { s.process with uiToPlugin }, ui := s.ui.afterWrite }
  | .wake =>
    match s.ui, s.process.paused with
    | .wait, paused + 1 =>
      some { s with process := { s.process with paused }, ui := .restore true }
    | _, _ => none
  | .startRestore =>
    match s.ui with
    | .restore mustPause => some { s with ui := .restoring mustPause }
    | _ => none
  | .setPortValue portIndex value =>
    if s.process.uiToPlugin.writing.isSome then none else
    match s.ui with
    | .restoring _ =>
      if s.process.runState ≠ .running then
        let controls := Function.update s.process.controls portIndex.toNat value
        some { s with process := { s.process with controls } }
      else do
        let uiToPlugin ← Channel.step (L.framing .uiToPlugin) s.process.uiToPlugin
          (.begin (.controlPortChange portIndex value))
        some { s with process := { s.process with uiToPlugin } }
    | _ => none
  | .endRestore =>
    if s.process.uiToPlugin.writing.isSome then none else
    match s.ui with
    | .restoring mustPause => some { s with ui := .restored mustPause }
    | _ => none
  | .leave =>
    match s.ui with
    | .restored false => some { s with ui := .idle }
    | _ => none
  | .process a => do
    let process ← s.process.step L a
    some { s with process }

/-! What each step of the UI thread does. -/

variable {L : Layout} {s s' : Host}

/-- The test of whether the plugin runs, outside any write. -/
theorem step_test (h : s.step L .test = some s') :
    s.process.uiToPlugin.writing = none ∧ s.ui = .idle ∧
      s' = { s with
        ui := if s.process.runState = .running then .sendPause else .restore false } := by
  simp only [step] at h
  split at h
  · cases h
  next hwriting =>
    split at h
    next hui => exact ⟨by simpa using hwriting, hui, (Option.some.inj h).symm⟩
    next => cases h

/-- A write begins where the interface may make it. -/
theorem step_begin {m : JalvMessage} (h : s.step L (.begin m) = some s') :
    s.ui.mayWrite m = true ∧ ∃ uiToPlugin,
      Channel.step (L.framing .uiToPlugin) s.process.uiToPlugin (.begin m) = some uiToPlugin ∧
      s' = { s with process := { s.process with uiToPlugin } } := by
  simp only [step] at h
  split at h
  next hmay =>
    obtain ⟨uiToPlugin, hbegin, hs'⟩ := Option.bind_eq_some_iff.1 h
    exact ⟨hmay, uiToPlugin, hbegin, (Option.some.inj hs').symm⟩
  next => cases h

/-- A write ends, and the interface goes on behind it. -/
theorem step_finish (h : s.step L .finish = some s') :
    ∃ uiToPlugin,
      Channel.step (L.framing .uiToPlugin) s.process.uiToPlugin .finish = some uiToPlugin ∧
      s' = ⟨{ s.process with uiToPlugin }, s.ui.afterWrite⟩ := by
  obtain ⟨uiToPlugin, hfinish, hs'⟩ := Option.bind_eq_some_iff.1 h
  exact ⟨uiToPlugin, hfinish, (Option.some.inj hs').symm⟩

/-- The interface wakes up on a post. -/
theorem step_wake (h : s.step L .wake = some s') :
    ∃ paused, s.ui = .wait ∧ s.process.paused = paused + 1 ∧
      s' = { s with process := { s.process with paused }, ui := .restore true } := by
  simp only [step] at h
  split at h
  next paused hui hpaused => exact ⟨paused, hui, hpaused, (Option.some.inj h).symm⟩
  next => cases h

/-- The restoration begins. -/
theorem step_startRestore (h : s.step L .startRestore = some s') :
    ∃ mustPause, s.ui = .restore mustPause ∧ s' = { s with ui := .restoring mustPause } := by
  simp only [step] at h
  split at h
  next mustPause hui => exact ⟨mustPause, hui, (Option.some.inj h).symm⟩
  next => cases h

/-- The callback sets the control itself, or sends the value to the process thread. -/
theorem step_setPortValue {portIndex value : UInt32}
    (h : s.step L (.setPortValue portIndex value) = some s') :
    ∃ mustPause, s.ui = .restoring mustPause ∧
      ((∃ controls, s' = { s with process := { s.process with controls } }) ∨
        ∃ uiToPlugin, Channel.step (L.framing .uiToPlugin) s.process.uiToPlugin
            (.begin (.controlPortChange portIndex value)) = some uiToPlugin ∧
          s' = { s with process := { s.process with uiToPlugin } }) := by
  simp only [step] at h
  split at h
  · cases h
  · split at h
    next mustPause hui =>
      refine ⟨mustPause, hui, ?_⟩
      split at h
      · exact .inl ⟨_, (Option.some.inj h).symm⟩
      · obtain ⟨uiToPlugin, hbegin, hs'⟩ := Option.bind_eq_some_iff.1 h
        exact .inr ⟨uiToPlugin, hbegin, (Option.some.inj hs').symm⟩
    next => cases h

/-- The restoration ends outside any write. -/
theorem step_endRestore (h : s.step L .endRestore = some s') :
    s.process.uiToPlugin.writing = none ∧
      ∃ mustPause, s.ui = .restoring mustPause ∧ s' = { s with ui := .restored mustPause } := by
  simp only [step] at h
  split at h
  · cases h
  next hwriting =>
    split at h
    next mustPause hui =>
      exact ⟨by simpa using hwriting, mustPause, hui, (Option.some.inj h).symm⟩
    next => cases h

/-- The call returns where nothing has to be resumed. -/
theorem step_leave (h : s.step L .leave = some s') :
    s.ui = .restored false ∧ s' = { s with ui := .idle } := by
  simp only [step] at h
  split at h
  next hui => exact ⟨hui, (Option.some.inj h).symm⟩
  next => cases h

/-- The process thread takes a step of its own. -/
theorem step_process {a : ProcessStep} (h : s.step L (.process a) = some s') :
    ∃ process, s.process.step L a = some process ∧ s' = { s with process } := by
  obtain ⟨process, hprocess, hs'⟩ := Option.bind_eq_some_iff.1 h
  exact ⟨process, hprocess, (Option.some.inj hs').symm⟩

end Host

/-- The runs of the two threads, from the state behind `jalv_activate`. -/
def host (L : Layout) (settings : JalvSettings) (ringSize : UInt32) : Lts Host HostStep where
  init s := s.process.Initial L settings ringSize ∧ s.ui = .idle
  step s a s' := s.step L a = some s'

/-- The cycle was entered while `RUNNING`, and the plugin's run is not over. -/
def ProcessPc.inRunningCycle : ProcessPc → Bool
  | .idle => false
  | .cycle r | .applying r | .apply r _ | .post r => r
  | .run | .running => true

/-- The message that is read and not applied. -/
def ProcessPc.message : ProcessPc → Option JalvMessage
  | .apply _ m => some m
  | _ => none

/-- The messages on their way, oldest first: read and not applied, or in the ring. -/
def Process.unapplied (s : Process) : List JalvMessage :=
  s.pc.message.toList ++ s.uiToPlugin.pending

/-- The steps of a sound handshake: the UI thread does not find `run_state` to be `PAUSED` while a
`RUNNING` message is on its way, and does not come back from `zix_sem_wait` inside a cycle that
still runs the plugin. What it writes outside of the protocol fits `process_msg`. -/
def SoundHandshake (L : Layout) (s : Host) : HostStep → Prop
  | .test => s.process.runState = .paused → .runStateChange .running ∉ s.process.unapplied
  | .wake => s.process.pc.inRunningCycle = false
  | .begin m => Ring.uiToPlugin.Receivable L.processMsgSize m
  | _ => True

instance (L : Layout) (s : Host) (a : HostStep) : Decidable (SoundHandshake L s a) :=
  match a with
  | .test => inferInstanceAs (Decidable (_ → _ ∉ _))
  | .wake => inferInstanceAs (Decidable (_ = _))
  | .begin _ => inferInstanceAs (Decidable (Ring.Receivable _ _ _))
  | .finish | .startRestore | .setPortValue _ _ | .endRestore | .leave | .process _ =>
    inferInstanceAs (Decidable True)

/-! ## The phases of the protocol -/

/-- The run state that a message asks for. -/
def JalvMessage.runChange : JalvMessage → Option JalvRunState
  | .runStateChange state => some state
  | _ => none

attribute [simp] ProcessPc.inRunningCycle ProcessPc.message

/-- The changes of the run state that are on their way, oldest first. -/
def Process.inFlight (s : Process) : List JalvRunState :=
  s.unapplied.filterMap JalvMessage.runChange

/-- The changes of the run state among the messages on their way. -/
theorem Process.inFlight_eq (s : Process) :
    s.inFlight = (s.pc.message.toList ++ s.uiToPlugin.pending).filterMap JalvMessage.runChange :=
  rfl

/-- The message that is being applied comes first among them. -/
theorem Process.inFlight_apply {s : Process} {r : Bool} {m : JalvMessage}
    (hpc : s.pc = .apply r m) :
    s.inFlight = m.runChange.toList ++ s.uiToPlugin.pending.filterMap JalvMessage.runChange := by
  rw [inFlight_eq, hpc]
  cases hm : m.runChange <;> simp [hm]

/-- The phases that the process thread goes through in one pause. -/
inductive Phase where
  | running
  | requested
  | posting
  | answered
  | paused
  | resuming
  deriving DecidableEq, Repr

namespace Phase

def runState : Phase → JalvRunState
  | running | requested => .running
  | _ => .paused

def inFlight : Phase → List JalvRunState
  | requested => [.paused]
  | resuming => [.running]
  | _ => []

/-- The posts of the semaphore that the UI thread has not taken. -/
def posts : Phase → Nat
  | answered => 1
  | _ => 0

/-- The phases in which no cycle runs the plugin. -/
def silent : Phase → Bool
  | paused | resuming => true
  | _ => false

/-- Where the process thread moves the protocol to. -/
def next : Phase → Option Phase
  | requested => some posting
  | posting => some answered
  | resuming => some running
  | _ => none

end Phase

def ProcessPc.isPost : ProcessPc → Bool
  | .post _ => true
  | _ => false

attribute [simp] ProcessPc.isPost

/-- The process thread is in a phase. -/
structure InPhase (s : Process) (φ : Phase) : Prop where
  runState : s.runState = φ.runState
  inFlight : s.inFlight = φ.inFlight
  paused : s.paused = φ.posts
  isPost : s.pc.isPost = decide (φ = .posting)
  silent : φ.silent = true → s.pc.inRunningCycle = false

/-- The phases in which the UI thread can be at a place. -/
def UiPc.Allows : UiPc → Phase → Prop
  | .idle, φ => φ = .running ∨ φ = .paused ∨ φ = .resuming
  | .sendPause, φ => φ = .running
  | .wait, φ => φ = .running ∨ φ = .requested ∨ φ = .posting ∨ φ = .answered
  | .restore _, φ | .restoring _, φ | .restored _, φ | .sendRun, φ => φ = .paused

/-- The process thread moves the protocol only to phases that the place allows. -/
theorem UiPc.Allows.next {ui : UiPc} {φ ψ : Phase} (h : ui.Allows φ) (hnext : φ.next = some ψ) :
    ui.Allows ψ := by
  cases ui <;> simp only [Allows] at h ⊢ <;> rcases h with rfl | rfl | rfl | rfl <;>
    simp [Phase.next] at hnext <;> simp [← hnext]

/-- So does the UI thread, behind a write that was refused or changed no run state. -/
theorem UiPc.Allows.afterWrite {ui : UiPc} {φ : Phase} (h : ui.Allows φ) :
    ui.afterWrite.Allows φ := by
  cases ui with
  | restored mustPause => cases mustPause <;> exact h
  | sendPause => exact .inl h
  | sendRun => exact .inr (.inl h)
  | idle | wait | restore | restoring => exact h

variable {L : Layout} {s s' : Process} {φ : Phase}

/-- A step that keeps what the phase speaks of. -/
theorem InPhase.of_eq (h : InPhase s φ) (hstate : s'.runState = s.runState)
    (hflight : s'.inFlight = s.inFlight) (hpaused : s'.paused = s.paused)
    (hpost : s'.pc.isPost = s.pc.isPost)
    (hcycle : s.pc.inRunningCycle = false → s'.pc.inRunningCycle = false) : InPhase s' φ where
  runState := hstate.trans h.runState
  inFlight := hflight.trans h.inFlight
  paused := hpaused.trans h.paused
  isPost := hpost.trans h.isPost
  silent hs := hcycle (h.silent hs)

/-- Of the actions only a change of the run state touches what the phase speaks of. -/
theorem perform_eq {r : Bool} {action : UiAction} (haction : ∀ state, action ≠ .setRunState state)
    (h : s.perform r action = some s') :
    s'.runState = s.runState ∧ s'.uiToPlugin = s.uiToPlugin ∧ s'.paused = s.paused ∧
      s'.pc = .applying r := by
  cases action with
  | setControl port value =>
      obtain rfl := Option.some.inj h
      exact ⟨rfl, rfl, rfl, rfl⟩
  | writeEvent port type body =>
      obtain ⟨_, _, _, _, -, -, rfl⟩ := Process.perform_writeEvent h
      exact ⟨rfl, rfl, rfl, rfl⟩
  | setRunState state => exact absurd rfl (haction state)

/-- The action of a message changes the run state as the message asks for. -/
theorem uiAction_runChange {m : JalvMessage} {action : UiAction}
    (h : L.uiAction m = some action) :
    (∃ state, m = .runStateChange state ∧ action = .setRunState state) ∨
      m.runChange = none ∧ ∀ state, action ≠ .setRunState state := by
  cases m with
  | runStateChange state => exact .inl ⟨state, rfl, (Option.some.inj h).symm⟩
  | latencyChange => cases h
  | controlPortChange portIndex value =>
      simp only [Layout.uiAction] at h
      split at h
      · obtain rfl := Option.some.inj h
        exact .inr ⟨rfl, nofun⟩
      · cases h
  | eventTransfer | stateRequest =>
      obtain ⟨port, -, h⟩ := Option.bind_eq_some_iff.1 h
      split at h
      · obtain rfl := Option.some.inj h
        exact .inr ⟨rfl, nofun⟩
      · cases h

/-- Applying a message that does not change the run state stays in the phase; one that does brings
the protocol on. -/
theorem InPhase.apply (h : InPhase s φ) {r : Bool} {m : JalvMessage} (hpc : s.pc = .apply r m)
    {action : UiAction} (haction : L.uiAction m = some action)
    (hperform : s.perform r action = some s') :
    InPhase s' φ ∨ ∃ ψ, φ.next = some ψ ∧ InPhase s' ψ := by
  have hflight := Process.inFlight_apply hpc
  rcases uiAction_runChange haction with ⟨state, rfl, rfl⟩ | ⟨hnone, hstate⟩
  · rw [h.inFlight] at hflight
    cases φ with
    | requested | resuming =>
        obtain ⟨rfl, hrest⟩ := List.cons_eq_cons.1 hflight
        obtain rfl := Option.some.inj hperform
        refine .inr ⟨_, rfl, ⟨rfl, ?_, h.paused, rfl, nofun⟩⟩
        exact hrest.symm
    | running | posting | answered | paused =>
        exact absurd hflight (by simp [Phase.inFlight, JalvMessage.runChange])
  · obtain ⟨h1, h2, h3, h4⟩ := perform_eq hstate hperform
    refine .inl (h.of_eq h1 ?_ h3 (by simp [h4, hpc]) ?_)
    · rw [hflight, hnone]
      simp [Process.inFlight_eq, h4, h2]
    · rw [hpc, h4]
      exact id

/-- What a step of the process thread does to the phase. -/
theorem InPhase.step (h : InPhase s φ) (hchan : (L.framing .uiToPlugin).ChannelInv s.uiToPlugin)
    {a : ProcessStep} (hstep : s.step L a = some s') :
    InPhase s' φ ∨ ∃ ψ, φ.next = some ψ ∧ InPhase s' ψ := by
  cases a with
  | cycle nframes prepared =>
      obtain ⟨hpc, ⟨-, rfl⟩ | ⟨hrun, evbufs, -, rfl⟩⟩ := Process.step_cycle hstep
      · exact .inl (h.of_eq rfl (by simp [Process.inFlight_eq, hpc]) rfl (by simp [hpc])
          fun _ => rfl)
      · refine .inl ⟨h.runState, ?_, h.paused, ?_, fun hs => ?_⟩
        · rw [← h.inFlight]
          simp [Process.inFlight_eq, hpc]
        · rw [← h.isPost]
          simp [hpc]
        · have hphase := h.runState.symm.trans hrun
          cases φ <;> simp [Phase.runState, Phase.silent] at hphase hs
  | enter =>
      obtain ⟨r, uiToPlugin, hpc, henter, rfl⟩ := Process.step_enter hstep
      have hpending := (Channel.pending_enter henter).2
      exact .inl (h.of_eq rfl (by simp [Process.inFlight_eq, hpc, hpending]) rfl
        (by simp [hpc]) (by simp [hpc]))
  | read =>
      obtain ⟨r, uiToPlugin, msg, pc, hpc, hread, rfl, hcases⟩ := Process.step_read hstep
      obtain ⟨-, -, hpending⟩ := hchan.readStep hread
      rcases hcases with ⟨rfl, rfl⟩ | ⟨m, rfl, rfl⟩ | ⟨rfl, rfl⟩
      · exact .inl (h.of_eq rfl (by simp [Process.inFlight_eq, hpc, hpending]) rfl
          (by simp [hpc]) (by simp [hpc]))
      · refine .inl (h.of_eq rfl ?_ rfl (by simp [hpc]) (by simp [hpc]))
        simp [Process.inFlight_eq, hpc, hpending]
      · refine .inl (h.of_eq rfl ?_ rfl ?_ ?_)
        · cases r <;> simp [Process.inFlight_eq, hpc, hpending]
        · cases r <;> simp [hpc]
        · cases r <;> simp [hpc]
  | apply =>
      obtain ⟨r, m, action, hpc, haction, hperform⟩ := Process.step_apply hstep
      exact h.apply hpc haction hperform
  | post =>
      obtain ⟨r, hpc, rfl⟩ := Process.step_post hstep
      have hpost := h.isPost
      rw [hpc] at hpost
      obtain rfl : φ = .posting := by simpa using hpost
      refine .inr ⟨.answered, rfl, ⟨h.runState, ?_, ?_, rfl, nofun⟩⟩
      · rw [← show s.inFlight = Phase.inFlight .answered from h.inFlight]
        simp [Process.inFlight_eq, hpc]
      · rw [show s.paused = 0 from h.paused]
        rfl
  | runPlugin =>
      obtain ⟨hpc, rfl⟩ := Process.step_runPlugin hstep
      exact .inl (h.of_eq rfl (by simp [Process.inFlight_eq, hpc]) rfl
        (by simp [hpc]) (by simp [hpc]))
  | endRun out =>
      obtain ⟨hpc, evbufs, controls, rfl, -⟩ := Process.step_endRun hstep
      exact .inl (h.of_eq rfl (by simp [Process.inFlight_eq, hpc]) rfl
        (by simp [hpc]) fun _ => rfl)

/-! ## The protocol in runs -/

/-- The invariant of the two threads. -/
structure HostInv (L : Layout) (s : Host) : Prop where
  channel : (L.framing .uiToPlugin).ChannelInv s.process.uiToPlugin
  writing : ∀ m tx, s.process.uiToPlugin.writing = some (m, tx) →
    s.ui.mayWrite m = true ∨ ∃ mustPause, s.ui = .restoring mustPause ∧ m.runChange = none
  phase : ∃ φ, s.ui.Allows φ ∧ InPhase s.process φ

/-- A change of the UI thread's place that the phase allows. -/
theorem HostInv.move {t : Host} {ui : UiPc} (h : HostInv L t)
    (hwriting : t.process.uiToPlugin.writing = none)
    (hallows : ∀ φ, t.ui.Allows φ → InPhase t.process φ → ui.Allows φ) :
    HostInv L { t with ui } where
  channel := h.channel
  writing m tx hw := by simp [hwriting] at hw
  phase := by
    obtain ⟨φ, hφ, hphase⟩ := h.phase
    exact ⟨φ, hallows φ hφ hphase, hphase⟩

/-- At the places without writes no write is under way. -/
theorem HostInv.writing_eq_none {t : Host} (h : HostInv L t) (hui : ∀ m, t.ui.mayWrite m = false)
    (hrestoring : ∀ mustPause, t.ui ≠ .restoring mustPause) :
    t.process.uiToPlugin.writing = none := by
  cases hw : t.process.uiToPlugin.writing with
  | none => rfl
  | some w =>
      rcases h.writing w.1 w.2 hw with hmay | ⟨mustPause, heq, -⟩
      · simp [hui] at hmay
      · exact absurd heq (hrestoring mustPause)

/-- A message on its way to the ring changes nothing yet. -/
theorem HostInv.begin {t : Host} {m : JalvMessage}
    {uiToPlugin : Channel JalvMessage JalvMessageHeader} (h : HostInv L t)
    (hvalid : Ring.uiToPlugin.Receivable L.processMsgSize m)
    (hmay : t.ui.mayWrite m = true ∨ ∃ mustPause, t.ui = .restoring mustPause ∧ m.runChange = none)
    (hbegin : Channel.step (L.framing .uiToPlugin) t.process.uiToPlugin (.begin m) =
      some uiToPlugin) :
    HostInv L { t with process := { t.process with uiToPlugin } } := by
  obtain ⟨-, ⟨tx, htx⟩, hpending⟩ := Channel.pending_begin hbegin
  obtain ⟨φ, hφ, hphase⟩ := h.phase
  refine ⟨h.channel.step (a := .begin m) hvalid hbegin, ?_, φ, hφ, ?_⟩
  · intro m' tx' hw
    obtain ⟨rfl, -⟩ := Prod.mk.inj (Option.some.inj (htx.symm.trans hw))
    exact hmay
  · exact hphase.of_eq rfl (by simp [Process.inFlight_eq, hpending]) rfl rfl id

/-- The phase behind a write: a change of the run state that is accepted is on its way. -/
theorem InPhase.write {uiToPlugin : Channel JalvMessage JalvMessageHeader} {m : JalvMessage}
    (h : InPhase s φ) (hpending : uiToPlugin.pending = s.uiToPlugin.pending ++ [m] ∨
      uiToPlugin.pending = s.uiToPlugin.pending) :
    InPhase { s with uiToPlugin } φ ∨
      ∃ state, m = .runStateChange state ∧
        ({ s with uiToPlugin } : Process).inFlight = φ.inFlight ++ [state] := by
  rcases hpending with hpending | hpending
  · cases hm : m.runChange with
    | none =>
        exact .inl (h.of_eq rfl (by simp [Process.inFlight_eq, hpending, hm]) rfl rfl id)
    | some state =>
        refine .inr ⟨state, ?_, ?_⟩
        · cases m <;> simp [JalvMessage.runChange] at hm
          rw [hm]
        · rw [← h.inFlight]
          simp [Process.inFlight_eq, hpending, hm]
  · exact .inl (h.of_eq rfl (by simp [Process.inFlight_eq, hpending]) rfl rfl id)

/-- A finished write: the pause request and the resume message change the phase. -/
theorem HostInv.finish {t : Host} {uiToPlugin : Channel JalvMessage JalvMessageHeader}
    (h : HostInv L t)
    (hfinish : Channel.step (L.framing .uiToPlugin) t.process.uiToPlugin .finish =
      some uiToPlugin) :
    HostInv L ⟨{ t.process with uiToPlugin }, t.ui.afterWrite⟩ := by
  obtain ⟨m, tx, hw, hnone, -, hpending⟩ := h.channel.pending_finish hfinish
  obtain ⟨φ, hφ, hphase⟩ := h.phase
  refine ⟨h.channel.step (a := .finish) trivial hfinish, by simp [hnone], ?_⟩
  rcases hphase.write (hpending.imp And.right And.right) with hsame | ⟨state, rfl, hflight⟩
  · exact ⟨φ, hφ.afterWrite, hsame⟩
  · rcases h.writing _ _ hw with hmay | ⟨_, -, hchange⟩
    · cases hui : t.ui with
      | sendPause =>
          obtain rfl : φ = .running := by simpa [hui, UiPc.Allows] using hφ
          obtain rfl : state = .paused := by simpa [hui, UiPc.mayWrite] using hmay
          exact ⟨.requested, .inr (.inl rfl), hphase.runState, hflight, hphase.paused,
            hphase.isPost, nofun⟩
      | sendRun =>
          obtain rfl : φ = .paused := by simpa [hui, UiPc.Allows] using hφ
          obtain rfl : state = .running := by simpa [hui, UiPc.mayWrite] using hmay
          exact ⟨.resuming, .inr (.inr rfl), hphase.runState, hflight, hphase.paused,
            hphase.isPost, hphase.silent⟩
      | restored mustPause => cases mustPause <;> simp [hui, UiPc.mayWrite] at hmay
      | idle | wait | restore | restoring => simp [hui, UiPc.mayWrite] at hmay
    · simp [JalvMessage.runChange] at hchange

/-- The UI thread comes back from `zix_sem_wait` outside of a running cycle: the process thread has
answered, and is paused from here on. -/
theorem HostInv.wake {t : Host} {paused : Nat} (h : HostInv L t)
    (hcycle : t.process.pc.inRunningCycle = false) (hui : t.ui = .wait)
    (hpaused : t.process.paused = paused + 1) :
    HostInv L { t with process := { t.process with paused }, ui := .restore true } := by
  obtain ⟨φ, hφ, hphase⟩ := h.phase
  have hnone := h.writing_eq_none (by simp [hui, UiPc.mayWrite]) (by simp [hui])
  have hposts := hphase.paused
  rw [hui] at hφ
  obtain rfl : φ = .answered := by
    rcases hφ with rfl | rfl | rfl | rfl <;> simp [hpaused, Phase.posts] at hposts ⊢
  refine ⟨h.channel, fun m tx hw => ?_, .paused, rfl, hphase.runState, hphase.inFlight, ?_,
    hphase.isPost, fun _ => hcycle⟩
  · exact absurd (hw.symm.trans hnone) (by simp)
  · simpa [hpaused, Phase.posts] using hposts

/-- The steps of the process thread. -/
theorem HostInv.process {t : Host} {a : ProcessStep} {process : Process} (h : HostInv L t)
    (hprocess : t.process.step L a = some process) : HostInv L { t with process } := by
  obtain ⟨hchannel, hwriting⟩ := Process.step_channel hprocess h.channel
  obtain ⟨φ, hφ, hphase⟩ := h.phase
  refine ⟨hchannel, fun m tx hw => h.writing m tx (hwriting ▸ hw), ?_⟩
  rcases hphase.step h.channel hprocess with hsame | ⟨ψ, hnext, hψ⟩
  · exact ⟨φ, hφ, hsame⟩
  · exact ⟨ψ, hφ.next hnext, hψ⟩

/-- In the resuming phase a `RUNNING` message is on its way. -/
theorem InPhase.resuming (h : InPhase s .resuming) :
    .runStateChange .running ∈ s.unapplied := by
  have hmem : JalvRunState.running ∈ s.inFlight := by
    rw [h.inFlight]
    exact List.mem_singleton_self _
  obtain ⟨m, hm, hchange⟩ := List.mem_filterMap.1 hmem
  cases m <;> simp [JalvMessage.runChange] at hchange
  rwa [hchange] at hm

/-- Every step of a sound handshake keeps the invariant. -/
theorem HostInv.step {t t' : Host} (h : HostInv L t) {a : HostStep} (ha : SoundHandshake L t a)
    (hstep : t.step L a = some t') : HostInv L t' := by
  cases a with
  | test =>
      obtain ⟨hwriting, hui, rfl⟩ := Host.step_test hstep
      refine h.move hwriting fun φ hφ hphase => ?_
      have hstate := hphase.runState
      rw [hui] at hφ
      rcases hφ with rfl | rfl | rfl
      · simp [UiPc.Allows, show t.process.runState = .running from hstate]
      · simp [UiPc.Allows, show t.process.runState = .paused from hstate]
      · exact absurd hphase.resuming (ha hstate)
  | begin m =>
      obtain ⟨hmay, uiToPlugin, hbegin, rfl⟩ := Host.step_begin hstep
      exact h.begin ha (.inl hmay) hbegin
  | finish =>
      obtain ⟨uiToPlugin, hfinish, rfl⟩ := Host.step_finish hstep
      exact h.finish hfinish
  | wake =>
      obtain ⟨paused, hui, hpaused, rfl⟩ := Host.step_wake hstep
      exact h.wake ha hui hpaused
  | startRestore =>
      obtain ⟨mustPause, hui, rfl⟩ := Host.step_startRestore hstep
      refine h.move (h.writing_eq_none (by simp [hui, UiPc.mayWrite]) (by simp [hui])) ?_
      intro φ hφ _
      rwa [hui] at hφ
  | setPortValue portIndex value =>
      obtain ⟨mustPause, hui, ⟨controls, rfl⟩ | ⟨uiToPlugin, hbegin, rfl⟩⟩ :=
        Host.step_setPortValue hstep
      · obtain ⟨φ, hφ, hphase⟩ := h.phase
        exact ⟨h.channel, h.writing, φ, hφ, hphase.of_eq rfl rfl rfl rfl id⟩
      · exact h.begin ⟨rfl, Nat.zero_le _⟩ (.inr ⟨mustPause, hui, rfl⟩) hbegin
  | endRestore =>
      obtain ⟨hwriting, mustPause, hui, rfl⟩ := Host.step_endRestore hstep
      refine h.move hwriting ?_
      intro φ hφ _
      rwa [hui] at hφ
  | leave =>
      obtain ⟨hui, rfl⟩ := Host.step_leave hstep
      refine h.move (h.writing_eq_none (by simp [hui, UiPc.mayWrite]) (by simp [hui])) ?_
      intro φ hφ _
      rw [hui] at hφ
      exact .inr (.inl hφ)
  | process a =>
      obtain ⟨process, hprocess, rfl⟩ := Host.step_process hstep
      exact h.process hprocess

/-- The invariant holds in every run of a sound handshake. -/
theorem hostInv_of_run {settings : JalvSettings} {ringSize : UInt32} {tr : List HostStep} {t : Host}
    (h : ((host L settings ringSize).guard (SoundHandshake L)).Run tr t) : HostInv L t := by
  refine h.guard_invariant (I := fun _ t => HostInv L t) ?_ (fun _ _ _ _ hi ha => hi.step ha)
  rintro t ⟨hinit, hui⟩
  have hchannel := hinit.uiToPlugin
  refine ⟨?_, by simp [hchannel], .running, ?_, hinit.runState, ?_, hinit.paused, ?_, nofun⟩
  · rw [hchannel]
    exact channelInv_empty _
  · rw [hui]
    exact .inl rfl
  · simp [Process.inFlight_eq, hinit.pc, hchannel, Channel.pending, Phase.inFlight]
  · rw [hinit.pc]
    rfl

/-- In every run of a sound handshake, `lilv_state_restore` never overlaps `lilv_instance_run`. -/
theorem restore_excludes_run {settings : JalvSettings} {ringSize : UInt32} {tr : List HostStep}
    {t : Host} (h : ((host L settings ringSize).guard (SoundHandshake L)).Run tr t)
    {mustPause : Bool} (hrestoring : t.ui = .restoring mustPause) : t.process.pc ≠ .running := by
  obtain ⟨φ, hφ, hphase⟩ := (hostInv_of_run h).phase
  rw [hrestoring] at hφ
  obtain rfl : φ = .paused := hφ
  have hsilent := hphase.silent rfl
  intro hpc
  simp [hpc] at hsilent

/-! ## Three runs -/

/-- The two threads behind the activation of a plugin with one input. -/
def oneInputHost : Host := ⟨oneInputProcess, .idle⟩

/-- The run starts as it should. -/
theorem initial_oneInputHost : (host oneInput midi4096 4096).init oneInputHost :=
  ⟨initial_oneInputProcess, rfl⟩

/-- The UI thread asks for a pause, and the process thread applies the message and posts. -/
def askToPause : List HostStep :=
  [.test, .begin (.runStateChange .paused), .finish, .process (.cycle 64 nothingPrepared),
    .process .enter, .process .read, .process .read, .process .apply, .process .post]

/-- The process thread runs the plugin and ends its cycle. -/
def endCycle : List HostStep :=
  [.process .read, .process .runPlugin, .process (.endRun ⟨fun _ _ => 0, fun _ => 0⟩)]

/-- A restore behind the cycle that applied the pause message. -/
def pausedRestore : List HostStep := askToPause ++ endCycle ++ [.wake, .startRestore]

/-- It does not overlap the run. -/
theorem restore_excludes_run_pausedRestore :
    ∃ t, (host oneInput midi4096 4096).Run pausedRestore t ∧ t.ui = .restoring true ∧
      t.process.pc ≠ .running := by
  have hfold : (pausedRestore.foldlM
      (fun t a => if SoundHandshake oneInput t a then t.step oneInput a else none)
      oneInputHost).map Host.ui = some (.restoring true) := by rfl
  obtain ⟨t, ht, hui⟩ := Option.map_eq_some_iff.1 hfold
  have hrun := Lts.run_guard_of_foldlM (M := host oneInput midi4096 4096) (fun _ _ _ h => h)
    initial_oneInputHost ht
  exact ⟨t, hrun.of_guard, hui, restore_excludes_run hrun hui⟩

/-- A restore that begins inside that cycle. -/
def earlyRestore : List HostStep :=
  askToPause ++ [.wake, .startRestore, .process .read, .process .runPlugin]

/-- A second restore while the resume message of the first is on its way. -/
def staleRestore : List HostStep :=
  pausedRestore ++ [.endRestore, .begin .stateRequest, .finish, .begin (.runStateChange .running),
    .finish, .test, .startRestore, .process (.cycle 64 nothingPrepared), .process .enter,
    .process .read, .process .read, .process .apply, .process .read, .process .read,
    .process .apply, .process .read, .process (.cycle 64 nothingPrepared), .process .enter,
    .process .read, .process .runPlugin]

/-- Both overlap the run. -/
theorem restore_overlaps_run :
    (∃ t, (host oneInput midi4096 4096).Run earlyRestore t ∧ t.ui = .restoring true ∧
      t.process.pc = .running) ∧
    ∃ t, (host oneInput midi4096 4096).Run staleRestore t ∧ t.ui = .restoring false ∧
      t.process.pc = .running := by
  have hearly : (earlyRestore.foldlM (Host.step oneInput) oneInputHost).map
      (fun t => (t.ui, t.process.pc)) = some (.restoring true, .running) := by rfl
  have hstale : (staleRestore.foldlM (Host.step oneInput) oneInputHost).map
      (fun t => (t.ui, t.process.pc)) = some (.restoring false, .running) := by rfl
  obtain ⟨t, ht, hplace⟩ := Option.map_eq_some_iff.1 hearly
  obtain ⟨u, hu, hplace'⟩ := Option.map_eq_some_iff.1 hstale
  constructor
  · obtain ⟨hui, hpc⟩ := Prod.mk.inj hplace
    exact ⟨t, Lts.run_of_foldlM (fun _ _ _ h => h) initial_oneInputHost ht, hui, hpc⟩
  · obtain ⟨hui, hpc⟩ := Prod.mk.inj hplace'
    exact ⟨u, Lts.run_of_foldlM (fun _ _ _ h => h) initial_oneInputHost hu, hui, hpc⟩

end Soundcan.Galv
