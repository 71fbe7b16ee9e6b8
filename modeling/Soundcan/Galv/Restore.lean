import Soundcan.Lib.CString
import Soundcan.Galv.Pause

/-!
# Restoring the controls

`lilv_state_restore` calls `set_port_value` for every port value of the state. While the process
thread is paused the value is stored in `controls_buf`; while it runs, as it may for a plugin that
restores its state safely, the value is sent through `ui_to_plugin`, like a change of the UI. What a
control will be once the messages on their way are applied is its value `ahead`: nothing but a write
for this control changes it (`Process.step_ahead`). A restore loses a value where the ring refuses
the message, for the status of the write is not used, and where an older change of the same control
is still on its way when the value is stored (`restored_iff`).

The copy of each value for the UI, on `plugin_to_ui`, touches nothing here. Its status replaces that
of the write to the plugin in the message that `set_port_value` logs.
-/

namespace Soundcan.Galv

open Framing

/-! ## The state -/

/-- A value in a state: a float by its bits, a double, an int or a long. -/
inductive StateValue where
  | float (bits : UInt32)
  | double (x : Float)
  | int (n : Int32)
  | long (n : Int64)

/-- The bits of `fvalue` in `set_port_value`. -/
def StateValue.fvalue : StateValue → UInt32
  | .float bits => bits
  | .double x => x.toFloat32.toBits
  | .int n => n.toFloat32.toBits
  | .long n => n.toFloat32.toBits

/-- `jalv_port_by_symbol`, over the symbols of the ports. -/
def jalvPortBySymbol (symbols : List CString) (sym : CString) : Option Nat :=
  symbols.findIdx? (CString.strcmp · sym = .eq)

/-- The port at an index is a control input. -/
def Layout.ControlInput (L : Layout) (p : Nat) : Prop :=
  ∃ port, L.ports[p]? = some port ∧ port.type = .control ∧ port.flow = .input

/-- The port values of a state, one for each of its ports, all of them existing control inputs. A
port index is a 32-bit word. -/
structure PluginState (L : Layout) (symbols : List CString) where
  entries : List (CString × StateValue)
  nodup : (entries.map Prod.fst).Nodup
  controlInput : ∀ e ∈ entries, ∃ p : UInt32,
    jalvPortBySymbol symbols e.1 = some p.toNat ∧ L.ControlInput p.toNat

/-- The ports and the values that `set_port_value` finds, in the order of the state. -/
def PluginState.values {L : Layout} {symbols : List CString} (state : PluginState L symbols) :
    List (UInt32 × UInt32) :=
  state.entries.filterMap fun e =>
    (jalvPortBySymbol symbols e.1).map fun p => (UInt32.ofNat p, e.2.fvalue)

/-! ## One call of `jalv_apply_state` -/

/-- The two threads while `jalv_apply_state` is called once. `todo` are the values of the state
whose `set_port_value` has not returned, `called` says that the call has begun; `done` is history:
the values whose `set_port_value` has returned. -/
structure Restoring where
  host : Host
  todo : List (UInt32 × UInt32)
  called : Bool
  done : List (UInt32 × UInt32)

/-- The steps of the two threads. -/
inductive RestoreStep where
  | ui
  | process (a : ProcessStep)

/-- The test of `must_pause`. -/
def Host.test (safeRestore : Bool) (s : Host) : Host :=
  { s with ui := if !safeRestore && s.process.runState = .running then .sendPause
      else .restore false }

/-- What `jalv_apply_state` does next where no write is under way and no value is left. -/
def UiPc.next : UiPc → Option HostStep
  | .idle => none
  | .sendPause => some (.begin (.runStateChange .paused))
  | .wait => some .wake
  | .restore _ => some .startRestore
  | .restoring _ => some .endRestore
  | .restored true => some (.begin .stateRequest)
  | .restored false => some .leave
  | .sendRun => some (.begin (.runStateChange .running))

namespace Restoring

/-- One step. -/
def step (L : Layout) (safeRestore : Bool) (s : Restoring) : RestoreStep → Option Restoring
  | .process a => do
    let process ← s.host.process.step L a
    some { s with host := { s.host with process } }
  | .ui =>
    if s.host.process.uiToPlugin.writing.isSome then do
      let host ← s.host.step L .finish
      match s.host.ui, s.todo with
      | .restoring _, x :: todo => some { s with host, todo, done := s.done ++ [x] }
      | _, _ => some { s with host }
    else
      match s.host.ui, s.todo with
      | .idle, _ =>
        if s.called then none
        else some { s with host := s.host.test safeRestore, called := true }
      | .restoring _, (p, v) :: todo => do
        let host ← s.host.step L (.setPortValue p v)
        if s.host.process.runState ≠ .running then
          some { s with host, todo, done := s.done ++ [(p, v)] }
        else some { s with host }
      | ui, _ => do
        let a ← ui.next
        let host ← s.host.step L a
        some { s with host }

/-- The call has returned. -/
def Returned (s : Restoring) : Prop := s.called = true ∧ s.host.ui = .idle

end Restoring

/-- The runs of one call of `jalv_apply_state` with the given values, from any state. -/
def restore (L : Layout) (safeRestore : Bool) (host : Host) (values : List (UInt32 × UInt32)) :
    Lts Restoring RestoreStep where
  init s := s = ⟨host, values, false, []⟩
  step s a s' := s.step L safeRestore a = some s'

/-- A state in which the UI thread may call `jalv_apply_state`: with any messages in the ring, and
the process thread in any place and in either run state. -/
structure Host.Ready (L : Layout) (host : Host) : Prop where
  channel : (L.framing .uiToPlugin).ChannelInv host.process.uiToPlugin
  writing : host.process.uiToPlugin.writing = none
  ui : host.ui = .idle

/-! ## The value ahead -/

/-- A control behind a message, from its value in front. -/
def JalvMessage.setsControl (p : UInt32) (v : UInt32) : JalvMessage → UInt32
  | .controlPortChange q w => if q = p then w else v
  | _ => v

/-- The value that a control will have when the messages on their way are applied. -/
def Process.ahead (s : Process) (p : UInt32) : UInt32 :=
  s.unapplied.foldl (JalvMessage.setsControl p) (s.controls p.toNat)

/-- The step does not lose a value: the ring has the 16 bytes for its message, and no older change
of the control is on its way that would replace a stored one. A lost value does no harm where the
control is to get the same value anyway. -/
def Lands (s : Restoring) : RestoreStep → Prop
  | .process _ => True
  | .ui =>
    match s.host.ui, s.todo, s.host.process.uiToPlugin.writing with
    | .restoring _, (p, v) :: _, some (_, tx) => 16 ≤ tx.free ∨ s.host.process.ahead p = v
    | .restoring _, (p, v) :: _, none =>
      s.host.process.runState = .running ∨
        s.host.process.unapplied.foldl (JalvMessage.setsControl p) v = v
    | _, _, _ => True

section
variable {L : Layout} {s s' : Process} {p : UInt32}

/-- What is ahead of a control depends on the messages to be applied and on its value. -/
theorem Process.ahead_of_eq (hunapplied : s'.unapplied = s.unapplied)
    (hcontrol : s'.controls p.toNat = s.controls p.toNat) : s'.ahead p = s.ahead p := by
  rw [ahead, hunapplied, hcontrol, ahead]

/-- What is ahead of a control depends on the message that is being applied and on those in the
ring. -/
theorem Process.ahead_of_pending (hpc : s'.pc.message = s.pc.message)
    (hpending : s'.uiToPlugin.pending = s.uiToPlugin.pending)
    (hcontrol : s'.controls p.toNat = s.controls p.toNat) : s'.ahead p = s.ahead p :=
  ahead_of_eq (by rw [unapplied, unapplied, hpc, hpending]) hcontrol

/-- A control change sets its control; no other message sets one. -/
theorem uiAction_setControl {m : JalvMessage} {action : UiAction}
    (h : L.uiAction m = some action) :
    (∃ q w, m = .controlPortChange q w ∧ action = .setControl q.toNat w) ∨
      (∀ p v, m.setsControl p v = v) ∧ ∀ port value, action ≠ .setControl port value := by
  cases m with
  | controlPortChange q w =>
      simp only [Layout.uiAction] at h
      split at h
      · exact .inl ⟨q, w, rfl, (Option.some.inj h).symm⟩
      · cases h
  | latencyChange => cases h
  | runStateChange state =>
      obtain rfl := Option.some.inj h
      exact .inr ⟨fun _ _ => rfl, fun _ _ heq => by cases heq⟩
  | eventTransfer | stateRequest =>
      obtain ⟨port, -, h⟩ := Option.bind_eq_some_iff.1 h
      split at h
      · obtain rfl := Option.some.inj h
        exact .inr ⟨fun _ _ => rfl, fun _ _ heq => by cases heq⟩
      · cases h

/-- An action that sets no control leaves them all as they are. -/
theorem perform_controls {r : Bool} {action : UiAction} (h : s.perform r action = some s') :
    s'.pc.message = none ∧
      ((∃ port value, action = .setControl port value ∧
          s'.controls = Function.update s.controls port value) ∨
        (∀ port value, action ≠ .setControl port value) ∧ s'.controls = s.controls) := by
  cases action with
  | setControl port value =>
      obtain rfl := Option.some.inj h
      exact ⟨rfl, .inl ⟨port, value, rfl, rfl⟩⟩
  | writeEvent port type body =>
      obtain ⟨_, _, _, _, -, -, rfl⟩ := Process.perform_writeEvent h
      exact ⟨rfl, .inr ⟨(fun _ _ heq => by cases heq), rfl⟩⟩
  | setRunState state =>
      cases state <;> obtain rfl := Option.some.inj h <;>
        exact ⟨rfl, .inr ⟨(fun _ _ heq => by cases heq), rfl⟩⟩

/-- Applying the first message on its way does not change what is ahead. -/
theorem Process.apply_ahead {r : Bool} {m : JalvMessage} {action : UiAction}
    (hpc : s.pc = .apply r m) (haction : L.uiAction m = some action)
    (hperform : s.perform r action = some s') : s'.ahead p = s.ahead p := by
  have hbefore : s.unapplied = m :: s.uiToPlugin.pending := by rw [unapplied, hpc]; rfl
  obtain ⟨hmessage, hcontrols⟩ := perform_controls hperform
  have hafter : s'.unapplied = s.uiToPlugin.pending := by
    rw [unapplied, hmessage, Process.perform_uiToPlugin hperform]
    rfl
  have hvalue : s'.controls p.toNat = m.setsControl p (s.controls p.toNat) := by
    rcases uiAction_setControl haction with ⟨q, w, rfl, rfl⟩ | ⟨hsets, hne⟩
    · rcases hcontrols with ⟨port, value, heq, hset⟩ | ⟨hne, -⟩
      · obtain ⟨rfl, rfl⟩ := UiAction.setControl.inj heq
        rw [hset, Function.update_apply, JalvMessage.setsControl]
        simp only [UInt32.toNat_inj, eq_comm]
      · exact absurd rfl (hne _ _)
    · rcases hcontrols with ⟨port, value, heq, -⟩ | ⟨-, hsame⟩
      · exact absurd heq (hne _ _)
      · rw [hsets, hsame]
  rw [ahead, ahead, hbefore, hafter, hvalue, List.foldl_cons]

/-- No step of the process thread changes what is ahead of a control input. -/
theorem Process.step_ahead (hchan : (L.framing .uiToPlugin).ChannelInv s.uiToPlugin)
    (hp : L.ControlInput p.toNat) {a : ProcessStep} (h : s.step L a = some s') :
    s'.ahead p = s.ahead p := by
  cases a with
  | cycle nframes prepared =>
      obtain ⟨hpc, ⟨-, rfl⟩ | ⟨-, evbufs, -, rfl⟩⟩ := Process.step_cycle h <;>
        exact ahead_of_pending (by rw [hpc]; rfl) rfl rfl
  | enter =>
      obtain ⟨r, uiToPlugin, hpc, henter, rfl⟩ := Process.step_enter h
      exact ahead_of_pending (by rw [hpc]; rfl) (Channel.pending_enter henter).2 rfl
  | read =>
      obtain ⟨r, uiToPlugin, msg, pc, hpc, hread, rfl, hcases⟩ := Process.step_read h
      obtain ⟨-, -, hpending⟩ := hchan.readStep hread
      refine ahead_of_eq ?_ rfl
      rw [unapplied, unapplied, hpc, hpending]
      rcases hcases with ⟨rfl, rfl⟩ | ⟨m, rfl, rfl⟩ | ⟨rfl, rfl⟩
      · rfl
      · rfl
      · cases r <;> rfl
  | apply =>
      obtain ⟨r, m, action, hpc, haction, hperform⟩ := Process.step_apply h
      exact apply_ahead hpc haction hperform
  | post =>
      obtain ⟨r, hpc, rfl⟩ := Process.step_post h
      exact ahead_of_pending (by rw [hpc]; rfl) rfl rfl
  | runPlugin =>
      obtain ⟨hpc, rfl⟩ := Process.step_runPlugin h
      exact ahead_of_pending (by rw [hpc]; rfl) rfl rfl
  | endRun out =>
      obtain ⟨port, hport, htype, hflow⟩ := hp
      have hcontrol := Process.step_endRun_controls h hport (by simp [hflow])
      obtain ⟨hpc, evbufs, controls, rfl, -⟩ := Process.step_endRun h
      exact ahead_of_pending (by rw [hpc]; rfl) rfl hcontrol

/-- A message that is written behind the others sets the value ahead. -/
theorem Process.ahead_write {m : JalvMessage} {uiToPlugin : Channel JalvMessage JalvMessageHeader}
    (hpending : uiToPlugin.pending = s.uiToPlugin.pending ++ [m]) :
    ({ s with uiToPlugin } : Process).ahead p = m.setsControl p (s.ahead p) := by
  have hunapplied : ({ s with uiToPlugin } : Process).unapplied = s.unapplied ++ [m] := by
    simp only [unapplied, hpending, List.append_assoc]
  rw [ahead, hunapplied, List.foldl_append]
  rfl

end

/-! ## The steps of the UI thread -/

/-- The places behind the restore. -/
def UiPc.behindRestore (called : Bool) : UiPc → Bool
  | .restored _ | .sendRun => true
  | .idle => called
  | _ => false

/-- The end of a write brings no call behind the restore. -/
theorem UiPc.behindRestore_afterWrite {called : Bool} {ui : UiPc}
    (h : ui.afterWrite.behindRestore called = true) : ui.behindRestore called = true := by
  unfold UiPc.afterWrite at h
  split at h
  · cases h
  · rfl
  · rfl
  · exact h

section
variable {L : Layout}

/-- A step of the UI thread between the stores and the ends of its writes: the controls and the
messages on their way stay as they are, and what it begins to write sets no control. -/
structure Host.Between (L : Layout) (s s' : Host) : Prop where
  channel : (L.framing .uiToPlugin).ChannelInv s'.process.uiToPlugin
  unapplied : s'.process.unapplied = s.process.unapplied
  controls : s'.process.controls = s.process.controls
  writing : ∀ m tx, s'.process.uiToPlugin.writing = some (m, tx) →
    (∀ mustPause, s'.ui ≠ .restoring mustPause) ∧ ∀ p v, m.setsControl p v = v
  behind : ∀ called, s'.ui.behindRestore called = true →
    s.ui.behindRestore called = true ∨ ∃ mustPause, s.ui = .restoring mustPause

/-- A write that begins. -/
theorem Host.between_begin {s s' : Host} {m : JalvMessage}
    (hchannel : (L.framing .uiToPlugin).ChannelInv s.process.uiToPlugin)
    (hm : Ring.uiToPlugin.Receivable L.processMsgSize m) (hsets : ∀ p v, m.setsControl p v = v)
    (hui : ∀ mustPause, s.ui ≠ .restoring mustPause) (h : s.step L (.begin m) = some s') :
    s.Between L s' := by
  obtain ⟨-, uiToPlugin, hbegin, rfl⟩ := Host.step_begin h
  obtain ⟨-, ⟨tx, htx⟩, hpending⟩ := Channel.pending_begin hbegin
  refine ⟨hchannel.step (a := .begin m) hm hbegin, ?_, rfl, ?_, fun called hb => .inl hb⟩
  · rw [Process.unapplied, Process.unapplied, hpending]
  · intro m' tx' hw
    obtain ⟨rfl, -⟩ := Prod.mk.inj (Option.some.inj (htx.symm.trans hw))
    exact ⟨hui, hsets⟩

/-- The UI thread goes on. -/
theorem Host.between_next {s s' : Host} {a : HostStep} (hnext : s.ui.next = some a)
    (hchannel : (L.framing .uiToPlugin).ChannelInv s.process.uiToPlugin)
    (hwriting : s.process.uiToPlugin.writing = none) (h : s.step L a = some s') :
    s.Between L s' := by
  have hquiet {q : JalvMessage → Prop} :
      ∀ m tx, s.process.uiToPlugin.writing = some (m, tx) → q m := by
    intro m tx hw
    rw [hwriting] at hw
    cases hw
  cases hui : s.ui with
  | idle =>
      rw [hui] at hnext
      cases hnext
  | sendPause | sendRun =>
      rw [hui] at hnext
      obtain rfl := Option.some.inj hnext
      exact between_begin hchannel ⟨rfl, Nat.zero_le _⟩ (fun _ _ => rfl) (by simp [hui]) h
  | wait =>
      rw [hui] at hnext
      obtain rfl := Option.some.inj hnext
      obtain ⟨paused, -, -, rfl⟩ := Host.step_wake h
      exact ⟨hchannel, rfl, rfl, hquiet, fun _ hb => by cases hb⟩
  | restore mustPause =>
      rw [hui] at hnext
      obtain rfl := Option.some.inj hnext
      obtain ⟨mustPause, -, rfl⟩ := Host.step_startRestore h
      exact ⟨hchannel, rfl, rfl, hquiet, fun _ hb => by cases hb⟩
  | restoring mustPause =>
      rw [hui] at hnext
      obtain rfl := Option.some.inj hnext
      obtain ⟨-, mustPause', -, rfl⟩ := Host.step_endRestore h
      exact ⟨hchannel, rfl, rfl, hquiet, fun _ _ => .inr ⟨mustPause, hui⟩⟩
  | restored mustPause =>
      have hbehind (called : Bool) : s.ui.behindRestore called = true := by rw [hui]; rfl
      rw [hui] at hnext
      cases mustPause with
      | true =>
          obtain rfl := Option.some.inj hnext
          exact between_begin hchannel ⟨rfl, Nat.zero_le _⟩ (fun _ _ => rfl) (by simp [hui]) h
      | false =>
          obtain rfl := Option.some.inj hnext
          obtain ⟨-, rfl⟩ := Host.step_leave h
          exact ⟨hchannel, rfl, rfl, hquiet, fun called _ => .inl (hbehind called)⟩

/-! ## What is settled -/

/-- The values whose `set_port_value` has returned are ahead. -/
def Restoring.Settled (s : Restoring) : Prop := ∀ x ∈ s.done, s.host.process.ahead x.1 = x.2

/-- The invariant of a call with the given values. A write in the restore is the one for the next
value, any other sets no control; behind the restore no value is left. -/
structure RestoreInv (L : Layout) (values : List (UInt32 × UInt32)) (s : Restoring) : Prop where
  channel : (L.framing .uiToPlugin).ChannelInv s.host.process.uiToPlugin
  values_eq : values = s.done ++ s.todo
  writing : ∀ m tx, s.host.process.uiToPlugin.writing = some (m, tx) →
    (∃ mustPause p v todo, s.host.ui = .restoring mustPause ∧ s.todo = (p, v) :: todo ∧
      m = .controlPortChange p v) ∨
    (∀ mustPause, s.host.ui ≠ .restoring mustPause) ∧ ∀ p v, m.setsControl p v = v
  behind : s.host.ui.behindRestore s.called = true → s.todo = []

variable {s s' : Restoring} {values : List (UInt32 × UInt32)}

/-- Nothing is unsettled where the values that are done keep what is ahead of them. -/
theorem Restoring.settled_iff_of_done (hdone : s'.done = s.done)
    (hahead : ∀ x ∈ s.done, s'.host.process.ahead x.1 = s.host.process.ahead x.1) :
    s'.Settled ↔ s.Settled := by
  unfold Settled
  rw [hdone]
  exact forall₂_congr fun x hx => by rw [hahead x hx]

/-- One value more is settled where it is what is ahead of its control. -/
theorem Restoring.settled_iff_of_concat {x : UInt32 × UInt32} (hdone : s'.done = s.done ++ [x])
    (hahead : ∀ y ∈ s.done, s'.host.process.ahead y.1 = s.host.process.ahead y.1) :
    s'.Settled ↔ s.Settled ∧ s'.host.process.ahead x.1 = x.2 := by
  unfold Settled
  rw [hdone, List.forall_mem_append, List.forall_mem_singleton]
  exact and_congr_left fun _ => forall₂_congr fun y hy => by rw [hahead y hy]

/-- The ports of the values that are done are other ports. -/
theorem RestoreInv.ne_of_mem_done (h : RestoreInv L values s)
    (hnodup : (values.map Prod.fst).Nodup) {x : UInt32 × UInt32} {todo : List (UInt32 × UInt32)}
    (htodo : s.todo = x :: todo) : ∀ y ∈ s.done, x.1 ≠ y.1 := by
  intro y hy heq
  rw [h.values_eq, htodo, List.map_append, List.map_cons, List.nodup_append'] at hnodup
  exact hnodup.2.2 (List.mem_map_of_mem hy) (heq ▸ List.mem_cons_self)

/-- A step of the process thread. -/
theorem RestoreInv.process (h : RestoreInv L values s)
    (hcontrols : ∀ x ∈ values, L.ControlInput x.1.toNat) {a : ProcessStep} {process : Process}
    (hstep : s.host.process.step L a = some process) :
    RestoreInv L values { s with host := { s.host with process } } ∧
      (Restoring.Settled { s with host := { s.host with process } } ↔ s.Settled) := by
  obtain ⟨hchannel, hwriting⟩ := Process.step_channel hstep h.channel
  refine ⟨⟨hchannel, h.values_eq, ?_, h.behind⟩, Restoring.settled_iff_of_done rfl ?_⟩
  · intro m tx hw
    exact h.writing m tx (hwriting ▸ hw)
  · intro x hx
    refine Process.step_ahead h.channel (hcontrols x ?_) hstep
    rw [h.values_eq]
    exact List.mem_append_left _ hx

/-- A step of the UI thread between the stores and the ends of its writes. -/
theorem RestoreInv.between {host : Host} (h : RestoreInv L values s)
    (hrestoring : ∀ mustPause, s.host.ui = .restoring mustPause → s.todo = [])
    (hstep : s.host.Between L host) :
    RestoreInv L values { s with host } ∧
      (Restoring.Settled { s with host } ↔ s.Settled) := by
  refine ⟨⟨hstep.channel, h.values_eq, ?_, ?_⟩, Restoring.settled_iff_of_done rfl ?_⟩
  · intro m tx hw
    exact .inr (hstep.writing m tx hw)
  · intro hbehind
    rcases hstep.behind s.called hbehind with hb | ⟨mustPause, hui⟩
    · exact h.behind hb
    · exact hrestoring mustPause hui
  · intro x _
    exact Process.ahead_of_eq hstep.unapplied (congrFun hstep.controls _)

/-- The end of a write that is not one of the restore. -/
theorem RestoreInv.finish {host : Host} (h : RestoreInv L values s)
    (hui : ∀ mustPause, s.host.ui ≠ .restoring mustPause)
    (hstep : s.host.step L .finish = some host) :
    RestoreInv L values { s with host } ∧
      (Restoring.Settled { s with host } ↔ s.Settled) := by
  obtain ⟨uiToPlugin, hfinish, rfl⟩ := Host.step_finish hstep
  obtain ⟨m, tx, hw, hnone, -, hpending⟩ := h.channel.pending_finish hfinish
  have hsets : ∀ p v, m.setsControl p v = v := by
    rcases h.writing m tx hw with ⟨mustPause, p, v, todo, hr, -⟩ | ⟨-, hsets⟩
    · exact absurd hr (hui mustPause)
    · exact hsets
  refine ⟨⟨h.channel.step (a := .finish) trivial hfinish, h.values_eq, ?_, ?_⟩,
    Restoring.settled_iff_of_done rfl ?_⟩
  · intro m' tx' hw'
    cases hnone.symm.trans hw'
  · exact fun hbehind => h.behind (UiPc.behindRestore_afterWrite hbehind)
  · intro x _
    rcases hpending with ⟨-, hpending⟩ | ⟨-, hpending⟩
    · exact (Process.ahead_write hpending).trans (hsets _ _)
    · exact Process.ahead_of_pending rfl hpending rfl

/-- The end of a write of the restore: the value lands if the ring has room for the message. -/
theorem RestoreInv.finish_value {host : Host} {mustPause : Bool} {x : UInt32 × UInt32}
    {todo : List (UInt32 × UInt32)} (h : RestoreInv L values s)
    (hnodup : (values.map Prod.fst).Nodup) (hui : s.host.ui = .restoring mustPause)
    (htodo : s.todo = x :: todo) (hstep : s.host.step L .finish = some host) :
    RestoreInv L values { s with host, todo, done := s.done ++ [x] } ∧
      (Restoring.Settled { s with host, todo, done := s.done ++ [x] } ↔
        s.Settled ∧ Lands s .ui) := by
  obtain ⟨p, v⟩ := x
  obtain ⟨uiToPlugin, hfinish, rfl⟩ := Host.step_finish hstep
  obtain ⟨m, tx, hw, hnone, -, hpending⟩ := h.channel.pending_finish hfinish
  obtain rfl : m = .controlPortChange p v := by
    rcases h.writing m tx hw with ⟨_, p', v', todo', -, htodo', rfl⟩ | ⟨hne, -⟩
    · obtain ⟨⟨rfl, rfl⟩, -⟩ := List.cons_eq_cons.1 (htodo.symm.trans htodo')
      rfl
    · exact absurd hui (hne mustPause)
  have hlands : Lands s .ui ↔ 16 ≤ tx.free ∨ s.host.process.ahead p = v := by
    simp only [Lands, hui, htodo, hw]
  have hlength : ((L.framing .uiToPlugin).encode (.controlPortChange p v)).length = 16 := rfl
  rw [hlands]
  rw [hlength] at hpending
  refine ⟨⟨h.channel.step (a := .finish) trivial hfinish, ?_, ?_, ?_⟩, ?_⟩
  · rw [h.values_eq, htodo, List.append_assoc]
    rfl
  · intro m' tx' hw'
    cases hnone.symm.trans hw'
  · intro hbehind
    have hb := UiPc.behindRestore_afterWrite hbehind
    rw [hui] at hb
    cases hb
  rcases hpending with ⟨hroom, hpending⟩ | ⟨hfull, hpending⟩
  · refine (Restoring.settled_iff_of_concat (x := (p, v)) rfl ?_).trans ?_
    · intro y hy
      exact (Process.ahead_write hpending).trans (if_neg (h.ne_of_mem_done hnodup htodo y hy))
    · refine and_congr_right fun _ => iff_of_true ?_ (.inl hroom)
      exact (Process.ahead_write hpending).trans (if_pos rfl)
  · have hahead (q : UInt32) : ({ s.host.process with uiToPlugin } : Process).ahead q =
        s.host.process.ahead q := Process.ahead_of_pending rfl hpending rfl
    refine (Restoring.settled_iff_of_concat (x := (p, v)) rfl fun y _ => hahead y.1).trans ?_
    refine and_congr_right fun _ => ⟨fun hv => .inr ((hahead p).symm.trans hv), fun hv => ?_⟩
    exact (hahead p).trans (hv.resolve_left (by omega))

/-- The callback of the restore: a stored value lands unless an older change is on its way; a value
for the ring is not decided yet. -/
theorem RestoreInv.setPortValue {host : Host} {mustPause : Bool} {p v : UInt32}
    {todo : List (UInt32 × UInt32)} (h : RestoreInv L values s)
    (hnodup : (values.map Prod.fst).Nodup) (hui : s.host.ui = .restoring mustPause)
    (htodo : s.todo = (p, v) :: todo) (hwriting : s.host.process.uiToPlugin.writing = none)
    (hstep : s.host.step L (.setPortValue p v) = some host)
    (hs' : s' = if s.host.process.runState ≠ .running then
        { s with host, todo, done := s.done ++ [(p, v)] } else { s with host }) :
    RestoreInv L values s' ∧ (s'.Settled ↔ s.Settled ∧ Lands s .ui) := by
  have hlands : Lands s .ui ↔ s.host.process.runState = .running ∨
      s.host.process.unapplied.foldl (JalvMessage.setsControl p) v = v := by
    simp only [Lands, hui, htodo, hwriting]
  have hne := h.ne_of_mem_done hnodup htodo
  rw [hlands]
  simp only [Host.step, hwriting, hui, Option.isSome_none, Bool.false_eq_true, if_false] at hstep
  by_cases hrun : s.host.process.runState = .running
  · rw [if_neg (not_not.2 hrun)] at hstep hs'
    subst hs'
    obtain ⟨uiToPlugin, hbegin, hhost⟩ := Option.bind_eq_some_iff.1 hstep
    obtain rfl := Option.some.inj hhost
    obtain ⟨-, ⟨tx, htx⟩, hpending⟩ := Channel.pending_begin hbegin
    refine ⟨⟨?_, h.values_eq, ?_, fun hbehind => by cases hbehind⟩, ?_⟩
    · exact h.channel.step (a := .begin (.controlPortChange p v)) ⟨rfl, Nat.zero_le _⟩ hbegin
    · intro m tx' hw
      obtain ⟨rfl, -⟩ := Prod.mk.inj (Option.some.inj (htx.symm.trans hw))
      exact .inl ⟨mustPause, p, v, todo, rfl, htodo, rfl⟩
    · rw [and_iff_left (Or.inl hrun)]
      refine Restoring.settled_iff_of_done rfl fun x _ => ?_
      exact Process.ahead_of_pending rfl hpending rfl
  · rw [if_pos hrun] at hstep hs'
    subst hs'
    obtain rfl := Option.some.inj hstep
    refine ⟨⟨h.channel, ?_, ?_, ?_⟩, ?_⟩
    · rw [h.values_eq, htodo, List.append_assoc]
      rfl
    · intro m tx hw
      cases hwriting.symm.trans hw
    · exact fun hbehind => by cases hbehind
    · refine (Restoring.settled_iff_of_concat (x := (p, v)) rfl fun y hy => ?_).trans ?_
      · refine Process.ahead_of_pending rfl rfl (Function.update_of_ne ?_ _ _)
        exact fun heq => hne y hy (UInt32.toNat_inj.1 heq.symm)
      · rw [or_iff_right hrun]
        have hstored : Function.update s.host.process.controls p.toNat v p.toNat = v :=
          Function.update_self _ _ _
        simp only [Process.ahead, Process.unapplied, hstored]

/-- Outside of the callbacks nothing is lost. -/
theorem lands_of_ne
    (h : ∀ mustPause x todo, s.host.ui = .restoring mustPause → s.todo ≠ x :: todo) :
    Lands s .ui := by
  simp only [Lands]
  split
  next hui htodo _ => exact absurd htodo (h _ _ _ hui)
  next hui htodo _ => exact absurd htodo (h _ _ _ hui)
  next => trivial

/-- What a step of the UI thread can be: the end of a write, the test, a callback, or what comes
next. -/
theorem Restoring.step_ui {safeRestore : Bool} (h : s.step L safeRestore .ui = some s') :
    (∃ host, s.host.process.uiToPlugin.writing ≠ none ∧ s.host.step L .finish = some host ∧
      ((∃ mustPause x todo, s.host.ui = .restoring mustPause ∧ s.todo = x :: todo ∧
          s' = { s with host, todo, done := s.done ++ [x] }) ∨
        (∀ mustPause x todo, s.host.ui = .restoring mustPause → s.todo ≠ x :: todo) ∧
          s' = { s with host })) ∨
    s.host.process.uiToPlugin.writing = none ∧
      (s.host.ui = .idle ∧ s' = { s with host := s.host.test safeRestore, called := true } ∨
      (∃ host mustPause p v todo, s.host.ui = .restoring mustPause ∧ s.todo = (p, v) :: todo ∧
        s.host.step L (.setPortValue p v) = some host ∧
        s' = if s.host.process.runState ≠ .running then
          { s with host, todo, done := s.done ++ [(p, v)] } else { s with host }) ∨
      ∃ host a, (∀ mustPause x todo, s.host.ui = .restoring mustPause → s.todo ≠ x :: todo) ∧
        s.host.ui.next = some a ∧ s.host.step L a = some host ∧ s' = { s with host }) := by
  simp only [Restoring.step] at h
  split at h
  next hwriting =>
    obtain ⟨host, hfinish, h⟩ := Option.bind_eq_some_iff.1 h
    refine .inl ⟨host, by simpa using Option.isSome_iff_ne_none.1 hwriting, hfinish, ?_⟩
    split at h
    next mustPause x todo hui htodo =>
      exact .inl ⟨mustPause, x, todo, hui, htodo, (Option.some.inj h).symm⟩
    next hne => exact .inr ⟨hne, (Option.some.inj h).symm⟩
  next hwriting =>
    refine .inr ⟨by simpa using hwriting, ?_⟩
    split at h
    next hui =>
      split at h
      · cases h
      · exact .inl ⟨hui, (Option.some.inj h).symm⟩
    next mustPause p v todo hui htodo =>
      obtain ⟨host, hset, h⟩ := Option.bind_eq_some_iff.1 h
      refine .inr (.inl ⟨host, mustPause, p, v, todo, hui, htodo, hset, ?_⟩)
      split at h
      next hrun => rw [if_pos hrun, ← Option.some.inj h]
      next hrun => rw [if_neg hrun, ← Option.some.inj h]
    next hidle hne =>
      obtain ⟨a, hnext, h⟩ := Option.bind_eq_some_iff.1 h
      obtain ⟨host, hhost, h⟩ := Option.bind_eq_some_iff.1 h
      exact .inr (.inr ⟨host, a, fun mustPause x todo hui => hne mustPause x.1 x.2 todo hui, hnext,
        hhost, (Option.some.inj h).symm⟩)

/-- The test of `must_pause` leaves the controls and the ring as they are. -/
theorem RestoreInv.test {safeRestore : Bool} (h : RestoreInv L values s)
    (hwriting : s.host.process.uiToPlugin.writing = none) :
    RestoreInv L values { s with host := s.host.test safeRestore, called := true } ∧
      (Restoring.Settled { s with host := s.host.test safeRestore, called := true } ↔
        s.Settled) := by
  refine ⟨⟨h.channel, h.values_eq, ?_, ?_⟩, Restoring.settled_iff_of_done rfl fun _ _ => rfl⟩
  · intro m tx hw
    cases hwriting.symm.trans hw
  · intro hbehind
    simp only [Host.test] at hbehind
    split at hbehind <;> cases hbehind

/-- Every step keeps the invariant, and settles what the values need. -/
theorem RestoreInv.step {safeRestore : Bool} (h : RestoreInv L values s)
    (hcontrols : ∀ x ∈ values, L.ControlInput x.1.toNat) (hnodup : (values.map Prod.fst).Nodup)
    {a : RestoreStep} (hstep : s.step L safeRestore a = some s') :
    RestoreInv L values s' ∧ (s'.Settled ↔ s.Settled ∧ Lands s a) := by
  cases a with
  | process a =>
      obtain ⟨process, hprocess, hs'⟩ := Option.bind_eq_some_iff.1 hstep
      obtain rfl := Option.some.inj hs'
      obtain ⟨hinv, hsettled⟩ := h.process hcontrols hprocess
      exact ⟨hinv, hsettled.trans (and_iff_left trivial).symm⟩
  | ui =>
      rcases Restoring.step_ui hstep with ⟨host, hwriting, hfinish, hcases⟩ | ⟨hwriting, hcases⟩
      · rcases hcases with ⟨mustPause, x, todo, hui, htodo, rfl⟩ | ⟨hne, rfl⟩
        · exact h.finish_value hnodup hui htodo hfinish
        · obtain ⟨⟨m, tx⟩, hw⟩ := Option.ne_none_iff_exists'.1 hwriting
          have hui : ∀ mustPause, s.host.ui ≠ .restoring mustPause := by
            rcases h.writing m tx hw with ⟨mustPause, p, v, todo, hr, htodo, -⟩ | ⟨hui, -⟩
            · exact absurd htodo (hne _ _ _ hr)
            · exact hui
          obtain ⟨hinv, hsettled⟩ := h.finish hui hfinish
          exact ⟨hinv, hsettled.trans (and_iff_left (lands_of_ne hne)).symm⟩
      · rcases hcases with ⟨hui, rfl⟩ | ⟨host, mustPause, p, v, todo, hui, htodo, hset, hs'⟩ |
          ⟨host, a, hne, hnext, hhost, rfl⟩
        · obtain ⟨hinv, hsettled⟩ := h.test hwriting
          refine ⟨hinv, hsettled.trans (and_iff_left (lands_of_ne ?_)).symm⟩
          intro _ _ _ hr
          cases hui.symm.trans hr
        · exact h.setPortValue hnodup hui htodo hwriting hset hs'
        · have hlast : ∀ mustPause, s.host.ui = .restoring mustPause → s.todo = [] := by
            intro mustPause hui
            cases htodo : s.todo with
            | nil => rfl
            | cons x todo => exact absurd htodo (hne mustPause x todo hui)
          have hbetween := Host.between_next hnext h.channel hwriting hhost
          obtain ⟨hinv, hsettled⟩ := h.between hlast hbetween
          exact ⟨hinv, hsettled.trans (and_iff_left (lands_of_ne hne)).symm⟩

/-! ## Runs -/

/-- The values that have returned are settled in the runs without a lost value, and only in
those. -/
theorem settled_iff_guard {safeRestore : Bool} {host : Host} {tr : List RestoreStep}
    (hready : host.Ready L) (hcontrols : ∀ x ∈ values, L.ControlInput x.1.toNat)
    (hnodup : (values.map Prod.fst).Nodup) (h : (restore L safeRestore host values).Run tr s) :
    RestoreInv L values s ∧
      (s.Settled ↔ ((restore L safeRestore host values).guard Lands).Run tr s) := by
  have hinit : ∀ s, (restore L safeRestore host values).init s → RestoreInv L values s := by
    rintro s rfl
    refine ⟨hready.channel, rfl, fun m tx hw => ?_, fun hbehind => ?_⟩
    · cases hready.writing.symm.trans hw
    · rw [hready.ui] at hbehind
      cases hbehind
  have hinv {tr : List RestoreStep} {s : Restoring}
      (h : (restore L safeRestore host values).Run tr s) : RestoreInv L values s :=
    h.invariant (I := fun _ s => RestoreInv L values s) hinit fun _ _ _ _ _ hi hstep =>
      (hi.step hcontrols hnodup hstep).1
  refine ⟨hinv h, h.iff_guard ?_ fun _ _ _ _ hr hstep =>
    ((hinv hr).step hcontrols hnodup hstep).2⟩
  rintro s rfl x hx
  exact absurd hx List.not_mem_nil

end

/-! ## The values of a state -/

section
variable {L : Layout} {symbols : List CString} (state : PluginState L symbols)

/-- The values of a state are those of its entries whose symbol is a port's. -/
theorem PluginState.mem_values {x : UInt32 × UInt32} :
    x ∈ state.values ↔ ∃ e ∈ state.entries,
      jalvPortBySymbol symbols e.1 = some x.1.toNat ∧ x.2 = e.2.fvalue := by
  unfold values
  rw [List.mem_filterMap]
  refine exists_congr fun e => and_congr_right fun he => ?_
  obtain ⟨p, hp, -⟩ := state.controlInput e he
  rw [hp, Option.map_some, Option.some.injEq, Option.some.injEq, UInt32.ofNat_toNat, Prod.ext_iff,
    UInt32.toNat_inj]
  exact and_congr_right fun _ => eq_comm

/-- The values of a state are for control inputs. -/
theorem PluginState.controlInput_of_mem_values :
    ∀ x ∈ state.values, L.ControlInput x.1.toNat := by
  intro x hx
  obtain ⟨e, he, hp, -⟩ := state.mem_values.1 hx
  obtain ⟨p, hp', hinput⟩ := state.controlInput e he
  rwa [← Option.some.inj (hp'.symm.trans hp)]

/-- The symbol of a port is that of its index. -/
theorem jalvPortBySymbol_symbol {sym : CString} {p : Nat}
    (h : jalvPortBySymbol symbols sym = some p) : symbols[p]? = some sym := by
  obtain ⟨hp, heq, -⟩ := List.findIdx?_eq_some_iff_getElem.1 h
  rw [List.getElem?_eq_getElem hp, CString.strcmp_eq_iff.1 (of_decide_eq_true heq)]

/-- A state has at most one value for a port. -/
theorem PluginState.nodup_ports : (state.values.map Prod.fst).Nodup := by
  have hsymbols := List.pairwise_map.1 state.nodup
  unfold values
  refine List.pairwise_map.2 (List.pairwise_filterMap.2 (hsymbols.imp_of_mem ?_))
  intro e e' he he' hne x hx x' hx' heq
  obtain ⟨p, hp, -⟩ := state.controlInput e he
  obtain ⟨p', hp', -⟩ := state.controlInput e' he'
  rw [hp] at hx
  rw [hp'] at hx'
  obtain rfl := Option.some.inj hx
  obtain rfl := Option.some.inj hx'
  obtain rfl : p = p' := by simpa using heq
  have hsym := jalvPortBySymbol_symbol hp
  exact hne (Option.some.inj (hsym.symm.trans (jalvPortBySymbol_symbol hp')))

/-- When a call of `jalv_apply_state` has returned and the process thread has drained the ring, the
controls of all ports that the state lists have its values, exactly if no step has lost one. -/
theorem restored_iff {safeRestore : Bool} {host : Host} {tr : List RestoreStep} {s : Restoring}
    (hready : host.Ready L) (h : (restore L safeRestore host state.values).Run tr s)
    (hreturned : s.Returned) (hdrained : s.host.process.unapplied = []) :
    (∀ e ∈ state.entries, ∀ p, jalvPortBySymbol symbols e.1 = some p →
      s.host.process.controls p = e.2.fvalue) ↔
    ((restore L safeRestore host state.values).guard Lands).Run tr s := by
  obtain ⟨hinv, hsettled⟩ :=
    settled_iff_guard hready state.controlInput_of_mem_values state.nodup_ports h
  have hdone : s.done = state.values := by
    have htodo : s.todo = [] := hinv.behind (by rw [hreturned.2]; exact hreturned.1)
    rw [hinv.values_eq, htodo, List.append_nil]
  have hahead (p : UInt32) : s.host.process.ahead p = s.host.process.controls p.toNat := by
    rw [Process.ahead, hdrained]
    rfl
  rw [← hsettled]
  unfold Restoring.Settled
  rw [hdone]
  constructor
  · intro hall x hx
    obtain ⟨e, he, hp, hvalue⟩ := state.mem_values.1 hx
    rw [hahead, hall e he _ hp, hvalue]
  · intro hall e he p hp
    obtain ⟨q, hq, -⟩ := state.controlInput e he
    obtain rfl := Option.some.inj (hq.symm.trans hp)
    rw [← hahead]
    exact hall (q, e.2.fvalue) (state.mem_values.2 ⟨e, he, hp, rfl⟩)

end

/-! ## Draining the ring -/

/-- The message of a change. -/
def controlChange (x : UInt32 × UInt32) : JalvMessage := .controlPortChange x.1 x.2

/-- The message for a value is well formed. -/
theorem valid_controlChange (L : Layout) (x : UInt32 × UInt32) :
    (L.framing .uiToPlugin).Valid (controlChange x) := ⟨rfl, Nat.zero_le _⟩

/-- The process thread is in `apply_ui_events`, and has seen all that is in the ring: the given
changes. -/
structure Process.Draining (L : Layout) (changes : List (UInt32 × UInt32)) (s : Process) :
    Prop where
  pc : ∃ r, s.pc = .applying r
  bytes : s.uiToPlugin.ring.bytes = (L.framing .uiToPlugin).encodeAll (changes.map controlChange)
  reader : ∃ i space, s.uiToPlugin.reader = .loop i space ∧
    i + ((L.framing .uiToPlugin).encodeAll (changes.map controlChange)).length ≤ space
  accepted : s.uiToPlugin.accepted = s.uiToPlugin.decoded ++ changes.map controlChange

section
variable {L : Layout} {s : Process} {x : UInt32 × UInt32} {changes : List (UInt32 × UInt32)}

/-- The first change is read and applied. -/
theorem Process.Draining.apply (h : s.Draining L (x :: changes)) (hx : x.1.toNat < L.ports.length) :
    ∃ s', [.read, .read, .apply].foldlM (Process.step L) s = some s' ∧ s'.Draining L changes ∧
      s'.controls = Function.update s.controls x.1.toNat x.2 := by
  obtain ⟨r, hpc⟩ := h.pc
  obtain ⟨i, space, hreader, hspace⟩ := h.reader
  rw [List.map_cons, encodeAll_cons, List.length_append] at hspace
  have hpos := (L.framing .uiToPlugin).length_encode_pos (controlChange x)
  have hbytes : s.uiToPlugin.ring.bytes = (L.framing .uiToPlugin).encode (controlChange x) ++
      (L.framing .uiToPlugin).encodeAll (changes.map controlChange) := h.bytes
  obtain ⟨c₁, η, hheader, hη, hbody⟩ :=
    Channel.readStep_message (valid_controlChange L x) hreader (by omega) hbytes
  have haction : L.uiAction (controlChange x) = some (.setControl x.1.toNat x.2) := if_pos hx
  refine ⟨{ s with
    uiToPlugin := { s.uiToPlugin with
      ring := { s.uiToPlugin.ring with
        bytes := (L.framing .uiToPlugin).encodeAll (changes.map controlChange) }
      reader := .loop (i + ((L.framing .uiToPlugin).encode (controlChange x)).length) space
      decoded := s.uiToPlugin.decoded ++ [controlChange x] }
    controls := Function.update s.controls x.1.toNat x.2
    pc := .applying r }, ?_, ⟨⟨r, rfl⟩, rfl, ⟨_, space, rfl, by omega⟩, ?_⟩, rfl⟩
  · simp [Process.step, hpc, hheader, hη, hbody, haction, Process.perform]
  · rw [h.accepted, List.map_cons, List.append_assoc]
    rfl

/-- The process thread drains the ring, and each change sets its control in turn. -/
theorem Process.Draining.drain (h : s.Draining L changes)
    (hports : ∀ x ∈ changes, x.1.toNat < L.ports.length) :
    ∃ (tr : List ProcessStep) (s' : Process), tr.foldlM (Process.step L) s = some s' ∧
      s'.unapplied = [] ∧ s'.controls =
        changes.foldl (fun controls x => Function.update controls x.1.toNat x.2) s.controls := by
  induction changes generalizing s with
  | nil =>
      obtain ⟨r, hpc⟩ := h.pc
      refine ⟨[], s, rfl, ?_, rfl⟩
      rw [Process.unapplied, hpc, Channel.pending, h.accepted]
      simp [ProcessPc.message]
  | cons x changes ih =>
      obtain ⟨hx, hports⟩ := List.forall_mem_cons.1 hports
      obtain ⟨t, hfirst, ht, hcontrols⟩ := h.apply hx
      obtain ⟨tr, s', hrest, hunapplied, hs'⟩ := ih ht hports
      refine ⟨[.read, .read, .apply] ++ tr, s', ?_, hunapplied, ?_⟩
      · rw [List.foldlM_append, hfirst]
        exact hrest
      · rw [hs', hcontrols, List.foldl_cons]

/-- The process thread may take any of its steps in a call. -/
theorem run_process {safeRestore : Bool} {host : Host} {values : List (UInt32 × UInt32)}
    {tr : List RestoreStep} {s : Restoring} (h : (restore L safeRestore host values).Run tr s)
    {as : List ProcessStep} {process : Process}
    (hsteps : as.foldlM (Process.step L) s.host.process = some process) :
    (restore L safeRestore host values).Run (tr ++ as.map .process)
      { s with host := { s.host with process } } := by
  refine Lts.invariant_of_foldlM (I := fun taken process =>
    (restore L safeRestore host values).Run (tr ++ taken.map .process)
      { s with host := { s.host with process } }) hsteps ?_ ?_
  · rwa [List.map_nil, List.append_nil]
  · intro taken process a process' hrun hstep
    rw [List.map_append, ← List.append_assoc]
    exact hrun.step (congrArg (· >>= _) hstep)

end

/-! ## Two runs -/

/-- A plugin with one port, a control input. -/
def oneControl : Layout := ⟨[⟨.control, .input, none, false⟩], 0, ⟨2, 1, 3, 4, 5⟩⟩

/-- The symbol of the port. -/
def gain : CString := ⟨[0x67, 0x61, 0x69, 0x6e], by decide⟩

/-- A state with the value 1 for the port. -/
def gainState : PluginState oneControl [gain] where
  entries := [(gain, .float 0x3f800000)]
  nodup := List.nodup_singleton _
  controlInput e he := by
    obtain rfl := List.mem_singleton.1 he
    exact ⟨0, rfl, _, rfl, rfl, rfl⟩

/-- The two threads while the plugin runs, with some changes of the control to 0 in the ring. -/
def backlogHost (n : Nat) : Host where
  process := { oneInputProcess with
    uiToPlugin := {
      ring := ⟨4095, (oneControl.framing .uiToPlugin).encodeAll
        ((List.replicate n (0, 0)).map controlChange)⟩
      writing := none
      reader := .idle
      accepted := (List.replicate n (0, 0)).map controlChange
      decoded := []
      entered := 0 } }
  ui := .idle

/-- A host with a backlog is ready to restore. -/
theorem ready_backlogHost (n : Nat) : (backlogHost n).Ready oneControl where
  channel := by
    refine ⟨?_, .idle ⟨rfl, rfl, ?_⟩ rfl⟩
    · intro m tx hw
      cases hw
    intro m hm
    obtain ⟨x, -, rfl⟩ := List.mem_map.1 hm
    exact valid_controlChange oneControl x
  writing := rfl
  ui := rfl

/-- The call, from the test of `must_pause` to its return, while the plugin runs. -/
def restoreGain : List RestoreStep := List.replicate 6 .ui

/-- A cycle begins, and sees what is in the ring. -/
def enterCycle : List RestoreStep := [.process (.cycle 64 nothingPrepared), .process .enter]

/-- The first message in the ring is read and applied. -/
def applyFirst : List RestoreStep := [.process .read, .process .read, .process .apply]

/-- With an empty ring nothing is lost. -/
theorem restored_emptyRing :
    ∃ tr s, ((restore oneControl true (backlogHost 0) gainState.values).guard Lands).Run tr s ∧
      s.Returned ∧ s.host.process.unapplied = [] ∧ s.host.process.controls 0 = 0x3f800000 := by
  have hfold : ((restoreGain ++ enterCycle ++ applyFirst).foldlM (Restoring.step oneControl true)
      ⟨backlogHost 0, gainState.values, false, []⟩).map
      (fun s => (s.called, s.host.ui, s.host.process.unapplied, s.host.process.controls 0)) =
      some (true, .idle, [], 0x3f800000) := by rfl
  obtain ⟨s, hs, heq⟩ := Option.map_eq_some_iff.1 hfold
  simp only [Prod.mk.injEq] at heq
  obtain ⟨hcalled, hui, hunapplied, hcontrol⟩ := heq
  have hrun : (restore oneControl true (backlogHost 0) gainState.values).Run _ s :=
    Lts.run_of_foldlM (fun _ _ _ h => h) rfl hs
  refine ⟨_, s, (restored_iff gainState (ready_backlogHost 0) hrun ⟨hcalled, hui⟩ hunapplied).1 ?_,
    ⟨hcalled, hui⟩, hunapplied, hcontrol⟩
  intro e he p hp
  obtain rfl := List.mem_singleton.1 he
  obtain rfl : 0 = p := Option.some.inj hp
  exact hcontrol

/-- The messages for the values take sixteen bytes each. -/
theorem length_encodeAll_controlChange (L : Layout) (changes : List (UInt32 × UInt32)) :
    ((L.framing .uiToPlugin).encodeAll (changes.map controlChange)).length =
      16 * changes.length := by
  induction changes with
  | nil => rfl
  | cons x changes ih =>
      have hx : ((L.framing .uiToPlugin).encode (controlChange x)).length = 16 := rfl
      rw [List.map_cons, encodeAll_cons, List.length_append, hx, ih, List.length_cons]
      omega

/-- The two threads while `set_port_value` writes its message. -/
def writingGain (n : Nat) : Restoring where
  host := {
    process := { (backlogHost n).process with
      uiToPlugin := { (backlogHost n).process.uiToPlugin with
        writing := some (controlChange (0, 0x3f800000),
          (backlogHost n).process.uiToPlugin.ring.beginWrite) } }
    ui := .restoring false }
  todo := gainState.values
  called := true
  done := []

/-- A full ring refuses the message, and `set_port_value` returns all the same. -/
theorem step_writingGain {n : Nat} (hn : 4080 ≤ 16 * n) :
    (writingGain n).step oneControl true .ui =
      some ⟨⟨(backlogHost n).process, .restoring false⟩, [], true, gainState.values⟩ := by
  have hlength : (backlogHost n).process.uiToPlugin.ring.bytes.length = 16 * n := by
    refine (length_encodeAll_controlChange oneControl _).trans ?_
    rw [List.length_replicate]
  have hfree : (backlogHost n).process.uiToPlugin.ring.beginWrite.free = 4095 - 16 * n := by
    rw [ByteRing.beginWrite, hlength]
    rfl
  have hamend : (oneControl.framing .uiToPlugin).amend (controlChange (0, 0x3f800000))
      (backlogHost n).process.uiToPlugin.ring.beginWrite = none := by
    rw [Framing.amend_eq _ _ _ (valid_controlChange oneControl _),
      ByteRing.Transaction.amendWrite, hfree, if_neg]
    exact Nat.not_le.2 (show 4095 - 16 * n < 16 by omega)
  simp only [writingGain, Restoring.step, Host.step, Channel.step, hamend, Option.map_some]
  rfl

/-- The call returns, and the process thread begins to read. -/
theorem run_fullRing {n : Nat} (hn : 4080 ≤ 16 * n) : ∃ s,
    (restore oneControl true (backlogHost n) gainState.values).Run (restoreGain ++ enterCycle) s ∧
      s.Returned ∧ s.host.process.Draining oneControl (List.replicate n (0, 0)) ∧
      s.host.process.controls 0 = 0 := by
  have hbegin : (List.replicate 3 .ui).foldlM (Restoring.step oneControl true)
      ⟨backlogHost n, gainState.values, false, []⟩ = some (writingGain n) := rfl
  have hrest : ((.ui :: .ui :: enterCycle).foldlM (Restoring.step oneControl true)
      ⟨⟨(backlogHost n).process, .restoring false⟩, [], true, gainState.values⟩).map
      (fun s => (s.called, s.host.ui, s.host.process.pc, s.host.process.uiToPlugin,
        s.host.process.controls 0)) =
      some (true, .idle, .applying true, { (backlogHost n).process.uiToPlugin with
        reader := .loop 0 (backlogHost n).process.uiToPlugin.ring.readSpace
        entered := (backlogHost n).process.uiToPlugin.accepted.length }, 0) := rfl
  obtain ⟨s, hs, heq⟩ := Option.map_eq_some_iff.1 hrest
  simp only [Prod.mk.injEq] at heq
  obtain ⟨hcalled, hui, hpc, hchannel, hcontrol⟩ := heq
  have hfold : (restoreGain ++ enterCycle).foldlM (Restoring.step oneControl true)
      ⟨backlogHost n, gainState.values, false, []⟩ = some s := by
    have hsteps : restoreGain ++ enterCycle =
        List.replicate 3 .ui ++ .ui :: .ui :: .ui :: enterCycle := rfl
    rw [hsteps, List.foldlM_append, hbegin, Option.bind_eq_bind, Option.bind_some,
      List.foldlM_cons, step_writingGain hn]
    exact hs
  refine ⟨s, Lts.run_of_foldlM (fun _ _ _ h => h) rfl hfold, ⟨hcalled, hui⟩, ?_, hcontrol⟩
  exact {
    pc := ⟨true, hpc⟩
    bytes := by
      rw [hchannel]
      rfl
    reader := by
      refine ⟨0, (backlogHost n).process.uiToPlugin.ring.readSpace, ?_, (Nat.zero_add _).le⟩
      rw [hchannel]
    accepted := by
      rw [hchannel]
      rfl }

/-- The value of the state is lost: when all is drained the control is 0. -/
theorem fullRing_not_restored :
    (backlogHost 255).Ready oneControl ∧ ∃ tr s,
      (restore oneControl true (backlogHost 255) gainState.values).Run tr s ∧ s.Returned ∧
        s.host.process.unapplied = [] ∧
        ∃ e ∈ gainState.entries, ∃ p, jalvPortBySymbol [gain] e.1 = some p ∧
          s.host.process.controls p ≠ e.2.fvalue := by
  obtain ⟨s, hrun, hreturned, hdraining, hcontrol⟩ := run_fullRing (n := 255) (by decide)
  obtain ⟨as, process, hsteps, hunapplied, hcontrols⟩ := hdraining.drain fun x hx => by
    obtain rfl := List.eq_of_mem_replicate hx
    decide
  refine ⟨ready_backlogHost 255, _, _, run_process hrun hsteps, hreturned, hunapplied, _,
    List.mem_singleton_self _, 0, rfl, ?_⟩
  have hzero : process.controls 0 = 0 := by
    rw [hcontrols]
    refine List.foldlRecOn (motive := fun controls : Nat → UInt32 => controls 0 = 0) _ _ hcontrol ?_
    intro controls _ x hx
    obtain rfl := List.eq_of_mem_replicate hx
    exact Function.update_self _ _ _
  intro hvalue
  exact absurd (hzero.symm.trans hvalue) (by decide)

end Soundcan.Galv
