import Soundcan.Galv.Pause
import Soundcan.Galv.Transport

/-!
# The port of a state request

Behind a restore that it has paused the process thread for, `jalv_apply_state` writes a
`STATE_REQUEST`, without looking at the plugin, and `apply_ui_events` answers it on the port
`control_in`. That is `UINT32_MAX` from `jalv_process_init` on, for `create_port` changes it only at
a primary port and no port is one. Whatever the ports of the plugin are, a state request that is
read is for a port behind the end of the array (`stateRequest_addressed_iff`).
-/

namespace Soundcan.Galv

open Framing

/-! ## The ports of a plugin -/

/-- The ports of the process thread behind `jalv_create_ports`, which leaves `control_in` at
`UINT32_MAX` where it finds no port for it. -/
def createdLayout (ports : List JalvProcessPort) (controlIn : Option Nat) (urids : JalvURIDs) :
    Layout where
  ports := ports.map JalvProcessPort.toProcessPort
  controlIn := (controlIn.map UInt32.ofNat).getD 0xffffffff
  urids := urids

/-- `control_in` is below `num_ports`, and names an event input with an allocated event buffer. -/
structure Process.AddressesInput (L : Layout) (s : Process) : Prop where
  lt : L.controlIn.toNat < L.ports.length
  isEventInput : ∃ port, L.ports[L.controlIn.toNat]? = some port ∧ port.isEventInput = true ∧
    port.hasEvbuf = true
  allocated : (s.evbufs L.controlIn.toNat).Allocated

/-- `apply_ui_events` handles a state request. -/
def Process.HandlesStateRequest (s : Process) : Prop := ∃ r, s.pc = .apply r .stateRequest

/-- The steps that do not come behind the header of a state request. -/
def ReadsNoStateRequest (s : Host) : HostStep → Prop
  | .process .read => ∀ header i space,
    s.process.uiToPlugin.reader = .body header i space → header.type ≠ STATE_REQUEST
  | _ => True

/-- The count of the ports is a 32-bit word, so `control_in` is behind all of them. -/
theorem le_controlIn_createdLayout {plugin : List LilvPort} {ports : List JalvProcessPort}
    {controlIn : Option Nat} (hcreate : jalvCreatePorts plugin = some (ports, controlIn))
    (hlength : plugin.length < 2 ^ 32) (urids : JalvURIDs) :
    (createdLayout ports controlIn urids).ports.length ≤
      (createdLayout ports controlIn urids).controlIn.toNat := by
  obtain rfl := jalvCreatePorts_controlIn hcreate
  have hports : ports.length = plugin.length := length_createPorts hcreate
  show (ports.map JalvProcessPort.toProcessPort).length ≤ (0xffffffff : UInt32).toNat
  rw [List.length_map, hports]
  exact Nat.le_of_lt_succ hlength

/-! ## Handling a state request -/

variable {L : Layout}

/-- Behind the header of a state request there is nothing to read. -/
theorem readUiMessage_of_stateRequest (size : UInt32) {header : JalvMessageHeader}
    (h : header.type = STATE_REQUEST) (ring : ByteRing) :
    readUiMessage size header ring = some (.stateRequest, ring) := by
  rw [readUiMessage, h, if_neg (by decide), if_neg (by decide), if_pos rfl]

/-- A state request is only read behind its header. -/
theorem type_of_readUiMessage {size : UInt32} {header : JalvMessageHeader} {ring ring' : ByteRing}
    (h : readUiMessage size header ring = some (.stateRequest, ring')) :
    header.type = STATE_REQUEST := by
  unfold readUiMessage at h
  split at h
  · split at h
    · obtain ⟨bytes, -, h⟩ := Option.bind_eq_some_iff.1 h
      obtain ⟨msg, hmsg, h⟩ := Option.bind_eq_some_iff.1 h
      obtain ⟨portIndex, -, hmsg⟩ := Option.bind_eq_some_iff.1 hmsg
      obtain ⟨value, -, hmsg⟩ := Option.bind_eq_some_iff.1 hmsg
      rw [← Option.some.inj hmsg] at h
      cases h
    · cases h
  · split at h
    · split at h
      · obtain ⟨bytes, -, h⟩ := Option.bind_eq_some_iff.1 h
        obtain ⟨msg, hmsg, h⟩ := Option.bind_eq_some_iff.1 h
        obtain ⟨⟨portIndex, _⟩, -, hmsg⟩ := Option.bind_eq_some_iff.1 hmsg
        obtain ⟨⟨size, _⟩, -, hmsg⟩ := Option.bind_eq_some_iff.1 hmsg
        obtain ⟨⟨type, _⟩, -, hmsg⟩ := Option.bind_eq_some_iff.1 hmsg
        dsimp only at hmsg
        split at hmsg
        · rw [← Option.some.inj hmsg] at h
          cases h
        · cases hmsg
      · cases h
    · split at h
      next htype => exact htype
      next =>
        split at h
        · split at h
          · obtain ⟨bytes, -, h⟩ := Option.bind_eq_some_iff.1 h
            obtain ⟨msg, hmsg, h⟩ := Option.bind_eq_some_iff.1 h
            obtain ⟨word, -, hmsg⟩ := Option.bind_eq_some_iff.1 hmsg
            obtain ⟨state, -, hmsg⟩ := Option.bind_eq_some_iff.1 hmsg
            rw [← Option.some.inj hmsg] at h
            cases h
          · cases h
        · cases h

/-- A read completes a state request exactly behind its header. -/
theorem readStep_stateRequest_iff {c c' : Channel JalvMessage JalvMessageHeader}
    {msg : Option JalvMessage} (h : c.readStep (L.framing .uiToPlugin) = some (c', msg)) :
    msg = some .stateRequest ↔
      ∃ header i space, c.reader = .body header i space ∧ header.type = STATE_REQUEST := by
  cases hreader : c.reader with
  | idle | failed => simp [Channel.readStep, hreader] at h
  | loop i space =>
      have hmsg : msg = none := by
        simp only [Channel.readStep, hreader] at h
        split at h
        · split at h <;> exact (Prod.mk.inj (Option.some.inj h)).2.symm
        · exact (Prod.mk.inj (Option.some.inj h)).2.symm
      simp [hmsg]
  | body header i space =>
      have hbody : (L.framing .uiToPlugin).readBody header c.ring =
        readUiMessage L.processMsgSize header c.ring := rfl
      have hheader : (∃ header' i' space', Reader.body header i space = .body header' i' space' ∧
          header'.type = STATE_REQUEST) ↔ header.type = STATE_REQUEST := by
        simp
      rw [hheader]
      constructor
      · rintro rfl
        simp only [Channel.readStep, hreader, hbody] at h
        split at h
        next m ring hread =>
          obtain rfl : m = .stateRequest :=
            Option.some.inj (Prod.mk.inj (Option.some.inj h)).2
          exact type_of_readUiMessage hread
        next => cases h
      · intro htype
        simp only [Channel.readStep, hreader, hbody, readUiMessage_of_stateRequest _ htype] at h
        exact (Prod.mk.inj (Option.some.inj h)).2.symm

/-- Where `control_in` is behind the ports, handling a state request fails, so the process thread
does nothing behind it; it comes to one by a read behind the header. -/
theorem Process.step_handlesStateRequest {s s' : Process} {a : ProcessStep}
    (hnone : L.ports.length ≤ L.controlIn.toNat) (h : s.step L a = some s') :
    ¬s.HandlesStateRequest ∧ (s'.HandlesStateRequest ↔ a = .read ∧ ∃ header i space,
      s.uiToPlugin.reader = .body header i space ∧ header.type = STATE_REQUEST) := by
  have hplace : ∀ {pc : ProcessPc}, s.pc = pc → (∀ r, pc ≠ .apply r .stateRequest) →
      ¬s.HandlesStateRequest := by
    rintro _ rfl hpc ⟨r, hr⟩
    exact hpc r hr
  have hother : ∀ {pc : ProcessPc}, s'.pc = pc → (∀ r, pc ≠ .apply r .stateRequest) → a ≠ .read →
      (s'.HandlesStateRequest ↔ a = .read ∧ ∃ header i space,
        s.uiToPlugin.reader = .body header i space ∧ header.type = STATE_REQUEST) := by
    rintro _ rfl hpc hread
    exact iff_of_false (fun ⟨r, hr⟩ => hpc r hr) (fun h => hread h.1)
  cases a with
  | cycle nframes prepared =>
      obtain ⟨hpc, ⟨-, rfl⟩ | ⟨-, _, -, rfl⟩⟩ := Process.step_cycle h
      · exact ⟨hplace hpc nofun, hother rfl nofun nofun⟩
      · exact ⟨hplace hpc nofun, hother rfl nofun nofun⟩
  | enter =>
      obtain ⟨r, uiToPlugin, hpc, -, rfl⟩ := Process.step_enter h
      exact ⟨hplace hpc nofun, hother rfl nofun nofun⟩
  | read =>
      obtain ⟨r, uiToPlugin, msg, pc, hpc, hread, rfl, hcases⟩ := Process.step_read h
      refine ⟨hplace hpc nofun, ?_⟩
      rw [← readStep_stateRequest_iff hread]
      rcases hcases with ⟨rfl, rfl⟩ | ⟨m, rfl, rfl⟩ | ⟨rfl, rfl⟩
      · simp [HandlesStateRequest]
      · simp [HandlesStateRequest]
      · cases r <;> simp [HandlesStateRequest]
  | apply =>
      obtain ⟨r, m, action, hpc, haction, hperform⟩ := Process.step_apply h
      refine ⟨hplace hpc ?_, ?_⟩
      · rintro r' heq
        obtain ⟨-, rfl⟩ := ProcessPc.apply.inj heq
        obtain ⟨port, hport, -⟩ := Option.bind_eq_some_iff.1 haction
        rw [List.getElem?_eq_none hnone] at hport
        cases hport
      · rcases Process.perform_pc hperform with hpc' | hpc'
        · exact hother hpc' nofun nofun
        · exact hother hpc' nofun nofun
  | post =>
      obtain ⟨r, hpc, rfl⟩ := Process.step_post h
      exact ⟨hplace hpc nofun, hother rfl nofun nofun⟩
  | runPlugin =>
      obtain ⟨hpc, rfl⟩ := Process.step_runPlugin h
      exact ⟨hplace hpc nofun, hother rfl nofun nofun⟩
  | endRun out =>
      obtain ⟨hpc, _, _, rfl, -⟩ := Process.step_endRun h
      exact ⟨hplace hpc nofun, hother rfl nofun nofun⟩

/-- The UI thread does not move the process thread. -/
theorem Host.step_pc {s s' : Host} {a : HostStep} (h : s.step L a = some s')
    (ha : ∀ b, a ≠ .process b) : s'.process.pc = s.process.pc := by
  cases a with
  | test =>
      obtain ⟨-, -, rfl⟩ := Host.step_test h
      rfl
  | begin m =>
      obtain ⟨-, _, -, rfl⟩ := Host.step_begin h
      rfl
  | finish =>
      obtain ⟨_, -, rfl⟩ := Host.step_finish h
      rfl
  | wake =>
      obtain ⟨_, -, -, rfl⟩ := Host.step_wake h
      rfl
  | startRestore =>
      obtain ⟨_, -, rfl⟩ := Host.step_startRestore h
      rfl
  | setPortValue portIndex value =>
      obtain ⟨_, -, ⟨_, rfl⟩ | ⟨_, -, rfl⟩⟩ := Host.step_setPortValue h <;> rfl
  | endRestore =>
      obtain ⟨-, _, -, rfl⟩ := Host.step_endRestore h
      rfl
  | leave =>
      obtain ⟨-, rfl⟩ := Host.step_leave h
      rfl
  | process b => exact absurd rfl (ha b)

/-- For every plugin, and in every run, each state request that is handled is for an event input of
the plugin with an event buffer exactly when none is: when the process thread never comes behind the
header of one. -/
theorem stateRequest_addressed_iff {plugin : List LilvPort} {ports : List JalvProcessPort}
    {controlIn : Option Nat} (hcreate : jalvCreatePorts plugin = some (ports, controlIn))
    (hlength : plugin.length < 2 ^ 32) (urids : JalvURIDs) {settings : JalvSettings}
    {ringSize : UInt32} {tr : List HostStep} {s : Host}
    (h : (host (createdLayout ports controlIn urids) settings ringSize).Run tr s) :
    (s.process.HandlesStateRequest →
        s.process.AddressesInput (createdLayout ports controlIn urids)) ↔
      ((host (createdLayout ports controlIn urids) settings ringSize).guard
        fun s a => ReadsNoStateRequest s a).Run tr s := by
  have hnone := le_controlIn_createdLayout hcreate hlength urids
  have hnot : (s.process.HandlesStateRequest →
      s.process.AddressesInput (createdLayout ports controlIn urids)) ↔
        ¬s.process.HandlesStateRequest :=
    ⟨fun hall hs => absurd (hall hs).lt (Nat.not_lt.2 hnone), fun hs h => absurd h hs⟩
  rw [hnot]
  refine Lts.Run.iff_guard (P := fun s : Host => ¬s.process.HandlesStateRequest) ?_ ?_ h
  · rintro s ⟨hinit, -⟩ ⟨r, hr⟩
    rw [hinit.pc] at hr
    cases hr
  · intro tr s a s' _ hstep
    cases a with
    | process b =>
        obtain ⟨process, hprocess, rfl⟩ := Host.step_process hstep
        obtain ⟨hbefore, hafter⟩ := Process.step_handlesStateRequest hnone hprocess
        rw [hafter]
        cases b with
        | read => simp [hbefore, ReadsNoStateRequest]
        | cycle | enter | apply | post | runPlugin | endRun => simp [hbefore, ReadsNoStateRequest]
    | test | begin | finish | wake | startRestore | setPortValue | endRestore | leave =>
        have hpc := Host.step_pc hstep nofun
        simp [Process.HandlesStateRequest, hpc, ReadsNoStateRequest]

/-- The process thread's view of a plugin with a designated control input. -/
def controlInputLayout : Layout := createdLayout [controlInputPort] none ⟨2, 1, 3, 4, 5⟩

/-- The run starts as it should. -/
theorem initial_controlInputLayout : (host controlInputLayout midi4096 4096).init oneInputHost := by
  refine ⟨⟨rfl, rfl, rfl, rfl, rfl, ?_⟩, rfl⟩
  intro p port hport _
  obtain rfl : port = eventInput := by
    cases p with
    | zero => exact (Option.some.inj hport).symm
    | succ p => cases hport
  exact (Option.some_get isSome_newEvbuf_oneInput).symm

/-- Up to its restore, the load of a preset leads to no state request. -/
theorem pausedRestore_addressed : ∃ t, ((host controlInputLayout midi4096 4096).guard
    ReadsNoStateRequest).Run pausedRestore t ∧ t.ui = .restoring true := by
  have hfold : (pausedRestore.foldlM (Host.step controlInputLayout) oneInputHost).map
      (fun t => (t.ui, t.process.pc)) = some (.restoring true, .idle) := by rfl
  obtain ⟨t, ht, hplace⟩ := Option.map_eq_some_iff.1 hfold
  obtain ⟨hui, hpc⟩ := Prod.mk.inj hplace
  have hrun := Lts.run_of_foldlM (M := host controlInputLayout midi4096 4096) (fun _ _ _ h => h)
    initial_controlInputLayout ht
  refine ⟨t, (stateRequest_addressed_iff jalvCreatePorts_controlInput (by decide) _ hrun).1 ?_, hui⟩
  rintro ⟨r, hr⟩
  rw [hpc] at hr
  cases hr

/-- Behind the restore, a cycle reads the state request. -/
def requestedState : List HostStep :=
  pausedRestore ++ [.endRestore, .begin .stateRequest, .finish,
    .process (.cycle 64 nothingPrepared), .process .enter, .process .read, .process .read]

/-- It is handled, and its port is behind the one port of the plugin, although that is designated as
the control input. -/
theorem requestedState_not_addressed :
    .control ∈ controlInput.designations ∧
      jalvCreatePorts [controlInput] = some ([controlInputPort], none) ∧
      ∃ t, (host controlInputLayout midi4096 4096).Run requestedState t ∧
        t.process.pc = .apply false .stateRequest ∧
        ¬controlInputLayout.controlIn.toNat < controlInputLayout.ports.length := by
  have hfold : (requestedState.foldlM (Host.step controlInputLayout) oneInputHost).map
      (fun t => t.process.pc) = some (.apply false .stateRequest) := by rfl
  obtain ⟨t, ht, hpc⟩ := Option.map_eq_some_iff.1 hfold
  exact ⟨List.mem_cons_self, jalvCreatePorts_controlInput, t,
    Lts.run_of_foldlM (fun _ _ _ h => h) initial_controlInputLayout ht, hpc, by decide⟩

end Soundcan.Galv
