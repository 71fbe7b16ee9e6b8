import Mathlib.Data.Rat.Floor
import Soundcan.Lib.CText
import Soundcan.Galv.Teardown

/-!
# The settings

`jalv_open` fills `JalvSettings` in several places: from the options, from JACK, and with defaults
in `jalv_init_ui_settings`. What is derived from the settings in between is derived from what is
there. The number of frames between two updates of the UI is computed when the sample rate and the
update rate are both 0, and the ranges of the controls are scaled by a sample rate of 0
(`startUp_not_usesSampleRate`). The largest port enlarges `opts.ring_size`, which has been copied
before, so the rings fit the ports only where the option, the MIDI buffers or 4096 bytes do
(`startUp_ringsFit_iff`).

The settings decide nothing about how far `jalv_open` goes, so they are kept beside its resources
(`map_jalv_startUp`). Floating point numbers are exact here.
-/

namespace Soundcan.Galv

/-! ## The data -/

/-- `JalvOptions`: those that the settings are made from. -/
structure JalvOptions where
  ringSize : UInt32
  updateRate : ℚ
  scaleFactor : ℚ

/-- The options of the zeroed `Jalv`. -/
def JalvOptions.zeroed : JalvOptions := ⟨0, 0, 0⟩

/-- `JalvSettings`, as `jalv_open` fills them. -/
structure StartSettings where
  sampleRate : ℚ
  blockLength : UInt32
  midiBufSize : Nat
  ringSize : UInt32
  uiUpdateHz : ℚ
  uiScaleFactor : ℚ

/-- A node that Lilv gives for a bound of a port: a number, of either kind, or something else. -/
inductive RangeNode where
  | number (value : ℚ)
  | other
  deriving DecidableEq

/-- What Lilv says about the range of a port; `sampleRate` is the property `lv2:sampleRate`. -/
structure PortRange where
  sampleRate : Bool
  default : Option RangeNode
  min : Option RangeNode
  max : Option RangeNode

/-- `ControlID`: the port and its range. -/
structure PortControl where
  index : Nat
  default : Option RangeNode
  min : Option RangeNode
  max : Option RangeNode

/-- What JACK says about its server; `midiBufSize` is 4096 where the build cannot ask. -/
structure JackServer where
  sampleRate : UInt32
  bufferSize : UInt32
  midiBufSize : Nat

/-- `Jalv`, with what is made of the settings: the divisor in the computation of `update_frames` and
its result, where that is defined, the ports of the process thread and their controls, and the sizes
that the rings are created with. -/
structure StartUp where
  jalv : Jalv
  opts : JalvOptions
  settings : StartSettings
  updateDivisor : ℚ
  updateFrames : Option UInt32
  ports : List JalvProcessPort
  controls : List PortControl
  uiMsgSize : UInt32
  uiToPlugin : Option UInt32
  pluginToUi : Option UInt32

/-! ## The options -/

/-- What an option with a value sets. -/
def JalvOptions.set (arg value : List Char) (opts : JalvOptions) : JalvOptions :=
  if arg[1]? = some 'b' then { opts with ringSize := UInt32.ofInt (CText.atoi value) } else opts

/-- The loop of `jalv_frontend_init`, for the options. -/
def frontendOptions (malloc : Nat → Bool) : List (List Char) → Jalv → JalvOptions → JalvOptions
  | [], _, opts => opts
  | arg :: args, jalv, opts =>
    match frontendOption malloc arg args.head? jalv with
    | .stop => opts
    | .exit _ => opts
    | .flag jalv => frontendOptions malloc args jalv opts
    | .valued jalv =>
      match args with
      | [] => opts
      | value :: args => frontendOptions malloc args jalv (opts.set arg value)

/-- The options behind `jalv_frontend_init`. -/
def Launch.opts (w : Launch) : JalvOptions :=
  frontendOptions w.malloc w.args (.zeroed w.preset) .zeroed

/-! ## Filling the settings -/

/-- The settings that `jalv_open` begins with. -/
def StartSettings.ofOptions (opts : JalvOptions) : StartSettings where
  sampleRate := 0
  blockLength := 4096
  midiBufSize := 1024
  ringSize := opts.ringSize
  uiUpdateHz := opts.updateRate
  uiScaleFactor := opts.scaleFactor

/-- `(uint32_t)(sample_rate / ui_update_hz)`; undefined where the quotient is not a number that an
`uint32_t` can hold. -/
def toUpdateFrames (sampleRate uiUpdateHz : ℚ) : Option UInt32 :=
  if uiUpdateHz ≠ 0 ∧ -1 < sampleRate / uiUpdateHz ∧ sampleRate / uiUpdateHz < 2 ^ 32 then
    some (UInt32.ofNat ⌊sampleRate / uiUpdateHz⌋₊)
  else none

/-- A numeric bound, scaled by the sample rate. -/
def RangeNode.scale (sampleRate : ℚ) : RangeNode → RangeNode
  | number value => number (value * sampleRate)
  | other => other

/-- `new_port_control`. -/
def newPortControl (index : Nat) (range : PortRange) (sampleRate : ℚ) : PortControl :=
  if range.sampleRate then
    ⟨index, range.default, range.min.map (.scale sampleRate), range.max.map (.scale sampleRate)⟩
  else ⟨index, range.default, range.min, range.max⟩

/-- The audio engine properties that `jalv_backend_open` sets. -/
def StartSettings.askServer (server : JackServer) (settings : StartSettings) : StartSettings :=
  { settings with
    sampleRate := server.sampleRate.toNat
    blockLength := server.bufferSize
    midiBufSize := server.midiBufSize }

/-- The limit of `jalv_init_ui_settings` for the rate. -/
def clampHz (hz : ℚ) : ℚ := max 1 (min 60 hz)

/-- `jalv_init_ui_settings`. -/
def initUiSettings (opts : JalvOptions) (settings : StartSettings) : StartSettings :=
  let settings := if settings.ringSize = 0 then
    { settings with ringSize := UInt32.ofNat (settings.midiBufSize * 16) } else settings
  let settings := if opts.updateRate ≤ 0 then { settings with uiUpdateHz := 30 } else settings
  let settings := if opts.scaleFactor ≤ 0 then { settings with uiScaleFactor := 1 } else settings
  { settings with
    uiUpdateHz := clampHz settings.uiUpdateHz
    ringSize := if 4096 > settings.ringSize then 4096 else settings.ringSize }

namespace StartUp

/-- The zeroed `Jalv` with its options and first settings, in front of the plugin that is found. -/
def ofOptions (opts : JalvOptions) (jalv : Jalv) : StartUp where
  jalv
  opts
  settings := .ofOptions opts
  updateDivisor := 0
  updateFrames := none
  ports := []
  controls := []
  uiMsgSize := 0
  uiToPlugin := none
  pluginToUi := none

/-- `jalv_process_init`, with the `update_frames` that `jalv_open` computes for it. -/
def processInit (s : StartUp) : StartUp :=
  { s with
    jalv := s.jalv.processInit
    updateDivisor := s.settings.uiUpdateHz
    updateFrames := toUpdateFrames s.settings.sampleRate s.settings.uiUpdateHz
    ports := []
    uiToPlugin := none
    pluginToUi := none }

/-- `create_port` for the port `i`. It has returned where `jalv_process_port_init` fails. -/
def createPort (w : Launch) (ranges : Nat → PortRange) (i : Nat) (lilvPort : LilvPort)
    (s : StartUp) : Except Exit StartUp := do
  let jalv ← s.jalv.createPort w i lilvPort
  let pport := (jalvProcessPortInit lilvPort .zeroed).getD .zeroed
  let hidden := !s.jalv.showHidden && lilvPort.notOnGui
  let controls := if lilvPort.controlPort && !hidden then
    s.controls ++ [newPortControl i (ranges i) s.settings.sampleRate] else s.controls
  let ringSize := max s.opts.ringSize (pport.bufSize * 16)
  let uiMsgSize := if pport.flow = .output then max s.uiMsgSize pport.bufSize else s.uiMsgSize
  .ok { s with
    jalv, ports := s.ports ++ [pport], controls, opts := { s.opts with ringSize }, uiMsgSize }

/-- The loop of `jalv_create_ports` over the ports from `i` on. -/
def createPorts (w : Launch) (ranges : Nat → PortRange) (i : Nat) :
    List LilvPort → StartUp → Except Exit StartUp
  | [], s => .ok s
  | lilvPort :: ports, s => do
    let s ← s.createPort w ranges i lilvPort
    createPorts w ranges (i + 1) ports s

/-- `jalv_create_ports`. -/
def jalvCreatePorts (w : Launch) (ranges : Nat → PortRange) (plugin : LilvPlugin) (s : StartUp) :
    Except Exit StartUp :=
  let mem := (s.jalv.mem.alloc .ports).tryAlloc w.malloc .controlsBuf
  { s with jalv := { s.jalv with mem, numPorts := plugin.ports.length } }.createPorts w ranges 0
    plugin.ports

/-- `jalv_create_controls`. -/
def createControls (w : Launch) (writable : Bool) (plugin : LilvPlugin) (s : StartUp) : StartUp :=
  { s with jalv := s.jalv.createControls w writable plugin.properties }

/-- `jalv_backend_open`. -/
def backendOpen (w : Launch) (server : JackServer) (s : StartUp) : Except Exit StartUp := do
  let jalv ← s.jalv.backendOpen w
  .ok { s with jalv, settings := s.settings.askServer server }

/-- `jalv_process_activate`: the rings. -/
def processActivate (s : StartUp) : StartUp :=
  { s with uiToPlugin := some s.settings.ringSize, pluginToUi := some s.settings.ringSize }

/-- `jalv_open` from the UIs of the plugin on. -/
def openPlugin (w : Launch) (ranges : Nat → PortRange) (server : JackServer) (plugin : LilvPlugin)
    (s : StartUp) : Except Exit StartUp := do
  let mem := if plugin.hasUis then s.jalv.mem.alloc .uis else s.jalv.mem.clear .uis
  let s ← { s with jalv := { s.jalv with mem } }.processInit.jalvCreatePorts w ranges plugin
  let s := s.createControls w true plugin
  let s := s.createControls w false plugin
  let s ← s.backendOpen w server
  let s := { s with settings := initUiSettings s.opts s.settings }
  let jalv ← s.jalv.listFeatures w
  let jalv ← jalv.instantiate plugin
  .ok { s with jalv }.processActivate

end StartUp

/-- `jalv_open`, with the settings; `ranges` are those of the ports of the plugin. -/
def startUp (w : Launch) (ranges : Nat → PortRange) (server : JackServer) :
    Except Exit StartUp := do
  let (plugin, jalv) ← jalvFindPlugin w
  (StartUp.ofOptions w.opts jalv).openPlugin w ranges server plugin

/-! ## The settings beside the resources -/

section
variable {w : Launch} {ranges : Nat → PortRange} {server : JackServer} {plugin : LilvPlugin}

/-- Two sequences agree under projections if their parts do. -/
theorem map_bind_eq {ε α β γ δ : Type} {p : α → β} {q : γ → δ} {x : Except ε α} {y : Except ε β}
    {f : α → Except ε γ} {g : β → Except ε δ} (hx : x.map p = y)
    (hf : ∀ a, (f a).map q = g (p a)) : (x >>= f).map q = y >>= g := by
  subst hx
  cases x with
  | error e => rfl
  | ok a => exact hf a

namespace StartUp

/-- Forgetting the settings, a port is created as `create_port` of the model without them does. -/
theorem map_jalv_createPort (i : Nat) (lilvPort : LilvPort) (s : StartUp) :
    (s.createPort w ranges i lilvPort).map jalv = s.jalv.createPort w i lilvPort := by
  unfold createPort
  cases s.jalv.createPort w i lilvPort <;> rfl

/-- Forgetting the settings, all the ports are created as without them. -/
theorem map_jalv_createPorts (i : Nat) (ports : List LilvPort) (s : StartUp) :
    (s.createPorts w ranges i ports).map jalv = s.jalv.createPorts w i ports := by
  induction ports generalizing i s with
  | nil => rfl
  | cons lilvPort ports ih =>
      exact map_bind_eq (map_jalv_createPort i lilvPort s) fun s => ih (i + 1) s

/-- Forgetting the settings, the backend is opened as without them. -/
theorem map_jalv_backendOpen (s : StartUp) :
    (s.backendOpen w server).map jalv = s.jalv.backendOpen w := by
  unfold backendOpen
  cases s.jalv.backendOpen w <;> rfl

/-- Forgetting the settings, the plugin is opened as without them. -/
theorem map_jalv_openPlugin (s : StartUp) :
    (s.openPlugin w ranges server plugin).map jalv = s.jalv.openPlugin w plugin := by
  refine map_bind_eq (map_jalv_createPorts _ _ _) fun s => ?_
  refine map_bind_eq (map_jalv_backendOpen _) fun s => ?_
  cases hlist : s.jalv.listFeatures w with
  | error e => simp only [hlist]; rfl
  | ok jalv =>
      simp only [hlist]
      cases hinst : jalv.instantiate plugin <;> simp only [bind, Except.bind, hinst] <;> rfl

end StartUp

/-- The settings do not change what `jalv_open` does with its resources. -/
theorem map_jalv_startUp : (startUp w ranges server).map StartUp.jalv = jalvOpen w := by
  unfold startUp jalvOpen
  cases jalvFindPlugin w with
  | error e => rfl
  | ok r => exact StartUp.map_jalv_openPlugin _

/-- Where `jalv_open` succeeds there are settings. -/
theorem exists_startUp_ok {jalv : Jalv} (h : jalvOpen w = .ok jalv) :
    ∃ s, startUp w ranges server = .ok s ∧ s.jalv = jalv := by
  have hmap : (startUp w ranges server).map StartUp.jalv = jalvOpen w := map_jalv_startUp
  rw [← hmap] at h
  cases hs : startUp w ranges server with
  | error e =>
      rw [hs] at h
      cases h
  | ok s =>
      rw [hs] at h
      exact ⟨s, rfl, Except.ok.inj h⟩

end

/-! ## What reaches the plugin's start -/

section
variable {w : Launch} {ranges : Nat → PortRange} {server : JackServer} {plugin : LilvPlugin}
  {opts : JalvOptions} {ports : List LilvPort}

/-- The `buf_size` of the port in the process thread. -/
def LilvPort.bufSize (lilvPort : LilvPort) : UInt32 :=
  { JalvProcessPort.zeroed with minimumSize := lilvPort.minimumSize }.bufSize

/-- While the ports are created, the settings are those of the options, and only the options know of
the ports. -/
structure StartUp.Creating (ranges : Nat → PortRange) (opts : JalvOptions) (ports : List LilvPort)
    (s : StartUp) : Prop where
  updateRate : s.opts.updateRate = opts.updateRate
  scaleFactor : s.opts.scaleFactor = opts.scaleFactor
  settings : s.settings = .ofOptions opts
  updateDivisor : s.updateDivisor = opts.updateRate
  updateFrames : s.updateFrames = toUpdateFrames 0 opts.updateRate
  controls : ∀ control ∈ s.controls,
    control = newPortControl control.index (ranges control.index) 0
  ports : s.ports.map (·.bufSize) = ports.map LilvPort.bufSize
  accumulated : ∀ port ∈ s.ports, port.bufSize * 16 ≤ s.opts.ringSize

/-- The start has succeeded. -/
structure StartUp.Started (ranges : Nat → PortRange) (opts : JalvOptions) (server : JackServer)
    (ports : List LilvPort) (s : StartUp) : Prop where
  settings : s.settings = initUiSettings opts ((StartSettings.ofOptions opts).askServer server)
  updateDivisor : s.updateDivisor = opts.updateRate
  updateFrames : s.updateFrames = toUpdateFrames 0 opts.updateRate
  controls : ∀ control ∈ s.controls,
    control = newPortControl control.index (ranges control.index) 0
  ports : s.ports.map (·.bufSize) = ports.map LilvPort.bufSize
  accumulated : ∀ port ∈ s.ports, port.bufSize * 16 ≤ s.opts.ringSize
  uiToPlugin : s.uiToPlugin = some s.settings.ringSize
  pluginToUi : s.pluginToUi = some s.settings.ringSize

/-- A port that is created has the buffer size that it asks for. -/
theorem exists_port_of_createPort_ok {jalv jalv' : Jalv} {i : Nat} {lilvPort : LilvPort}
    (h : jalv.createPort w i lilvPort = .ok jalv') :
    ∃ port, jalvProcessPortInit lilvPort .zeroed = some port ∧ port.bufSize = lilvPort.bufSize := by
  cases hinit : jalvProcessPortInit lilvPort .zeroed with
  | none =>
      unfold Jalv.createPort at h
      rw [hinit] at h
      cases h
  | some port =>
      unfold jalvProcessPortInit at hinit
      obtain ⟨flow, -, hinit⟩ := Option.bind_eq_some_iff.1 hinit
      obtain ⟨type, -, hinit⟩ := Option.bind_eq_some_iff.1 hinit
      refine ⟨port, rfl, ?_⟩
      rw [← Option.some.inj hinit]
      rfl

/-- Only the update rate and the scale factor of the options count. -/
theorem initUiSettings_congr {opts' : JalvOptions} (hrate : opts'.updateRate = opts.updateRate)
    (hscale : opts'.scaleFactor = opts.scaleFactor) (settings : StartSettings) :
    initUiSettings opts' settings = initUiSettings opts settings := by
  unfold initUiSettings
  rw [hrate, hscale]

/-- A control that is made of a port is the one that is made of its port. -/
theorem newPortControl_index (i : Nat) (ranges : Nat → PortRange) (sampleRate : ℚ) :
    newPortControl i (ranges i) sampleRate =
      newPortControl (newPortControl i (ranges i) sampleRate).index
        (ranges (newPortControl i (ranges i) sampleRate).index) sampleRate := by
  have hindex : (newPortControl i (ranges i) sampleRate).index = i := by
    unfold newPortControl
    split <;> rfl
  rw [hindex]

namespace StartUp

variable {s : StartUp}

/-- A port that is created joins those from before. -/
theorem createPort_meets {i : Nat} {lilvPort : LilvPort} (h : s.Creating ranges opts ports) :
    Meets (fun _ => True) (Creating ranges opts (ports ++ [lilvPort]))
      (s.createPort w ranges i lilvPort) := by
  unfold createPort
  cases hjalv : s.jalv.createPort w i lilvPort with
  | error e => trivial
  | ok jalv =>
      obtain ⟨port, hport, hbuf⟩ := exists_port_of_createPort_ok hjalv
      have hpport : (jalvProcessPortInit lilvPort .zeroed).getD .zeroed = port := by
        rw [hport, Option.getD_some]
      refine ⟨h.updateRate, h.scaleFactor, h.settings, h.updateDivisor, h.updateFrames, ?_, ?_, ?_⟩
      · intro control hcontrol
        dsimp only at hcontrol
        split at hcontrol
        · rcases List.mem_append.1 hcontrol with hmem | hnew
          · exact h.controls control hmem
          · rw [List.mem_singleton.1 hnew, h.settings]
            exact newPortControl_index i ranges 0
        · exact h.controls control hcontrol
      · dsimp only
        rw [hpport, List.map_append, List.map_append, h.ports, List.map_singleton,
          List.map_singleton, hbuf]
      · intro port' hmem
        rw [hpport, UInt32.le_iff_toNat_le, UInt32.toNat_max]
        dsimp only at hmem
        rw [hpport] at hmem
        rcases List.mem_append.1 hmem with hold | hnew
        · exact le_trans (UInt32.le_iff_toNat_le.1 (h.accumulated port' hold)) (le_max_left _ _)
        · rw [List.mem_singleton.1 hnew]
          exact le_max_right _ _

/-- All the ports that are created join those from before, by induction on the list. -/
theorem createPorts_meets {i : Nat} {ports' : List LilvPort} (h : s.Creating ranges opts ports) :
    Meets (fun _ => True) (Creating ranges opts (ports ++ ports'))
      (s.createPorts w ranges i ports') := by
  induction ports' generalizing i s ports with
  | nil => rwa [List.append_nil]
  | cons lilvPort ports' ih =>
      rw [← List.singleton_append, ← List.append_assoc]
      exact (createPort_meets h).bind fun s h => ih h

/-- Behind `process_init` no port has been created. -/
theorem creating_processInit (opts : JalvOptions) (jalv : Jalv) :
    (ofOptions opts jalv).processInit.Creating ranges opts [] :=
  ⟨rfl, rfl, rfl, rfl, rfl, by simp [ofOptions, processInit], rfl, by simp [processInit]⟩

/-- The resources are no part of what holds while the ports are created. -/
theorem Creating.withJalv (h : s.Creating ranges opts ports) (jalv : Jalv) :
    { s with jalv }.Creating ranges opts ports :=
  ⟨h.updateRate, h.scaleFactor, h.settings, h.updateDivisor, h.updateFrames, h.controls, h.ports,
    h.accumulated⟩

/-- From the audio server on, the settings are those of the server and the defaults. -/
theorem Creating.started (h : s.Creating ranges opts ports) (jalv : Jalv) :
    { s with jalv, settings := initUiSettings s.opts (s.settings.askServer server)
      }.processActivate.Started ranges opts server ports := by
  refine ⟨?_, h.updateDivisor, h.updateFrames, h.controls, h.ports, h.accumulated, rfl, rfl⟩
  show initUiSettings s.opts (s.settings.askServer server) = _
  rw [initUiSettings_congr h.updateRate h.scaleFactor, h.settings]

/-- A plugin that is opened has been started with the settings of all its ports. -/
theorem openPlugin_meets (opts : JalvOptions) (jalv : Jalv) :
    Meets (fun _ => True) (Started ranges opts server plugin.ports)
      ((ofOptions opts jalv).openPlugin w ranges server plugin) := by
  unfold openPlugin jalvCreatePorts
  refine (createPorts_meets ((creating_processInit opts _).withJalv _)).bind fun s h => ?_
  refine Meets.bind (Q := fun s' => ∃ jalv, s' = { s with
    jalv, settings := s.settings.askServer server }) ?_ fun s' hs' => ?_
  · unfold backendOpen
    cases (Jalv.backendOpen w _) with
    | error e => trivial
    | ok jalv => exact ⟨jalv, rfl⟩
  obtain ⟨jalv, rfl⟩ := hs'
  refine Meets.bind (Q := fun _ => True) ?_ fun jalv _ => ?_
  · cases jalv.listFeatures w <;> trivial
  refine Meets.bind (Q := fun _ => True) ?_ fun jalv _ => ?_
  · cases jalv.instantiate plugin <;> trivial
  exact h.started jalv

end StartUp

/-- A successful `jalv_open`, with the plugin it has found. -/
theorem startUp_started {s : StartUp} (h : startUp w ranges server = .ok s) :
    ∃ plugin, w.Finds plugin ∧ s.Started ranges w.opts server plugin.ports := by
  unfold startUp at h
  cases hfind : jalvFindPlugin w with
  | error e =>
      rw [hfind] at h
      cases h
  | ok r =>
      obtain ⟨plugin, jalv⟩ := r
      rw [hfind] at h
      have hopen : (StartUp.ofOptions w.opts jalv).openPlugin w ranges server plugin = .ok s := h
      have hmeets : Meets _ _ ((StartUp.ofOptions w.opts jalv).openPlugin w ranges server plugin) :=
        StartUp.openPlugin_meets w.opts jalv
      rw [hopen] at hmeets
      exact ⟨plugin, jalvFindPlugin_ok_iff.1 ⟨jalv, hfind⟩, hmeets⟩

/-- `jalv_open` finds one plugin. -/
theorem Launch.Finds.unique {plugin' : LilvPlugin} (h : w.Finds plugin) (h' : w.Finds plugin') :
    plugin = plugin' := by
  obtain ⟨jalv, hok⟩ := jalvFindPlugin_ok_iff.2 h
  obtain ⟨jalv', hok'⟩ := jalvFindPlugin_ok_iff.2 h'
  cases hok.symm.trans hok'
  rfl

/-- No option sets the update rate. -/
theorem updateRate_frontendOptions (malloc : Nat → Bool) (args : List (List Char)) (jalv : Jalv)
    (opts : JalvOptions) :
    (frontendOptions malloc args jalv opts).updateRate = opts.updateRate := by
  fun_induction frontendOptions malloc args jalv opts with
  | case1 | case2 | case3 => rfl
  | case4 _ _ _ _ _ _ ih => exact ih
  | case5 => rfl
  | case6 arg jalv opts next value args heq ih =>
      rw [ih, JalvOptions.set]
      split <;> rfl

/-- No option sets the update rate. -/
theorem updateRate_opts : w.opts.updateRate = 0 :=
  updateRate_frontendOptions _ _ _ _

end

/-! ## The sample rate -/

section
variable {w : Launch} {ranges : Nat → PortRange} {server : JackServer} {s : StartUp}

/-- What is derived from the sample rate is derived from that of the server, and from the update
rate that the UI has in the end. -/
structure StartUp.UsesSampleRate (ranges : Nat → PortRange) (sampleRate : ℚ) (s : StartUp) :
    Prop where
  updateDivisor : s.updateDivisor ≠ 0
  updateFrames : s.updateFrames.map UInt32.toNat = some ⌊sampleRate / s.settings.uiUpdateHz⌋₊
  min : ∀ control ∈ s.controls, (ranges control.index).sampleRate →
    control.min = (ranges control.index).min.map (.scale sampleRate)
  max : ∀ control ∈ s.controls, (ranges control.index).sampleRate →
    control.max = (ranges control.index).max.map (.scale sampleRate)

/-- The ranges are scaled by 0, whatever the server's sample rate is. -/
theorem startUp_scaled (h : startUp w ranges server = .ok s) :
    ∀ control ∈ s.controls, (ranges control.index).sampleRate →
      control.min = (ranges control.index).min.map (.scale 0) ∧
        control.max = (ranges control.index).max.map (.scale 0) := by
  obtain ⟨plugin, -, hs⟩ := startUp_started h
  intro control hcontrol hrate
  have hcreated := hs.controls control hcontrol
  rw [newPortControl, if_pos hrate] at hcreated
  exact ⟨congrArg PortControl.min hcreated, congrArg PortControl.max hcreated⟩

/-- The update rate is still 0 when the sample rate is divided by it. -/
theorem startUp_updateDivisor (h : startUp w ranges server = .ok s) :
    s.updateDivisor = 0 ∧ s.updateFrames = none := by
  obtain ⟨plugin, -, hs⟩ := startUp_started h
  refine ⟨hs.updateDivisor.trans updateRate_opts, hs.updateFrames.trans ?_⟩
  rw [updateRate_opts, toUpdateFrames, if_neg fun h => h.1 rfl]

/-- No start uses the sample rate for what is derived from it. -/
theorem startUp_not_usesSampleRate (h : startUp w ranges server = .ok s) :
    ¬s.UsesSampleRate ranges server.sampleRate.toNat :=
  fun huses => huses.updateDivisor (startUp_updateDivisor h).1

end

/-! ## The rings -/

section
variable {w : Launch} {ranges : Nat → PortRange} {server : JackServer} {plugin : LilvPlugin}
  {s : StartUp}

/-- A ring is created with the smallest size, and with 16 cycles of each port. -/
def RingFits (ports : List JalvProcessPort) (ring : Option UInt32) : Prop :=
  ∃ size, ring = some size ∧ 4096 ≤ size.toNat ∧
    ∀ port ∈ ports, 16 * port.bufSize.toNat ≤ size.toNat

/-- Both rings fit the ports. -/
structure StartUp.RingsFit (s : StartUp) : Prop where
  uiToPlugin : RingFits s.ports s.uiToPlugin
  pluginToUi : RingFits s.ports s.pluginToUi

/-- The size of the rings: that of the option, or that of the MIDI buffers, or the smallest. -/
theorem ringSize_initUiSettings (opts : JalvOptions) (settings : StartSettings) :
    (initUiSettings opts settings).ringSize.toNat =
      max 4096 (if settings.ringSize = 0 then 16 * settings.midiBufSize % 2 ^ 32
        else settings.ringSize.toNat) := by
  have hclamp (ringSize : UInt32) :
      (if 4096 > ringSize then 4096 else ringSize).toNat = max 4096 ringSize.toNat := by
    have h4096 : (4096 : UInt32).toNat = 4096 := rfl
    simp only [gt_iff_lt, UInt32.lt_iff_toNat_lt]
    split <;> omega
  have hring : (initUiSettings opts settings).ringSize =
      let ringSize := if settings.ringSize = 0 then UInt32.ofNat (settings.midiBufSize * 16)
        else settings.ringSize
      if 4096 > ringSize then 4096 else ringSize := by
    unfold initUiSettings
    dsimp only
    split_ifs <;> rfl
  rw [hring, hclamp]
  split
  · rw [UInt32.toNat_ofNat', Nat.mul_comm]
  · rfl

/-- `opts.ring_size` has room for the largest port, but nothing reads it any more. -/
theorem startUp_accumulated (h : startUp w ranges server = .ok s)
    (hfits : ∀ port ∈ s.ports, 16 * port.bufSize.toNat < 2 ^ 32) :
    ∀ port ∈ s.ports, 16 * port.bufSize.toNat ≤ s.opts.ringSize.toNat := by
  obtain ⟨plugin, -, hs⟩ := startUp_started h
  intro port hport
  have hle := UInt32.le_iff_toNat_le.1 (hs.accumulated port hport)
  rw [UInt32.toNat_mul, Nat.mod_eq_of_lt (by rw [Nat.mul_comm]; exact hfits port hport)] at hle
  rwa [Nat.mul_comm]

/-- Both rings have the size of the settings. -/
theorem ringsFit_iff_le (h : startUp w ranges server = .ok s) (hplugin : w.Finds plugin) :
    s.RingsFit ↔ ∀ lilvPort ∈ plugin.ports, 16 * lilvPort.bufSize.toNat ≤
      max 4096 (if w.opts.ringSize = 0 then 16 * server.midiBufSize % 2 ^ 32
        else w.opts.ringSize.toNat) := by
  obtain ⟨plugin', hplugin', hs⟩ := startUp_started h
  obtain rfl := hplugin.unique hplugin'
  have hsize : max 4096 (if w.opts.ringSize = 0 then 16 * server.midiBufSize % 2 ^ 32
      else w.opts.ringSize.toNat) = s.settings.ringSize.toNat := by
    rw [hs.settings, ringSize_initUiSettings]
    rfl
  have hports {P : UInt32 → Prop} :
      (∀ port ∈ s.ports, P port.bufSize) ↔ ∀ lilvPort ∈ plugin.ports, P lilvPort.bufSize := by
    rw [← List.forall_mem_map, hs.ports, List.forall_mem_map]
  rw [hsize, ← hports (P := fun bufSize => 16 * bufSize.toNat ≤ s.settings.ringSize.toNat)]
  constructor
  · intro hfit
    obtain ⟨size, hsome, -, hle⟩ := hfit.uiToPlugin
    obtain rfl := Option.some.inj (hs.uiToPlugin.symm.trans hsome)
    exact hle
  · intro hle
    have hring : RingFits s.ports (some s.settings.ringSize) := ⟨_, rfl, by omega, hle⟩
    exact ⟨hs.uiToPlugin ▸ hring, hs.pluginToUi ▸ hring⟩

/-- The rings fit the ports of the plugin exactly if each port is small, or the size that is given
with the option is large enough for it, or, without one, that of the MIDI buffers. -/
theorem startUp_ringsFit_iff (h : startUp w ranges server = .ok s) (hplugin : w.Finds plugin) :
    s.RingsFit ↔ ∀ lilvPort ∈ plugin.ports,
      16 * lilvPort.bufSize.toNat ≤ 4096 ∨
      w.opts.ringSize ≠ 0 ∧ 16 * lilvPort.bufSize.toNat ≤ w.opts.ringSize.toNat ∨
      w.opts.ringSize = 0 ∧ 16 * lilvPort.bufSize.toNat ≤ 16 * server.midiBufSize % 2 ^ 32 := by
  rw [ringsFit_iff_le h hplugin]
  refine forall₂_congr fun lilvPort _ => ?_
  rw [le_max_iff]
  split
  · next hzero => simp only [hzero, ne_eq, not_true, false_and, false_or, true_and]
  · next hzero => simp only [hzero, ne_eq, not_false_iff, true_and, false_and, or_false]

end

/-! ## Starts with an audio server -/

/-- The start with the option `-i` and a plugin, with a JACK server. -/
def withServer (plugin : LilvPlugin) : Launch := { noServer plugin with jack := true }

/-- A server at 48 kHz. -/
def jack48k : JackServer where
  sampleRate := 48000
  bufferSize := 1024
  midiBufSize := 4096

/-- Ports with ranges from 0 to the Nyquist frequency. -/
def upToNyquist (_ : Nat) : PortRange where
  sampleRate := true
  default := none
  min := some (.number 0)
  max := some (.number (1 / 2))

/-- An output for messages of 64 KiB. -/
def messagePort : LilvPort :=
  { controlPort with
    inputPort := false, outputPort := true, controlPort := false, atomPort := true
    minimumSize := some 65536 }

/-- The plugin is found. -/
theorem finds_withServer (plugin : LilvPlugin) : (withServer plugin).Finds plugin :=
  ⟨_, _, _, rfl, rfl, rfl, by simp [withServer, noServer]⟩

/-- A host that opens it starts. -/
theorem exists_startUp_withServer (port : LilvPort) {jalv : Jalv}
    (h : jalvOpen (withServer (bare [port])) = .ok jalv) :
    ∃ s, startUp (withServer (bare [port])) upToNyquist jack48k = .ok s :=
  (exists_startUp_ok h).imp fun _ hs => hs.1

/-- A frequency control is not scaled by 48000. -/
theorem startUp_frequency : ∃ s, startUp (withServer (bare [controlPort])) upToNyquist jack48k =
    .ok s ∧ ¬s.UsesSampleRate upToNyquist jack48k.sampleRate.toNat := by
  obtain ⟨s, hs⟩ := exists_startUp_withServer controlPort rfl
  exact ⟨s, hs, startUp_not_usesSampleRate hs⟩

/-- The divisor is 0 with a server of 48 kHz, too. -/
theorem startUp_divides_by_zero :
    ¬∀ (w : Launch) (ranges : Nat → PortRange) (server : JackServer) (s : StartUp),
      0 < server.sampleRate.toNat → startUp w ranges server = .ok s →
        s.UsesSampleRate ranges server.sampleRate.toNat := by
  intro h
  obtain ⟨s, hs⟩ := exists_startUp_withServer controlPort rfl
  have huses := h _ _ jack48k s (by decide) hs
  exact huses.updateDivisor (startUp_updateDivisor hs).1

/-- A control needs no larger rings. -/
theorem startUp_small : ∃ s, startUp (withServer (bare [controlPort])) upToNyquist jack48k =
    .ok s ∧ s.RingsFit := by
  obtain ⟨s, hs⟩ := exists_startUp_withServer controlPort rfl
  refine ⟨s, hs, (startUp_ringsFit_iff hs (finds_withServer _)).2 ?_⟩
  intro lilvPort hmem
  rw [List.mem_singleton.1 hmem]
  exact .inl (by decide)

/-- Rings for the MIDI buffers do not fit messages of 64 KiB. -/
theorem startUp_large : ∃ s, startUp (withServer (bare [messagePort])) upToNyquist jack48k =
    .ok s ∧ (∀ lilvPort ∈ (bare [messagePort]).ports, 16 * lilvPort.bufSize.toNat < 2 ^ 32) ∧
      ¬s.RingsFit := by
  obtain ⟨s, hs⟩ := exists_startUp_withServer messagePort rfl
  refine ⟨s, hs, ?_, fun hfit => ?_⟩
  · intro lilvPort hmem
    rw [List.mem_singleton.1 hmem]
    decide
  · have hle := (ringsFit_iff_le hs (finds_withServer _)).1 hfit messagePort
      (List.mem_singleton.2 rfl)
    exact absurd hle (by decide)

end Soundcan.Galv
