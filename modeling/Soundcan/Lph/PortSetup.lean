import Soundcan.Lib.CString
import Soundcan.Lph.Ports

/-!
# Setting up the ports of a plugin

`init_ports` fills the 100 slots of `struct lph_ports` from the ports of the plugin and gives each
slot its methods, `lph_thread_loop` then calls `setup` on every port, and each `on_process` cycle
calls `pre_run` and `post_run` on every port. A method is a function pointer, which is `NULL` until
it is assigned (`none`). An access past the array, a symbol that does not fit the name, and a call
of a method that was not assigned are undefined; `lphThreadLoop` returns the calls that are made
when none of these happens.
-/

namespace Soundcan.Lph

/-! ## Plugins -/

/-- The port classes that `init_ports` asks for. -/
inductive PortClass where
  | atomPort
  | controlPort
  | audioPort
  | inputPort
  | outputPort
  deriving DecidableEq

/-- A port of a plugin: its symbol and `lilv_port_is_a`. -/
structure LilvPort where
  symbol : CString
  isA : PortClass → Bool

/-- A plugin, as far as `init_ports` looks at it. -/
structure LilvPlugin where
  ports : List LilvPort

/-- `int n_ports = lilv_plugin_get_num_ports(plugin)`: a 32-bit count, converted to a signed
integer. -/
def LilvPlugin.numPorts (plugin : LilvPlugin) : Int := toInt32 (plugin.ports.length % 2 ^ 32)

/-- The ports with an index below `n_ports`. -/
def LilvPlugin.visited (plugin : LilvPlugin) : List LilvPort :=
  plugin.ports.take plugin.numPorts.toNat

/-! ## Ports -/

/-- `lph_port_type`. -/
inductive PortType where
  | controlInput
  | controlOutput
  | audioInput
  | audioOutput
  | atomInput
  | atomOutput
  deriving DecidableEq

/-- The functions that a `setup` slot can hold. -/
inductive SetupMethod where
  | setupControlInput
  | setupControlOutput
  | setupAudioInput
  | setupAudioOutput
  | setupAtomInput
  | setupAtomOutput
  deriving DecidableEq

/-- The function that a `clear` slot can hold. -/
inductive ClearMethod where
  | clearNoop
  deriving DecidableEq

/-- The functions that a `pre_run` slot can hold. -/
inductive PreRunMethod where
  | preRunNoop
  | preRunAudioInput
  | preRunAudioOutput
  | preRunAtomInput
  | preRunAtomOutput
  deriving DecidableEq

/-- The functions that a `post_run` slot can hold. -/
inductive PostRunMethod where
  | postRunNoop
  | postRunAtomInput
  | postRunAtomOutput
  deriving DecidableEq

/-- `struct lph_port_methods`. -/
structure LphPortMethods where
  setup : Option SetupMethod
  clear : Option ClearMethod
  preRun : Option PreRunMethod
  postRun : Option PostRunMethod

/-- `struct lph_port`. Its `name` has room for 99 characters and the terminating zero. -/
structure LphPort where
  index : Nat
  type : PortType
  name : { name : CString // name.bytes.length < 100 }
  methods : LphPortMethods

/-- `struct lph_ports`. -/
structure LphPorts where
  nPorts : Int
  ports : Fin 100 → LphPort

/-- A port of the zeroed `struct data`. -/
def LphPort.zeroed : LphPort where
  index := 0
  type := .controlInput
  name := ⟨⟨[], List.not_mem_nil⟩, by decide⟩
  methods := ⟨none, none, none, none⟩

/-- The zeroed `struct data`. -/
def LphPorts.zeroed : LphPorts := ⟨0, fun _ => .zeroed⟩

/-- `&ports->ports[n]`. -/
def LphPorts.get (ports : LphPorts) (n : Nat) : Option LphPort :=
  if h : n < 100 then some (ports.ports ⟨n, h⟩) else none

/-- A write through `&ports->ports[n]`. -/
def LphPorts.set (ports : LphPorts) (n : Nat) (port : LphPort) : LphPorts :=
  { ports with ports := fun i => if i.val = n then port else ports.ports i }

/-- A port that is set is the one that is got. -/
theorem LphPorts.get_set {ports : LphPorts} {n k : Nat} {port : LphPort} (hk : k < 100) :
    (ports.set n port).get k = if k = n then some port else ports.get k := by
  simp only [get, set, hk, dif_pos]
  split <;> rfl

/-- There are 100 places for ports. -/
theorem LphPorts.get_eq_none {ports : LphPorts} {n : Nat} : ports.get n = none ↔ 100 ≤ n := by
  simp [get]

/-! ## `init_ports` -/

section Init
variable (port : LphPort)

/-- `init_control_input`. -/
def initControlInput : LphPort :=
  { port with
    type := .controlInput
    methods := { port.methods with setup := some .setupControlInput } }

/-- `init_control_output`. -/
def initControlOutput : LphPort :=
  { port with
    type := .controlOutput
    methods := { port.methods with setup := some .setupControlOutput } }

/-- `init_audio_input`. -/
def initAudioInput : LphPort :=
  { port with
    type := .audioInput
    methods := { port.methods with
      setup := some .setupAudioInput
      preRun := some .preRunAudioInput } }

/-- `init_audio_output`. -/
def initAudioOutput : LphPort :=
  { port with
    type := .audioOutput
    methods := { port.methods with
      setup := some .setupAudioOutput
      preRun := some .preRunAudioOutput } }

/-- `init_atom_input`. -/
def initAtomInput : LphPort :=
  { port with
    type := .atomInput
    methods := { port.methods with
      setup := some .setupAtomInput
      preRun := some .preRunAtomInput
      postRun := some .postRunAtomInput } }

/-- `init_atom_output`. -/
def initAtomOutput : LphPort :=
  { port with
    type := .atomOutput
    methods := { port.methods with
      setup := some .setupAtomOutput
      preRun := some .preRunAtomOutput
      postRun := some .postRunAtomOutput } }

/-- The chain of tests by which `init_ports` chooses the methods. -/
def initByClass (lilvPort : LilvPort) : LphPort :=
  if lilvPort.isA .atomPort && lilvPort.isA .inputPort then
    initAtomInput port
  else if lilvPort.isA .atomPort && lilvPort.isA .outputPort then
    initAtomOutput port
  else if lilvPort.isA .controlPort && lilvPort.isA .inputPort then
    initControlInput port
  else if lilvPort.isA .controlPort && lilvPort.isA .outputPort then
    initControlOutput port
  else if lilvPort.isA .audioPort && lilvPort.isA .inputPort then
    initAudioInput port
  else if lilvPort.isA .audioPort && lilvPort.isA .outputPort then
    initAudioOutput port
  else
    -- "Unsupported port type"
    port

end Init

/-- The body of the loop of `init_ports`; `strcpy` needs room for the symbol. -/
def initPort (n : Nat) (lilvPort : LilvPort) (port : LphPort) : Option LphPort :=
  if h : lilvPort.symbol.bytes.length < 100 then
    some (initByClass
      { port with
        index := n
        name := ⟨lilvPort.symbol, h⟩
        methods := { port.methods with
          clear := some .clearNoop
          preRun := some .preRunNoop
          postRun := some .postRunNoop } } lilvPort)
  else
    none

/-- The first `n` rounds of the loop of `init_ports`. -/
def initPortsLoop (plugin : LilvPlugin) (ports : LphPorts) : Nat → Option LphPorts
  | 0 => some ports
  | n + 1 => do
    let ports ← initPortsLoop plugin ports n
    let port ← ports.get n
    let lilvPort ← plugin.ports[n]?
    let port ← initPort n lilvPort port
    pure (ports.set n port)

/-- `init_ports`. -/
def initPorts (plugin : LilvPlugin) (ports : LphPorts) : Option LphPorts :=
  initPortsLoop plugin { ports with nPorts := plugin.numPorts } plugin.numPorts.toNat

/-! ## The calls -/

/-- A call that the host makes through a method slot of the port with the given index, or of
`lilv_instance_run`. -/
inductive Call where
  | setup (n : Nat) (method : SetupMethod)
  | preRun (n : Nat) (method : PreRunMethod)
  | run
  | postRun (n : Nat) (method : PostRunMethod)
  deriving DecidableEq

/-- The first `n` rounds of a loop over the ports that calls one method of each. -/
def callPorts (call : Nat → LphPort → Option Call) (ports : LphPorts) : Nat → Option (List Call)
  | 0 => some []
  | n + 1 => do
    let calls ← callPorts call ports n
    let port ← ports.get n
    let made ← call n port
    pure (calls ++ [made])

/-- `port->methods.setup(…)`. -/
def callSetup (n : Nat) (port : LphPort) : Option Call := port.methods.setup.map (.setup n)

/-- `port->methods.pre_run(…)`. -/
def callPreRun (n : Nat) (port : LphPort) : Option Call := port.methods.preRun.map (.preRun n)

/-- `port->methods.post_run(…)`. -/
def callPostRun (n : Nat) (port : LphPort) : Option Call := port.methods.postRun.map (.postRun n)

/-- `on_process`. -/
def onProcess (ports : LphPorts) : Option (List Call) := do
  let nPorts := ports.nPorts.toNat
  let preRuns ← callPorts callPreRun ports nPorts
  let postRuns ← callPorts callPostRun ports nPorts
  pure (preRuns ++ [.run] ++ postRuns)

/-- The given number of `on_process` cycles. -/
def onProcessCycles (ports : LphPorts) : Nat → Option (List Call)
  | 0 => some []
  | cycles + 1 => do
    let calls ← onProcessCycles ports cycles
    let cycle ← onProcess ports
    pure (calls ++ cycle)

/-- `lph_thread_loop`: `init_ports` on the zeroed ports, the setup loop, and the cycles of the
processing thread. -/
def lphThreadLoop (plugin : LilvPlugin) (cycles : Nat) : Option (List Call) := do
  let ports ← initPorts plugin .zeroed
  let setups ← callPorts callSetup ports ports.nPorts.toNat
  let processed ← onProcessCycles ports cycles
  pure (setups ++ processed)

/-! ## When everything is defined -/

/-- One of the six classes that `init_ports` knows. -/
def LilvPort.Recognised (lilvPort : LilvPort) : Prop :=
  (lilvPort.isA .atomPort ∨ lilvPort.isA .controlPort ∨ lilvPort.isA .audioPort) ∧
    (lilvPort.isA .inputPort ∨ lilvPort.isA .outputPort)

/-- A plugin with at most 100 ports, each with a symbol shorter than 100 characters and of one of
the six classes. -/
structure LilvPlugin.Supported (plugin : LilvPlugin) : Prop where
  count : plugin.numPorts ≤ 100
  symbol : ∀ lilvPort ∈ plugin.visited, lilvPort.symbol.bytes.length < 100
  recognised : ∀ lilvPort ∈ plugin.visited, lilvPort.Recognised

/-- The chain assigns `setup` exactly to a port of the six classes. -/
theorem isSome_setup_initByClass {port : LphPort} (lilvPort : LilvPort)
    (h : port.methods.setup = none) :
    (initByClass port lilvPort).methods.setup.isSome ↔ lilvPort.Recognised := by
  rw [initByClass, LilvPort.Recognised]
  cases lilvPort.isA .inputPort <;> cases lilvPort.isA .outputPort <;>
    cases lilvPort.isA .atomPort <;> cases lilvPort.isA .controlPort <;>
    cases lilvPort.isA .audioPort <;>
    simp [initAtomInput, initAtomOutput, initControlInput, initControlOutput, initAudioInput,
      initAudioOutput, h]

/-- The chain never takes a method away. -/
theorem isSome_preRun_initByClass {port : LphPort} (lilvPort : LilvPort)
    (h : port.methods.preRun.isSome) : (initByClass port lilvPort).methods.preRun.isSome := by
  rw [initByClass]
  split_ifs
  all_goals first | rfl | exact h

/-- A class takes the method behind a run away from no port. -/
theorem isSome_postRun_initByClass {port : LphPort} (lilvPort : LilvPort)
    (h : port.methods.postRun.isSome) : (initByClass port lilvPort).methods.postRun.isSome := by
  rw [initByClass]
  split_ifs
  all_goals first | rfl | exact h

/-- A port is filled in exactly when its symbol fits the name. -/
theorem isSome_initPort {n : Nat} {lilvPort : LilvPort} {port : LphPort} :
    (initPort n lilvPort port).isSome ↔ lilvPort.symbol.bytes.length < 100 := by
  rw [initPort]
  split
  next h => simp [h]
  next h => simp [h]

/-- The defaults cover `pre_run` and `post_run`; `setup` is left to the chain. -/
theorem initPort_methods {n : Nat} {lilvPort : LilvPort} {port port' : LphPort}
    (hsetup : port.methods.setup = none) (h : initPort n lilvPort port = some port') :
    (port'.methods.setup.isSome ↔ lilvPort.Recognised) ∧ port'.methods.preRun.isSome ∧
      port'.methods.postRun.isSome := by
  rw [initPort] at h
  split at h
  next =>
    obtain rfl := Option.some.inj h
    exact ⟨isSome_setup_initByClass lilvPort hsetup, isSome_preRun_initByClass lilvPort rfl,
      isSome_postRun_initByClass lilvPort rfl⟩
  next => cases h

section Loops
variable {plugin : LilvPlugin} {ports ports' : LphPorts} {n : Nat}

/-- What the loop of `init_ports` has filled in after `n` rounds; the slots from `n` on are as they
were. -/
theorem initPortsLoop_get (h : initPortsLoop plugin ports n = some ports') :
    ports'.nPorts = ports.nPorts ∧ (∀ i, n ≤ i → ports'.get i = ports.get i) ∧
    ∀ i < n, ∃ lilvPort old port, plugin.ports[i]? = some lilvPort ∧ ports.get i = some old ∧
      initPort i lilvPort old = some port ∧ ports'.get i = some port := by
  induction n generalizing ports' with
  | zero =>
      obtain rfl := Option.some.inj h
      exact ⟨rfl, fun _ _ => rfl, by simp⟩
  | succ n ih =>
      simp only [initPortsLoop, Option.bind_eq_bind, Option.bind_eq_some_iff] at h
      obtain ⟨ports₁, hloop, old, hold, lilvPort, hlilv, port, hinit, hset⟩ := h
      obtain rfl := Option.some.inj hset
      obtain ⟨hcount, hlater, hfilled⟩ := ih hloop
      have hlt : n < 100 := by
        by_contra hge
        rw [LphPorts.get_eq_none.2 (by omega)] at hold
        cases hold
      refine ⟨hcount, fun i hi => ?_, fun i hi => ?_⟩
      · rw [← hlater i (by omega)]
        rcases Nat.lt_or_ge i 100 with hi' | hi'
        · rw [LphPorts.get_set hi', if_neg (by omega)]
        · rw [LphPorts.get_eq_none.2 hi', LphPorts.get_eq_none.2 hi']
      · rw [LphPorts.get_set (by omega)]
        rcases Nat.lt_succ_iff_lt_or_eq.1 hi with hi' | rfl
        · rw [if_neg (by omega)]
          exact hfilled i hi'
        · rw [if_pos rfl]
          exact ⟨lilvPort, old, port, hlilv, (hlater i le_rfl).symm.trans hold, hinit, rfl⟩

/-- The rounds stay inside the array and the names exactly for at most 100 ports with short
symbols. -/
theorem isSome_initPortsLoop (hn : n ≤ plugin.ports.length) :
    (initPortsLoop plugin ports n).isSome ↔
      n ≤ 100 ∧ ∀ lilvPort ∈ plugin.ports.take n, lilvPort.symbol.bytes.length < 100 := by
  induction n with
  | zero => simp [initPortsLoop]
  | succ n ih =>
      have hlilv : plugin.ports[n]? = some plugin.ports[n] := List.getElem?_eq_getElem (by omega)
      rw [List.take_succ_eq_append_getElem (by omega), List.forall_mem_append,
        List.forall_mem_singleton]
      cases hloop : initPortsLoop plugin ports n with
      | none =>
          rw [hloop] at ih
          simp only [initPortsLoop, hloop, Option.bind_eq_bind, Option.bind_none,
            Option.isSome_none, Bool.false_eq_true, false_iff]
          rintro ⟨hle, htake, -⟩
          have := (ih (by omega)).2 ⟨by omega, htake⟩
          simp at this
      | some ports₁ =>
          rw [hloop] at ih
          obtain ⟨hle, htake⟩ := (ih (by omega)).1 rfl
          simp only [initPortsLoop, hloop, Option.bind_eq_bind, Option.bind_some, hlilv]
          rcases Nat.lt_or_ge n 100 with hlt | hge
          · obtain ⟨old, hold⟩ : ∃ old, ports₁.get n = some old := by
              rw [LphPorts.get, dif_pos hlt]
              exact ⟨_, rfl⟩
            rw [hold, Option.bind_some, Option.isSome_bind]
            simp only [Option.pure_def, Option.isSome_some, Option.any_true, isSome_initPort]
            exact ⟨fun hsymbol => ⟨hlt, htake, hsymbol⟩, fun h => h.2.2⟩
          · rw [LphPorts.get_eq_none.2 hge]
            simp only [Option.bind_none, Option.isSome_none, Bool.false_eq_true, false_iff]
            rintro ⟨hle', -⟩
            omega

/-- A loop of calls is defined exactly when the method of every port is assigned. -/
theorem isSome_callPorts {call : Nat → LphPort → Option Call} :
    (callPorts call ports n).isSome ↔
      ∀ i < n, ∃ port, ports.get i = some port ∧ (call i port).isSome := by
  induction n with
  | zero => simp [callPorts]
  | succ n ih =>
      rw [Nat.forall_lt_succ_right, ← ih]
      simp only [callPorts, Option.bind_eq_bind, Option.isSome_iff_exists, Option.bind_eq_some_iff]
      constructor
      · rintro ⟨-, calls, hcalls, port, hport, made, hmade, -⟩
        exact ⟨⟨calls, hcalls⟩, port, hport, made, hmade⟩
      · rintro ⟨⟨calls, hcalls⟩, port, hport, made, hmade⟩
        exact ⟨_, calls, hcalls, port, hport, made, hmade, rfl⟩

end Loops

/-! ## The host is defined exactly for supported plugins -/

/-- There are no more rounds than ports. -/
theorem LilvPlugin.numPorts_le (plugin : LilvPlugin) :
    plugin.numPorts.toNat ≤ plugin.ports.length := by
  have := Nat.mod_le plugin.ports.length (2 ^ 32)
  rw [numPorts, toInt32]
  split <;> omega

section Host
variable {plugin : LilvPlugin} {ports : LphPorts}

/-- Every port that `init_ports` has visited, with the methods it was given. -/
theorem initPorts_methods (h : initPorts plugin .zeroed = some ports) :
    ports.nPorts = plugin.numPorts ∧ ∀ i < ports.nPorts.toNat, ∃ lilvPort port,
      plugin.visited[i]? = some lilvPort ∧ ports.get i = some port ∧
      (port.methods.setup.isSome ↔ lilvPort.Recognised) ∧ port.methods.preRun.isSome ∧
      port.methods.postRun.isSome := by
  obtain ⟨hcount, -, hfilled⟩ := initPortsLoop_get h
  refine ⟨hcount, fun i hi => ?_⟩
  rw [hcount] at hi
  obtain ⟨lilvPort, old, port, hlilv, hold, hinit, hport⟩ := hfilled i hi
  have hnone : old.methods.setup = none := by
    rw [LphPorts.get] at hold
    split at hold
    next =>
      obtain rfl := Option.some.inj hold
      rfl
    next => cases hold
  refine ⟨lilvPort, port, ?_, hport, initPort_methods hnone hinit⟩
  rw [LilvPlugin.visited, List.getElem?_take_of_lt hi, hlilv]

/-- `init_ports` is defined exactly for at most 100 ports with short symbols. -/
theorem isSome_initPorts :
    (initPorts plugin .zeroed).isSome ↔ plugin.numPorts ≤ 100 ∧
      ∀ lilvPort ∈ plugin.visited, lilvPort.symbol.bytes.length < 100 := by
  rw [initPorts, isSome_initPortsLoop plugin.numPorts_le, LilvPlugin.visited]
  exact and_congr_left' (by omega)

/-- The setup loop is defined exactly when each port is of one of the six classes. -/
theorem isSome_callSetup (h : initPorts plugin .zeroed = some ports) :
    (callPorts callSetup ports ports.nPorts.toNat).isSome ↔
      ∀ lilvPort ∈ plugin.visited, lilvPort.Recognised := by
  obtain ⟨hcount, hports⟩ := initPorts_methods h
  have hlength : plugin.visited.length = ports.nPorts.toNat := by
    have := plugin.numPorts_le
    rw [LilvPlugin.visited, List.length_take, hcount]
    omega
  rw [isSome_callPorts]
  constructor
  · intro hcalls lilvPort hmem
    obtain ⟨i, hi, rfl⟩ := List.getElem_of_mem hmem
    rw [hlength] at hi
    obtain ⟨lilvPort, port, hlilv, hport, hsetup, -⟩ := hports i hi
    obtain ⟨port', hport', hcall⟩ := hcalls i hi
    obtain rfl := Option.some.inj (hport.symm.trans hport')
    obtain ⟨_, hget⟩ := List.getElem?_eq_some_iff.1 hlilv
    rw [hget]
    exact hsetup.1 (by simpa [callSetup] using hcall)
  · intro hall i hi
    obtain ⟨lilvPort, port, hlilv, hport, hsetup, -⟩ := hports i hi
    refine ⟨port, hport, ?_⟩
    simpa [callSetup] using hsetup.2 (hall lilvPort (List.mem_of_getElem? hlilv))

/-- The cycles are always defined: `pre_run` and `post_run` have defaults. -/
theorem isSome_onProcessCycles (h : initPorts plugin .zeroed = some ports) (cycles : Nat) :
    (onProcessCycles ports cycles).isSome := by
  obtain ⟨-, hports⟩ := initPorts_methods h
  have hpre : (callPorts callPreRun ports ports.nPorts.toNat).isSome := by
    refine isSome_callPorts.2 fun i hi => ?_
    obtain ⟨-, port, -, hport, -, hpre, -⟩ := hports i hi
    exact ⟨port, hport, by simpa [callPreRun] using hpre⟩
  have hpost : (callPorts callPostRun ports ports.nPorts.toNat).isSome := by
    refine isSome_callPorts.2 fun i hi => ?_
    obtain ⟨-, port, -, hport, -, -, hpost⟩ := hports i hi
    exact ⟨port, hport, by simpa [callPostRun] using hpost⟩
  obtain ⟨preRuns, hpre⟩ := Option.isSome_iff_exists.1 hpre
  obtain ⟨postRuns, hpost⟩ := Option.isSome_iff_exists.1 hpost
  have hcycle : onProcess ports = some (preRuns ++ [.run] ++ postRuns) := by
    simp [onProcess, hpre, hpost]
  induction cycles with
  | zero => rfl
  | succ cycles ih =>
      obtain ⟨calls, hcalls⟩ := Option.isSome_iff_exists.1 ih
      simp [onProcessCycles, hcalls, hcycle]

/-- Port setup is total exactly for supported plugins, whatever the number of cycles behind it. -/
theorem lphThreadLoop_isSome_iff (plugin : LilvPlugin) (cycles : Nat) :
    (lphThreadLoop plugin cycles).isSome ↔ plugin.Supported := by
  have hinit : (initPorts plugin .zeroed).isSome ↔ _ := isSome_initPorts
  constructor
  · intro h
    obtain ⟨calls, h⟩ := Option.isSome_iff_exists.1 h
    simp only [lphThreadLoop, Option.bind_eq_bind, Option.bind_eq_some_iff] at h
    obtain ⟨ports, hports, setups, hsetups, -⟩ := h
    rw [hports] at hinit
    obtain ⟨hcount, hsymbol⟩ := hinit.1 rfl
    exact ⟨hcount, hsymbol, (isSome_callSetup hports).1 (by rw [hsetups]; rfl)⟩
  · rintro ⟨hcount, hsymbol, hrecognised⟩
    obtain ⟨ports, hports⟩ := Option.isSome_iff_exists.1 (hinit.2 ⟨hcount, hsymbol⟩)
    obtain ⟨setups, hsetups⟩ :=
      Option.isSome_iff_exists.1 ((isSome_callSetup hports).2 hrecognised)
    obtain ⟨processed, hprocessed⟩ :=
      Option.isSome_iff_exists.1 (isSome_onProcessCycles hports cycles)
    simp [lphThreadLoop, hports, hsetups, hprocessed]

/-- A plugin whose one port is a CV input: nothing is assigned to its `setup`, which the host then
calls. -/
theorem cvPort_setup_undefined :
    let cv : LilvPort := ⟨⟨[99, 118], by decide⟩, fun c => c == .inputPort⟩
    lphThreadLoop ⟨[cv]⟩ 0 = none := by
  decide

end Host

end Soundcan.Lph
