import Soundcan.Galv.Layout

/-!
# Creating the ports

`jalv_create_ports` describes every port of the plugin in a zeroed `JalvProcessPort`, from what Lilv
says about the port, and fails at a mandatory port that is neither input nor output or whose type
is unknown. Nothing sets `is_primary`, so no port is the designated control input
(`jalvCreatePorts_isPrimary`, `jalvCreatePorts_controlIn`).
-/

namespace Soundcan.Galv

/-- The objects of a port's `lv2:designation`. -/
inductive Designation where
  | control
  | latency
  | other
  deriving DecidableEq, Repr

/-- What Lilv says about a port: its classes, its properties, and the values of its attributes;
`minimumSize` is its `rsz:minimumSize`, if that is an integer. -/
structure LilvPort where
  inputPort : Bool
  outputPort : Bool
  controlPort : Bool
  audioPort : Bool
  cvPort : Bool
  atomPort : Bool
  connectionOptional : Bool
  symbol : Option (List Char)
  name : Option (List Char)
  minimumSize : Option Int32
  reportsLatency : Bool
  notOnGui : Bool
  designations : List Designation
  supportsMidi : Bool
  deriving DecidableEq, Repr

/-- The other fields of `JalvProcessPort` that are set before the plugin is instantiated. `sysPort`
says that there is a JACK port. -/
structure JalvProcessPort extends ProcessPort where
  sysPort : Bool
  symbol : Option (List Char)
  label : Option (List Char)
  isPrimary : Bool
  supportsMidi : Bool
  deriving DecidableEq, Repr

/-- An element of the array from `calloc`. -/
def JalvProcessPort.zeroed : JalvProcessPort where
  type := .unknown
  flow := .unknown
  minimumSize := none
  reportsLatency := false
  sysPort := false
  symbol := none
  label := none
  isPrimary := false
  supportsMidi := false

namespace LilvPort

/-- The direction of the port; a mandatory port must have one. -/
def flow (lilvPort : LilvPort) : Option PortFlow :=
  if lilvPort.inputPort then some .input
  else if lilvPort.outputPort then some .output
  else if lilvPort.connectionOptional then some .unknown
  else none

/-- The type of the port; a mandatory port must have one. -/
def type (lilvPort : LilvPort) : Option PortType :=
  if lilvPort.controlPort then some .control
  else if lilvPort.audioPort then some .audio
  else if lilvPort.cvPort then some .cv
  else if lilvPort.atomPort then some .event
  else if lilvPort.connectionOptional then some .unknown
  else none

end LilvPort

/-- `jalv_process_port_init`; undefined where it fails. -/
def jalvProcessPortInit (lilvPort : LilvPort) (port : JalvProcessPort) :
    Option JalvProcessPort := do
  let flow ← lilvPort.flow
  let type ← lilvPort.type
  some { port with
    type
    flow
    sysPort := false
    symbol := lilvPort.symbol
    label := lilvPort.name
    minimumSize := lilvPort.minimumSize
    reportsLatency := flow = .output ∧ type = .control ∧
      (lilvPort.reportsLatency ∨ .latency ∈ lilvPort.designations)
    supportsMidi := lilvPort.supportsMidi }

/-- What `create_port` does to the port in the process thread and to `control_in`. -/
def createPort (index : Nat) (lilvPort : LilvPort) (controlIn : Option Nat) :
    Option (JalvProcessPort × Option Nat) := do
  let port ← jalvProcessPortInit lilvPort .zeroed
  if controlIn = none ∧ port.isPrimary ∧ port.flow = .input ∧ port.type = .event then
    some (port, some index)
  else
    some (port, controlIn)

/-- The loop of `jalv_create_ports` over the ports from `index` on. -/
def createPorts (index : Nat) (controlIn : Option Nat) :
    List LilvPort → Option (List JalvProcessPort × Option Nat)
  | [] => some ([], controlIn)
  | lilvPort :: plugin => do
    let (port, controlIn) ← createPort index lilvPort controlIn
    let (ports, controlIn) ← createPorts (index + 1) controlIn plugin
    some (port :: ports, controlIn)

/-- `jalv_create_ports`: the ports of the process thread and `control_in`. -/
def jalvCreatePorts (plugin : List LilvPort) : Option (List JalvProcessPort × Option Nat) :=
  createPorts 0 none plugin

/-- The fate of the port at `jalv_backend_activate_port`; `registered` says that
`jack_port_register` gives a port. -/
def jalvBackendActivatePort (registered : Bool) (port : JalvProcessPort) : JalvProcessPort :=
  if port.flow = .unknown then port
  else
    match port.type with
    | .audio | .cv => { port with sysPort := registered }
    | .event => if port.supportsMidi then { port with sysPort := registered } else port
    | .control | .unknown => port

/-! ## What is not set -/

/-- The initialisation leaves `is_primary` as it was. -/
theorem jalvProcessPortInit_isPrimary {lilvPort : LilvPort} {port port' : JalvProcessPort}
    (h : jalvProcessPortInit lilvPort port = some port') : port'.isPrimary = port.isPrimary := by
  unfold jalvProcessPortInit at h
  obtain ⟨flow, -, h⟩ := Option.bind_eq_some_iff.1 h
  obtain ⟨type, -, h⟩ := Option.bind_eq_some_iff.1 h
  rw [← Option.some.inj h]

/-- A created port is not primary, and not the control input. -/
theorem createPort_eq {index : Nat} {lilvPort : LilvPort} {controlIn controlIn' : Option Nat}
    {port : JalvProcessPort} (h : createPort index lilvPort controlIn = some (port, controlIn')) :
    port.isPrimary = false ∧ controlIn' = controlIn := by
  unfold createPort at h
  obtain ⟨port', hport, h⟩ := Option.bind_eq_some_iff.1 h
  have hprimary : port'.isPrimary = false := jalvProcessPortInit_isPrimary hport
  rw [if_neg (by simp [hprimary])] at h
  obtain ⟨rfl, rfl⟩ := Prod.mk.inj (Option.some.inj h)
  exact ⟨hprimary, rfl⟩

/-- No port is ever made the primary one, and the control input stays as it was. -/
theorem createPorts_eq {index : Nat} {controlIn controlIn' : Option Nat} {plugin : List LilvPort}
    {ports : List JalvProcessPort}
    (h : createPorts index controlIn plugin = some (ports, controlIn')) :
    (∀ port ∈ ports, port.isPrimary = false) ∧ controlIn' = controlIn := by
  induction plugin generalizing index controlIn ports with
  | nil =>
      obtain ⟨rfl, rfl⟩ := Prod.mk.inj (Option.some.inj h)
      exact ⟨fun port hport => absurd hport List.not_mem_nil, rfl⟩
  | cons lilvPort plugin ih =>
      unfold createPorts at h
      obtain ⟨⟨port, controlIn₁⟩, hfirst, h⟩ := Option.bind_eq_some_iff.1 h
      obtain ⟨⟨rest, controlIn₂⟩, hrest, h⟩ := Option.bind_eq_some_iff.1 h
      obtain ⟨rfl, rfl⟩ := Prod.mk.inj (Option.some.inj h)
      obtain ⟨hport, rfl⟩ := createPort_eq hfirst
      obtain ⟨hports, rfl⟩ := ih hrest
      exact ⟨List.forall_mem_cons.2 ⟨hport, hports⟩, rfl⟩

/-- There is an element of the array for each port of the plugin, and no other. -/
theorem length_createPorts {index : Nat} {controlIn controlIn' : Option Nat}
    {plugin : List LilvPort} {ports : List JalvProcessPort}
    (h : createPorts index controlIn plugin = some (ports, controlIn')) :
    ports.length = plugin.length := by
  induction plugin generalizing index controlIn ports with
  | nil =>
      obtain ⟨rfl, rfl⟩ := Prod.mk.inj (Option.some.inj h)
      rfl
  | cons lilvPort plugin ih =>
      unfold createPorts at h
      obtain ⟨⟨port, controlIn₁⟩, -, h⟩ := Option.bind_eq_some_iff.1 h
      obtain ⟨⟨rest, controlIn₂⟩, hrest, h⟩ := Option.bind_eq_some_iff.1 h
      obtain ⟨rfl, rfl⟩ := Prod.mk.inj (Option.some.inj h)
      rw [List.length_cons, List.length_cons, ih hrest]

/-- The loop gives every port of the plugin its element of the array. -/
theorem createPorts_getElem {index : Nat} {controlIn controlIn' : Option Nat}
    {plugin : List LilvPort} {ports : List JalvProcessPort}
    (h : createPorts index controlIn plugin = some (ports, controlIn')) {p : Nat}
    {lilvPort : LilvPort} (hp : plugin[p]? = some lilvPort) :
    ∃ port, ports[p]? = some port ∧ jalvProcessPortInit lilvPort .zeroed = some port := by
  induction plugin generalizing index controlIn ports p with
  | nil => simp at hp
  | cons first plugin ih =>
      unfold createPorts at h
      obtain ⟨⟨port, controlIn₁⟩, hfirst, h⟩ := Option.bind_eq_some_iff.1 h
      obtain ⟨⟨rest, controlIn₂⟩, hrest, h⟩ := Option.bind_eq_some_iff.1 h
      obtain ⟨rfl, rfl⟩ := Prod.mk.inj (Option.some.inj h)
      cases p with
      | zero =>
          obtain rfl : first = lilvPort := by simpa using hp
          unfold createPort at hfirst
          obtain ⟨port', hport, hfirst⟩ := Option.bind_eq_some_iff.1 hfirst
          refine ⟨port, rfl, ?_⟩
          split at hfirst <;> simp_all
      | succ p => exact ih hrest (by simpa using hp)

variable {plugin : List LilvPort} {ports : List JalvProcessPort} {controlIn : Option Nat}

/-- The created port has the direction and the type of the port. -/
theorem jalvProcessPortInit_eq {lilvPort : LilvPort} {port port' : JalvProcessPort}
    (h : jalvProcessPortInit lilvPort port = some port') :
    lilvPort.flow = some port'.flow ∧ lilvPort.type = some port'.type := by
  unfold jalvProcessPortInit at h
  obtain ⟨flow, hflow, h⟩ := Option.bind_eq_some_iff.1 h
  obtain ⟨type, htype, h⟩ := Option.bind_eq_some_iff.1 h
  rw [hflow, htype, ← Option.some.inj h]
  exact ⟨rfl, rfl⟩

/-- No port of any plugin is primary. -/
theorem jalvCreatePorts_isPrimary (h : jalvCreatePorts plugin = some (ports, controlIn)) :
    ∀ port ∈ ports, port.isPrimary = false :=
  (createPorts_eq h).1

/-- `control_in` is not set for any plugin, so that nothing is sent to its control input. -/
theorem jalvCreatePorts_controlIn (h : jalvCreatePorts plugin = some (ports, controlIn)) :
    controlIn = none :=
  (createPorts_eq h).2

/-- The activation of a port leaves `is_primary` as it was. -/
@[simp] theorem isPrimary_jalvBackendActivatePort (registered : Bool) (port : JalvProcessPort) :
    (jalvBackendActivatePort registered port).isPrimary = port.isPrimary := by
  unfold jalvBackendActivatePort
  split
  · rfl
  · split
    · rfl
    · rfl
    · split <;> rfl
    · rfl
    · rfl

/-- The activation of a port leaves its description as it was. -/
@[simp] theorem toProcessPort_jalvBackendActivatePort (registered : Bool)
    (port : JalvProcessPort) :
    (jalvBackendActivatePort registered port).toProcessPort = port.toProcessPort := by
  unfold jalvBackendActivatePort
  split
  · rfl
  · split
    · rfl
    · rfl
    · split <;> rfl
    · rfl
    · rfl

end Soundcan.Galv
