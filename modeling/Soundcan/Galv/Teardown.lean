import Soundcan.Lib.Ownership
import Soundcan.Galv.CreatePorts

/-!
# Opening and closing

`jalv_open` acquires one resource after the other and may fail in between; `jalvmain` then calls
`jalv_close`, which releases whatever the fields of `Jalv` hold. No field is released twice
(`tearsDown_iff_instance`), but `jalv_process_deactivate` disconnects every port of the instance,
whether there is one or not: the ports are counted when they are created, the instance is the last
thing that `jalv_open` acquires. So a failed start is torn down exactly if it fails in front of the
ports or there are none (`tearsDown_iff`).

Allocations that the functions here use without a test are taken to succeed. What they release
themselves, and what nothing releases, is left out.
-/

namespace Soundcan.Galv

open Ownership

/-! ## The state -/

/-- The fields that hold what `jalv_close` releases, for `i` a port or a control. A control is
released with its nodes, the `JalvNodes` all together. -/
inductive Handle where
  | name
  | load
  | optControls
  | world
  | mapper
  | dumper
  | done
  | nodes
  | tempDir
  | preset
  | uis
  | paused
  | worker
  | stateWorker
  | uiToPlugin
  | pluginToUi
  | processMsg
  | pluginInstance
  | ports
  | controlsBuf
  | evbuf (i : Nat)
  | symbol (i : Nat)
  | label (i : Nat)
  | controls
  | control (i : Nat)
  | client
  | uiMsg
  | featureList
  deriving DecidableEq

/-- `Jalv`: its fields as handles, the options that decide how far `jalv_open` goes, the number of
ports of the process thread, the number of controls, and the properties among these. -/
structure Jalv where
  mem : Memory Handle
  load : Option (List Char)
  preset : Option (List Char)
  dump : Bool
  showHidden : Bool
  numPorts : Nat
  numControls : Nat
  properties : List (List Char)

/-- The features that `jalv_open` lists for the plugin, those that `feature_is_supported` accepts
besides, and the others. -/
inductive Feature where
  | uridMap
  | uridUnmap
  | workerSchedule
  | logLog
  | optionsOptions
  | stateLoadDefaultState
  | powerOf2BlockLength
  | fixedBlockLength
  | boundedBlockLength
  | isLive
  | inPlaceBroken
  | other (uri : List Char)
  deriving DecidableEq

/-- A `patch:writable` or `patch:readable` property; `valueType` says that its range is known. -/
structure Property where
  uri : List Char
  writable : Bool
  readable : Bool
  valueType : Bool

/-- What Lilv says about a plugin; `instantiates` says that `lilv_plugin_instantiate` gives an
instance. -/
structure LilvPlugin where
  ports : List LilvPort
  properties : List Property
  workInterface : Bool
  hasUis : Bool
  requiredFeatures : List Feature
  instantiates : Bool

/-- What `jalvmain` meets: the arguments behind the command, what the front end has set as the
preset, the state files (the plugin of each), the plugins, the presets, whether there is a JACK
server, whether `jalv_backend_allocate` succeeds, and which requests for memory are granted. -/
structure Launch where
  args : List (List Char)
  preset : Option (List Char)
  stateFile : List Char → Option (List Char)
  plugins : List Char → Option LilvPlugin
  presets : List Char → Bool
  jack : Bool
  backend : Bool
  malloc : Nat → Bool

/-- How `jalv_open` ends without an instance: with a code, or in the use of a `NULL` backend. -/
inductive Exit where
  | returned (code : Int) (jalv : Jalv)
  | crashed

/-! ## The command line -/

/-- `JALV_EARLY_EXIT_STATUS`. -/
def jalvEarlyExitStatus : Int := -431

/-- The zeroed `Jalv` of `jalvmain`. -/
def Jalv.zeroed (preset : Option (List Char)) : Jalv where
  mem := .zeroed
  load := none
  preset
  dump := false
  showHidden := false
  numPorts := 0
  numControls := 0
  properties := []

/-- What an argument does: it ends the options, or the program, or it is an option without or with
a value. -/
inductive OptionStep where
  | stop
  | exit (e : Exit)
  | flag (jalv : Jalv)
  | valued (jalv : Jalv)

/-- The body of the loop of `jalv_frontend_init`; `value` is the argument behind `arg`. -/
def frontendOption (malloc : Nat → Bool) (arg : List Char) (value : Option (List Char))
    (jalv : Jalv) : OptionStep :=
  let letter := arg[1]?
  if arg.head? ≠ some '-' then .stop
  else if letter = some 'h' ∨ arg = ['-', '-', 'h', 'e', 'l', 'p'] then
    .exit (.returned jalvEarlyExitStatus jalv)
  else if letter = some 'V' ∨ arg = ['-', '-', 'v', 'e', 'r', 's', 'i', 'o', 'n'] then
    .exit (.returned jalvEarlyExitStatus jalv)
  else if letter = some 's' ∨ letter = some 'p' ∨ letter = some 'i' ∨ letter = some 't' ∨
      letter = some 'x' then
    .flag jalv
  else if letter = some 'd' then .flag { jalv with dump := true }
  else
    match value with
    | none => .exit (.returned 1 jalv)
    | some value =>
      if letter = some 'U' ∨ letter = some 'b' then .valued jalv
      else if letter = some 'l' then
        .valued { jalv with load := some value, mem := jalv.mem.alloc .load }
      else if letter = some 'c' then
        if malloc jalv.mem.next then
          .valued { jalv with mem := (jalv.mem.free .optControls).alloc .optControls }
        else .exit (.returned 12 { jalv with mem := jalv.mem.refuse })
      else if letter = some 'n' then
        .valued { jalv with mem := (jalv.mem.free .name).alloc .name }
      else .exit (.returned 1 jalv)

/-- The loop of `jalv_frontend_init` over the arguments behind the command. It gives the arguments
behind the options. -/
def jalvFrontendInit (malloc : Nat → Bool) :
    List (List Char) → Jalv → Except Exit (List (List Char) × Jalv)
  | [], jalv => .ok ([], jalv)
  | arg :: args, jalv =>
    match frontendOption malloc arg args.head? jalv with
    | .stop => .ok (arg :: args, jalv)
    | .exit e => .error e
    | .flag jalv => jalvFrontendInit malloc args jalv
    | .valued jalv =>
      match args with
      | [] => .ok ([], jalv)
      | _ :: args => jalvFrontendInit malloc args jalv

/-! ## Opening -/

/-- The plugin that the loaded state or the arguments behind the options name.
`jalv_frontend_select_plugin` names none. -/
def Launch.pluginUri (w : Launch) (args : List (List Char)) (load : Option (List Char)) :
    Option (List Char) :=
  match load, args with
  | some path, _ => w.stateFile path
  | none, [uri] => some uri
  | none, _ => none

/-- The code of `jalv_open` where there is no such plugin. -/
def noPluginCode (args : List (List Char)) (load : Option (List Char)) : Int :=
  match load, args with
  | some _, _ => -2
  | none, [] => -3
  | none, _ => -1

/-- `jalv_open` up to the temporary directory. -/
def Jalv.loadWorld (w : Launch) (jalv : Jalv) : Jalv :=
  let mem := (jalv.mem.alloc .world).alloc .mapper
  let mem := if jalv.dump then mem.tryAlloc w.malloc .dumper else mem
  { jalv with mem := ((mem.alloc .done).alloc .nodes).tryAlloc w.malloc .tempDir }

/-- The name of the client and the worker; `safe_restore` is not set yet. -/
def Jalv.createWorker (w : Launch) (plugin : LilvPlugin) (jalv : Jalv) : Jalv :=
  let mem := if jalv.mem.ptr .name = none then jalv.mem.alloc .name else jalv.mem
  { jalv with mem := if plugin.workInterface then mem.tryAlloc w.malloc .worker else mem }

/-- The preset of the options, if any. -/
def Jalv.loadPreset (w : Launch) (jalv : Jalv) : Except Exit Jalv :=
  match jalv.preset with
  | none => .ok jalv
  | some preset =>
    if w.presets preset then .ok { jalv with mem := jalv.mem.alloc .preset }
    else .error (.returned (-5) { jalv with mem := jalv.mem.clear .preset })

/-- `jalv_open` up to the preset: the plugin. -/
def jalvFindPlugin (w : Launch) : Except Exit (LilvPlugin × Jalv) := do
  let (args, jalv) ← jalvFrontendInit w.malloc w.args (.zeroed w.preset)
  let jalv := jalv.loadWorld w
  match w.pluginUri args jalv.load with
  | none => .error (.returned (noPluginCode args jalv.load) jalv)
  | some uri =>
    match w.plugins uri with
    | none => .error (.returned (-4) jalv)
    | some plugin =>
      let jalv ← (jalv.createWorker w plugin).loadPreset w
      .ok (plugin, jalv)

/-- `add_control` of a new control, which is lost when the array cannot grow. -/
def Jalv.addControl (malloc : Nat → Bool) (jalv : Jalv) : Bool × Jalv :=
  if malloc jalv.mem.next then
    let mem := (jalv.mem.free .controls).alloc .controls
    (true, { jalv with
      mem := mem.alloc (.control jalv.numControls), numControls := jalv.numControls + 1 })
  else (false, { jalv with mem := jalv.mem.refuse })

/-- `jalv_process_init`. It drops the worker. -/
def Jalv.processInit (jalv : Jalv) : Jalv where
  mem := (((((((jalv.mem.clear .pluginInstance).clear .uiToPlugin).clear .pluginToUi).clear
    .worker).clear .stateWorker).clear .processMsg).alloc .paused)
  load := jalv.load
  preset := jalv.preset
  dump := jalv.dump
  showHidden := jalv.showHidden
  numPorts := 0
  numControls := jalv.numControls
  properties := jalv.properties

/-- `create_port` for the port `i`. -/
def Jalv.createPort (w : Launch) (i : Nat) (lilvPort : LilvPort) (jalv : Jalv) :
    Except Exit Jalv :=
  match jalvProcessPortInit lilvPort .zeroed with
  | none => .error (.returned (-10) { jalv with mem := jalv.mem.clear (.evbuf i) })
  | some port =>
    let mem := jalv.mem.clear (.evbuf i)
    let mem := if port.symbol.isSome then mem.alloc (.symbol i) else mem.clear (.symbol i)
    let mem := if port.label.isSome then mem.alloc (.label i) else mem.clear (.label i)
    let hidden := !jalv.showHidden && lilvPort.notOnGui
    if lilvPort.controlPort && !hidden then .ok ({ jalv with mem }.addControl w.malloc).2
    else .ok { jalv with mem }

/-- The loop of `jalv_create_ports` over the ports from `i` on. -/
def Jalv.createPorts (w : Launch) (i : Nat) : List LilvPort → Jalv → Except Exit Jalv
  | [], jalv => .ok jalv
  | lilvPort :: ports, jalv => do
    let jalv ← jalv.createPort w i lilvPort
    Jalv.createPorts w (i + 1) ports jalv

/-- `jalv_create_ports`, which counts the ports at its beginning. -/
def Jalv.jalvCreatePorts (w : Launch) (plugin : LilvPlugin) (jalv : Jalv) : Except Exit Jalv :=
  let mem := (jalv.mem.alloc .ports).tryAlloc w.malloc .controlsBuf
  { jalv with mem, numPorts := plugin.ports.length }.createPorts w 0 plugin.ports

/-- `jalv_create_controls`. A readable property that has a control keeps it. -/
def Jalv.createControls (w : Launch) (writable : Bool) : List Property → Jalv → Jalv
  | [], jalv => jalv
  | property :: properties, jalv =>
    let listed := if writable then property.writable else property.readable
    let found := !writable && property.writable && jalv.properties.contains property.uri
    if listed && !found && property.valueType then
      let (added, jalv) := jalv.addControl w.malloc
      let jalv :=
        if added then { jalv with properties := property.uri :: jalv.properties } else jalv
      Jalv.createControls w writable properties jalv
    else Jalv.createControls w writable properties jalv

/-- `jalv_backend_open`. -/
def Jalv.backendOpen (w : Launch) (jalv : Jalv) : Except Exit Jalv :=
  if w.backend then
    if w.jack then .ok { jalv with mem := jalv.mem.alloc .client } else .error (.returned (-6) jalv)
  else .error .crashed

/-- The list of features for the plugin, in the state behind it. -/
def Jalv.listFeatures (w : Launch) (jalv : Jalv) : Except Exit Jalv :=
  let mem := jalv.mem.tryAlloc w.malloc .uiMsg
  if w.malloc mem.next then .ok { jalv with mem := mem.alloc .featureList }
  else .error (.returned (-7) { jalv with mem := mem.refuse.clear .featureList })

/-- `feature_is_supported`. -/
def featureIsSupported : Feature → Bool
  | .other _ => false
  | _ => true

/-- The plugin: its features and its instance. -/
def Jalv.instantiate (plugin : LilvPlugin) (jalv : Jalv) : Except Exit Jalv :=
  if plugin.requiredFeatures.all featureIsSupported then
    if plugin.instantiates then .ok { jalv with mem := jalv.mem.alloc .pluginInstance }
    else .error (.returned (-9) jalv)
  else .error (.returned (-8) jalv)

/-- `jalv_open` from the UIs of the plugin on, to its instance. -/
def Jalv.openPlugin (w : Launch) (plugin : LilvPlugin) (jalv : Jalv) : Except Exit Jalv := do
  let mem := if plugin.hasUis then jalv.mem.alloc .uis else jalv.mem.clear .uis
  let jalv ← ({ jalv with mem }.processInit).jalvCreatePorts w plugin
  let jalv := jalv.createControls w true plugin.properties
  let jalv := jalv.createControls w false plugin.properties
  let jalv ← jalv.backendOpen w
  let jalv ← jalv.listFeatures w
  jalv.instantiate plugin

/-- `jalv_open`, to the instance of the plugin. From there on it returns 0. -/
def jalvOpen (w : Launch) : Except Exit Jalv := do
  let (plugin, jalv) ← jalvFindPlugin w
  jalv.openPlugin w plugin

/-! ## Closing -/

/-- The loop of `jalv_process_deactivate` over the given ports. `lilv_instance_connect_port` uses
the instance. -/
def disconnectPorts : List Nat → Memory Handle → Option (Memory Handle)
  | [], mem => some mem
  | i :: ports, mem =>
    let mem := mem.free (.evbuf i)
    if mem.ptr .pluginInstance = none then none
    else disconnectPorts ports (mem.clear (.evbuf i))

/-- `jalv_process_deactivate`. -/
def jalvProcessDeactivate (numPorts : Nat) (mem : Memory Handle) : Option (Memory Handle) :=
  disconnectPorts (List.range numPorts) ((mem.free .processMsg).clear .processMsg)

/-- What `jalv_process_cleanup` releases, with `jalv_process_port_cleanup` for each port. -/
def processCleanup (numPorts : Nat) : List Handle :=
  List.append [.paused, .worker, .stateWorker, .uiToPlugin, .pluginToUi, .processMsg]
    ((List.range numPorts).flatMap fun i => [.evbuf i, .label i, .symbol i])

/-- What `jalv_close` releases behind `jalv_process_deactivate`, in its order. -/
def closeOrder (numPorts numControls : Nat) : List Handle :=
  List.flatten [
    [.client, .pluginInstance, .preset, .ports],
    processCleanup numPorts,
    [.uiMsg, .controlsBuf, .nodes],
    (List.range numControls).map .control,
    [.controls, .dumper, .uis, .mapper, .world, .done, .tempDir, .featureList, .name, .load,
      .optControls]]

/-- `jalv_close`. Its `jalv_deactivate` tests the backend, the instance and the worker, and releases
nothing. -/
def jalvClose (jalv : Jalv) : Option (Memory Handle) := do
  let mem ← jalvProcessDeactivate jalv.numPorts jalv.mem
  some (mem.freeAll (closeOrder jalv.numPorts jalv.numControls))

/-- The teardown uses no instance that is not there, and releases nothing twice. -/
def TearsDown (jalv : Jalv) : Prop := ∃ mem, jalvClose jalv = some mem ∧ mem.freed.Nodup

/-- The options, the state, the plugin and the preset are all there, so that `jalv_open` goes on
with the ports of the plugin. -/
def Launch.Finds (w : Launch) (plugin : LilvPlugin) : Prop :=
  ∃ args jalv uri, jalvFrontendInit w.malloc w.args (.zeroed w.preset) = .ok (args, jalv) ∧
    w.pluginUri args jalv.load = some uri ∧ w.plugins uri = some plugin ∧
    ∀ preset, w.preset = some preset → w.presets preset = true

/-! ## The state that an exit leaves -/

/-- A sound memory without an instance. -/
structure NoInstance (mem : Memory Handle) : Prop where
  sound : mem.Sound
  ptr_pluginInstance : mem.ptr .pluginInstance = none

namespace NoInstance

variable {mem : Memory Handle} {p : Handle} {malloc : Nat → Bool}

/-- A host that has been zeroed has no instance. -/
theorem zeroed : NoInstance .zeroed := ⟨Memory.sound_zeroed, rfl⟩

/-- Allocating another object makes none. -/
theorem alloc (h : NoInstance mem) (hp : .pluginInstance ≠ p) :
    NoInstance (mem.alloc p) :=
  ⟨h.sound.alloc, (mem.ptr_alloc_of_ne p _ hp).trans h.ptr_pluginInstance⟩

/-- An allocation that is refused makes no instance. -/
theorem refuse (h : NoInstance mem) : NoInstance mem.refuse :=
  ⟨h.sound.refuse, h.ptr_pluginInstance⟩

/-- An attempt to allocate another object makes no instance. -/
theorem tryAlloc (h : NoInstance mem) (hp : .pluginInstance ≠ p) :
    NoInstance (mem.tryAlloc malloc p) :=
  ⟨h.sound.tryAlloc, (mem.ptr_tryAlloc_of_ne p _ malloc hp).trans h.ptr_pluginInstance⟩

/-- Replacing another object makes no instance. -/
theorem free_alloc (h : NoInstance mem) (hp : .pluginInstance ≠ p) :
    NoInstance ((mem.free p).alloc p) :=
  ⟨h.sound.free_alloc, ((mem.free p).ptr_alloc_of_ne p _ hp).trans h.ptr_pluginInstance⟩

/-- Forgetting an object makes no instance. -/
theorem clear (h : NoInstance mem) : NoInstance (mem.clear p) := by
  refine ⟨h.sound.clear, ?_⟩
  by_cases hp : .pluginInstance = p
  · rw [← hp, Memory.ptr_clear_self]
  · exact (mem.ptr_clear_of_ne p _ hp).trans h.ptr_pluginInstance

end NoInstance

/-- A state of `jalv_open` without an instance, when it has counted `n` ports. -/
structure Opening (n : Nat) (jalv : Jalv) : Prop where
  mem : NoInstance jalv.mem
  numPorts : jalv.numPorts = n

/-- A return with a code that is not zero, in such a state. -/
def Exit.Fails (n : Nat) : Exit → Prop
  | .returned code jalv => code ≠ 0 ∧ Opening n jalv
  | .crashed => True

/-- What a part of `jalv_open` establishes where it ends, and where it goes on. -/
def Meets {α : Type} (E : Exit → Prop) (Q : α → Prop) : Except Exit α → Prop
  | .ok a => Q a
  | .error e => E e

/-- What a step leaves is what the next one needs; an exit of either is an exit of both. -/
theorem Meets.bind {α β : Type} {E : Exit → Prop} {Q : α → Prop} {R : β → Prop}
    {x : Except Exit α} {f : α → Except Exit β} (hx : Meets E Q x)
    (hf : ∀ a, Q a → Meets E R (f a)) : Meets E R (x >>= f) := by
  cases x with
  | error e => exact hx
  | ok a => exact hf a hx

section
variable {w : Launch} {jalv : Jalv} {n : Nat}

/-- An option leaves the state sound, and the preset as it is. -/
def OptionStep.Keeps (preset : Option (List Char)) : OptionStep → Prop
  | .stop => True
  | .exit e => e.Fails 0
  | .flag jalv | .valued jalv => Opening 0 jalv ∧ jalv.preset = preset

/-- Every option leaves the state sound, and the preset as it is. -/
theorem frontendOption_keeps (malloc : Nat → Bool) (arg : List Char) (value : Option (List Char))
    (h : Opening 0 jalv) : (frontendOption malloc arg value jalv).Keeps jalv.preset := by
  have hcode : jalvEarlyExitStatus ≠ 0 := by decide
  have hone : (1 : Int) ≠ 0 := by decide
  have htwelve : (12 : Int) ≠ 0 := by decide
  unfold frontendOption
  refine iteInduction (fun _ => trivial) fun _ => ?_
  refine iteInduction (fun _ => ⟨hcode, h⟩) fun _ => ?_
  refine iteInduction (fun _ => ⟨hcode, h⟩) fun _ => ?_
  refine iteInduction (fun _ => ⟨h, rfl⟩) fun _ => ?_
  refine iteInduction (fun _ => ⟨⟨h.mem, h.numPorts⟩, rfl⟩) fun _ => ?_
  cases value with
  | none => exact ⟨hone, h⟩
  | some value =>
      refine iteInduction (fun _ => ⟨h, rfl⟩) fun _ => ?_
      refine iteInduction (fun _ => ⟨⟨h.mem.alloc (by simp), h.numPorts⟩, rfl⟩) fun _ => ?_
      refine iteInduction (fun _ => ?_) fun _ => ?_
      · refine iteInduction (fun _ => ⟨⟨h.mem.free_alloc (by simp), h.numPorts⟩, rfl⟩) fun _ => ?_
        exact ⟨htwelve, ⟨h.mem.refuse, h.numPorts⟩⟩
      · refine iteInduction (fun _ => ⟨⟨h.mem.free_alloc (by simp), h.numPorts⟩, rfl⟩) fun _ => ?_
        exact ⟨hone, h⟩

/-- The command line leaves the state sound and the preset as it is, or the program exits. -/
theorem jalvFrontendInit_meets (malloc : Nat → Bool) (args : List (List Char))
    (h : Opening 0 jalv) :
    Meets (Exit.Fails 0) (fun r => Opening 0 r.2 ∧ r.2.preset = jalv.preset)
      (jalvFrontendInit malloc args jalv) := by
  fun_induction jalvFrontendInit malloc args jalv with
  | case1 jalv => exact ⟨h, rfl⟩
  | case2 => exact ⟨h, rfl⟩
  | case3 arg args jalv e heq =>
      have hkeeps := frontendOption_keeps malloc arg args.head? h
      rw [heq] at hkeeps
      exact hkeeps
  | case4 arg args jalv next heq ih =>
      have hkeeps := frontendOption_keeps malloc arg args.head? h
      rw [heq] at hkeeps
      rw [← hkeeps.2]
      exact ih hkeeps.1
  | case5 arg jalv next heq =>
      have hkeeps := frontendOption_keeps malloc arg none h
      rw [List.head?_nil] at heq
      rw [heq] at hkeeps
      exact hkeeps
  | case6 arg jalv next value args heq ih =>
      have hkeeps := frontendOption_keeps malloc arg (some value) h
      rw [List.head?_cons] at heq
      rw [heq] at hkeeps
      rw [← hkeeps.2]
      exact ih hkeeps.1

/-- Loading the world leaves the state sound. -/
theorem loadWorld_opening (h : Opening 0 jalv) : Opening 0 (jalv.loadWorld w) := by
  have hmapper : NoInstance ((jalv.mem.alloc .world).alloc .mapper) :=
    (h.mem.alloc (by simp)).alloc (by simp)
  have hdumper : NoInstance (if jalv.dump then ((jalv.mem.alloc .world).alloc .mapper).tryAlloc
      w.malloc .dumper else (jalv.mem.alloc .world).alloc .mapper) :=
    iteInduction (fun _ => hmapper.tryAlloc (by simp)) fun _ => hmapper
  exact ⟨((hdumper.alloc (by simp)).alloc (by simp)).tryAlloc (by simp), h.numPorts⟩

/-- Creating the worker leaves the state sound. -/
theorem createWorker_opening {plugin : LilvPlugin} (h : Opening 0 jalv) :
    Opening 0 (jalv.createWorker w plugin) := by
  have hname : NoInstance (if jalv.mem.ptr .name = none then jalv.mem.alloc .name else jalv.mem) :=
    iteInduction (fun _ => h.mem.alloc (by simp)) fun _ => h.mem
  exact ⟨iteInduction (fun _ => hname.tryAlloc (by simp)) fun _ => hname, h.numPorts⟩

/-- Loading the preset exits, or leaves the state sound. -/
theorem loadPreset_meets (h : Opening 0 jalv) :
    Meets (Exit.Fails 0) (Opening 0) (jalv.loadPreset w) := by
  unfold Jalv.loadPreset
  cases jalv.preset with
  | none => exact h
  | some preset =>
      refine iteInduction (fun _ => ⟨h.mem.alloc (by simp), h.numPorts⟩) fun _ => ?_
      exact ⟨by decide, h.mem.clear, h.numPorts⟩

/-- Without a plugin, the exit code is never that of success. -/
theorem noPluginCode_ne (args : List (List Char)) (load : Option (List Char)) :
    noPluginCode args load ≠ 0 := by
  unfold noPluginCode
  split <;> decide

/-- In front of the ports nothing is counted. -/
theorem jalvFindPlugin_meets (w : Launch) :
    Meets (Exit.Fails 0) (fun r => Opening 0 r.2) (jalvFindPlugin w) := by
  refine (jalvFrontendInit_meets w.malloc w.args ⟨.zeroed, rfl⟩).bind fun ⟨args, jalv⟩ h => ?_
  have hworld : Opening 0 (jalv.loadWorld w) := loadWorld_opening h.1
  dsimp only
  split
  · exact ⟨noPluginCode_ne _ _, hworld⟩
  split
  · exact ⟨by decide, hworld⟩
  · exact (loadPreset_meets (createWorker_opening hworld)).bind fun jalv h => h

/-- Adding a control leaves the state sound, also where it is refused. -/
theorem addControl_opening (malloc : Nat → Bool) (h : Opening n jalv) :
    Opening n (jalv.addControl malloc).2 := by
  unfold Jalv.addControl
  split
  · exact ⟨(h.mem.free_alloc (by simp)).alloc (by simp), h.numPorts⟩
  · exact ⟨h.mem.refuse, h.numPorts⟩

/-- Creating a port leaves the state sound, or exits. -/
theorem createPort_meets {i : Nat} {lilvPort : LilvPort} (h : Opening n jalv) :
    Meets (Exit.Fails n) (Opening n) (jalv.createPort w i lilvPort) := by
  unfold Jalv.createPort
  cases jalvProcessPortInit lilvPort .zeroed with
  | none => exact ⟨by decide, h.mem.clear, h.numPorts⟩
  | some port =>
      have hsymbol : NoInstance (if port.symbol.isSome then (jalv.mem.clear (.evbuf i)).alloc
          (.symbol i) else (jalv.mem.clear (.evbuf i)).clear (.symbol i)) :=
        iteInduction (fun _ => h.mem.clear.alloc (by simp)) fun _ => h.mem.clear.clear
      have hlabel := iteInduction (motive := NoInstance) (c := port.label.isSome = true)
        (fun _ => hsymbol.alloc (p := .label i) (by simp)) fun _ => hsymbol.clear (p := .label i)
      refine iteInduction (fun _ => ?_) fun _ => ⟨hlabel, h.numPorts⟩
      exact addControl_opening _ ⟨hlabel, h.numPorts⟩

/-- Creating the ports leaves the state sound or exits, by induction on them. -/
theorem createPorts_meets {ports : List LilvPort} {i : Nat} (h : Opening n jalv) :
    Meets (Exit.Fails n) (Opening n) (jalv.createPorts w i ports) := by
  induction ports generalizing i jalv with
  | nil => exact h
  | cons lilvPort ports ih => exact (createPort_meets h).bind fun jalv h => ih h

/-- A pass over the properties leaves the state sound. -/
theorem createControls_opening (writable : Bool) (properties : List Property)
    (h : Opening n jalv) : Opening n (jalv.createControls w writable properties) := by
  induction properties generalizing jalv with
  | nil => exact h
  | cons property properties ih =>
      unfold Jalv.createControls
      refine iteInduction (fun _ => ih ?_) fun _ => ih h
      have hadd := addControl_opening w.malloc h
      exact iteInduction (fun _ => ⟨hadd.mem, hadd.numPorts⟩) fun _ => hadd

/-- Opening the backend exits, or leaves the state sound. -/
theorem backendOpen_meets (h : Opening n jalv) :
    Meets (Exit.Fails n) (Opening n) (jalv.backendOpen w) := by
  unfold Jalv.backendOpen
  refine iteInduction (fun _ => ?_) fun _ => trivial
  exact iteInduction (fun _ => ⟨h.mem.alloc (by simp), h.numPorts⟩) fun _ => ⟨by decide, h⟩

/-- A required feature that is missing is an exit, and the others change nothing. -/
theorem listFeatures_meets (h : Opening n jalv) :
    Meets (Exit.Fails n) (Opening n) (jalv.listFeatures w) := by
  unfold Jalv.listFeatures
  have hmsg : NoInstance (jalv.mem.tryAlloc w.malloc .uiMsg) := h.mem.tryAlloc (by simp)
  refine iteInduction (fun _ => ⟨hmsg.alloc (by simp), h.numPorts⟩) fun _ => ?_
  exact ⟨by decide, hmsg.refuse.clear, h.numPorts⟩

/-- Instantiating the plugin exits, or succeeds. -/
theorem instantiate_meets {plugin : LilvPlugin} (h : Opening n jalv) :
    Meets (Exit.Fails n) (fun _ => True) (jalv.instantiate plugin) := by
  unfold Jalv.instantiate
  refine iteInduction (fun _ => ?_) fun _ => ⟨by decide, h⟩
  exact iteInduction (fun _ => trivial) fun _ => ⟨by decide, h⟩

/-- `process_init` sets nothing that matters here. -/
theorem processInit_opening (h : NoInstance jalv.mem) : Opening 0 jalv.processInit :=
  ⟨h.clear.clear.clear.clear.clear.clear.alloc (by simp), rfl⟩

/-- From the ports on all of them are counted. -/
theorem openPlugin_meets {plugin : LilvPlugin} (h : Opening 0 jalv) :
    Meets (Exit.Fails plugin.ports.length) (fun _ => True) (jalv.openPlugin w plugin) := by
  have huis : NoInstance (if plugin.hasUis then jalv.mem.alloc .uis else jalv.mem.clear .uis) :=
    iteInduction (fun _ => h.mem.alloc (by simp)) fun _ => h.mem.clear
  have hinit (jalv : Jalv) (h : NoInstance jalv.mem) :
      Meets (Exit.Fails plugin.ports.length) (Opening plugin.ports.length)
        (jalv.processInit.jalvCreatePorts w plugin) :=
    createPorts_meets ⟨((processInit_opening h).mem.alloc (by simp)).tryAlloc (by simp), rfl⟩
  refine (hinit _ huis).bind fun jalv h => ?_
  have hwritable := createControls_opening (w := w) true plugin.properties h
  have hreadable := createControls_opening (w := w) false plugin.properties hwritable
  refine (backendOpen_meets hreadable).bind fun jalv h => ?_
  exact (listFeatures_meets h).bind fun jalv h => instantiate_meets h

end

/-! ## Where the plugin is found -/

/-- A preset is loaded unless it is asked for and cannot be found. -/
theorem loadPreset_ok_iff (w : Launch) (jalv : Jalv) :
    (∃ jalv', jalv.loadPreset w = .ok jalv') ↔
      ∀ preset, jalv.preset = some preset → w.presets preset = true := by
  unfold Jalv.loadPreset
  cases jalv.preset with
  | none => simp
  | some preset => by_cases hpreset : w.presets preset = true <;> simp [hpreset]

/-- The part of `jalv_open` in front of the ports goes on with the plugin that is found. -/
theorem jalvFindPlugin_ok_iff {w : Launch} {plugin : LilvPlugin} :
    (∃ jalv, jalvFindPlugin w = .ok (plugin, jalv)) ↔ w.Finds plugin := by
  have hfront := jalvFrontendInit_meets w.malloc w.args
    (show Opening 0 (.zeroed w.preset) from ⟨.zeroed, rfl⟩)
  unfold jalvFindPlugin Launch.Finds
  cases hinit : jalvFrontendInit w.malloc w.args (.zeroed w.preset) with
  | error e =>
      constructor
      · rintro ⟨jalv, h⟩
        cases h
      · rintro ⟨args, jalv, uri, h, -⟩
        cases h
  | ok r =>
      obtain ⟨args, jalv⟩ := r
      rw [hinit] at hfront
      have hpreset : jalv.preset = w.preset := hfront.2
      have hload := loadPreset_ok_iff w ((jalv.loadWorld w).createWorker w plugin)
      constructor
      · rintro ⟨jalv', h⟩
        dsimp only [bind, Except.bind] at h
        split at h
        · cases h
        · rename_i uri huri
          split at h
          · cases h
          · rename_i plugin' hplugin
            split at h
            · cases h
            · rename_i jalv'' hok
              cases h
              refine ⟨args, jalv, uri, rfl, huri, hplugin, ?_⟩
              rw [← hpreset]
              exact hload.1 ⟨_, hok⟩
      · rintro ⟨_, _, uri, ⟨⟩, huri, hplugin, hpresets⟩
        rw [← hpreset] at hpresets
        obtain ⟨jalv', hok⟩ := hload.2 hpresets
        have huri' : w.pluginUri args (jalv.loadWorld w).load = some uri := huri
        refine ⟨jalv', ?_⟩
        simp only [bind, Except.bind, huri', hplugin, hok]

/-! ## Closing -/

section
variable {mem : Memory Handle}

/-- Without an instance, the first port is disconnected from `NULL`. -/
theorem jalvProcessDeactivate_eq_none {numPorts : Nat} (hports : numPorts ≠ 0)
    (h : mem.ptr .pluginInstance = none) : jalvProcessDeactivate numPorts mem = none := by
  obtain ⟨n, rfl⟩ := Nat.exists_eq_succ_of_ne_zero hports
  rw [jalvProcessDeactivate, List.range_succ_eq_map, disconnectPorts]
  refine if_pos (((mem.free .processMsg).ptr_clear_of_ne .processMsg .pluginInstance ?_).trans h)
  simp

/-- With an instance, the ports are disconnected and the memory stays sound. -/
theorem disconnectPorts_sound {ports : List Nat} (hsound : mem.Sound)
    (h : mem.ptr .pluginInstance ≠ none) :
    ∃ mem', disconnectPorts ports mem = some mem' ∧ mem'.Sound := by
  induction ports generalizing mem with
  | nil => exact ⟨mem, rfl, hsound⟩
  | cons i ports ih =>
      rw [disconnectPorts, if_neg (by exact h)]
      refine ih hsound.free_clear ?_
      rwa [Memory.ptr_clear_of_ne _ _ _ (by simp)]

/-- The handles of the ports are different ones. -/
theorem nodup_processCleanup (numPorts : Nat) : (processCleanup numPorts).Nodup := by
  refine List.nodup_append'.2 ⟨by decide, List.nodup_flatMap.2 ⟨?_, ?_⟩, ?_⟩
  · intro i _
    simp
  · refine List.nodup_range.imp fun {i j} hij => ?_
    simp [List.disjoint_left, hij]
  · simp [List.disjoint_left]

/-- No handle is released twice. -/
theorem nodup_closeOrder (numPorts numControls : Nat) :
    (closeOrder numPorts numControls).Nodup := by
  have hcontrols : ((List.range numControls).map Handle.control).Nodup :=
    List.nodup_range.map fun i j h => Handle.control.inj h
  refine List.nodup_flatten.2 ⟨?_, ?_⟩
  · simp [hcontrols, nodup_processCleanup]
  · simp [List.disjoint_left, processCleanup]
    -- what remains are the handles of the ports, against the lists behind them
    refine ⟨?_, ?_, ?_⟩ <;> rintro a i - (rfl | rfl | rfl) <;> simp

/-- A sound state is torn down exactly if it has no ports or an instance. -/
theorem tearsDown_iff_instance {jalv : Jalv} (h : jalv.mem.Sound) :
    TearsDown jalv ↔ jalv.numPorts = 0 ∨ jalv.mem.ptr .pluginInstance ≠ none := by
  have hmsg : (jalv.mem.free .processMsg).clear .processMsg |>.Sound := h.free_clear
  have hptr : ((jalv.mem.free .processMsg).clear .processMsg).ptr .pluginInstance =
      jalv.mem.ptr .pluginInstance := Memory.ptr_clear_of_ne _ _ _ (by simp)
  have hclose {mem : Memory Handle} (hsound : mem.Sound)
      (hmem : jalvProcessDeactivate jalv.numPorts jalv.mem = some mem) : TearsDown jalv := by
    refine ⟨_, ?_, hsound.freeAll (nodup_closeOrder jalv.numPorts jalv.numControls)⟩
    rw [jalvClose, hmem]
    rfl
  constructor
  · rintro ⟨mem, hmem, -⟩
    by_contra! hnone
    rw [jalvClose, jalvProcessDeactivate_eq_none hnone.1 hnone.2] at hmem
    cases hmem
  · rintro (hports | hinstance)
    · refine hclose hmsg ?_
      rw [hports]
      rfl
    · obtain ⟨mem, hmem, hsound⟩ := disconnectPorts_sound hmsg (by rwa [hptr])
      exact hclose hsound hmem

end

/-- After every return of `jalv_open` with a code that is not 0, `jalv_close` uses no instance that
is not there and releases nothing twice exactly if `jalv_open` has not come to the ports of a plugin
that has any. -/
theorem tearsDown_iff (w : Launch) {code : Int} {jalv : Jalv}
    (h : jalvOpen w = .error (.returned code jalv)) :
    TearsDown jalv ↔ ∀ plugin, w.Finds plugin → plugin.ports = [] := by
  have hfind := jalvFindPlugin_meets w
  unfold jalvOpen at h
  cases hw : jalvFindPlugin w with
  | error e =>
      rw [hw] at h hfind
      cases h
      obtain ⟨-, hopening⟩ := hfind
      constructor
      · intro _ plugin hplugin
        obtain ⟨jalv', hok⟩ := jalvFindPlugin_ok_iff.2 hplugin
        cases hw.symm.trans hok
      · intro _
        exact (tearsDown_iff_instance hopening.mem.sound).2 (.inl hopening.numPorts)
  | ok r =>
      obtain ⟨plugin, found⟩ := r
      rw [hw] at h hfind
      have hopen : Meets (Exit.Fails plugin.ports.length) (fun _ => True)
          (found.openPlugin w plugin) := openPlugin_meets hfind
      have h' : found.openPlugin w plugin = .error (.returned code jalv) := h
      rw [h'] at hopen
      obtain ⟨-, hopening⟩ := hopen
      rw [tearsDown_iff_instance hopening.mem.sound, hopening.numPorts, List.length_eq_zero_iff]
      constructor
      · rintro (hports | hinstance) plugin' hplugin
        · obtain ⟨jalv', hok⟩ := jalvFindPlugin_ok_iff.2 hplugin
          cases hw.symm.trans hok
          exact hports
        · exact absurd hopening.mem.ptr_pluginInstance hinstance
      · intro hports
        exact .inl (hports plugin (jalvFindPlugin_ok_iff.1 ⟨found, hw⟩))

/-! ## A start without an audio server -/

/-- A plugin with the given ports and nothing else. -/
def bare (ports : List LilvPort) : LilvPlugin where
  ports
  properties := []
  workInterface := false
  hasUis := false
  requiredFeatures := []
  instantiates := true

/-- The start with the option `-i` and a plugin, without a JACK server. -/
def noServer (plugin : LilvPlugin) : Launch where
  args := [['-', 'i'], ['u', 'r', 'n', ':', 'a']]
  preset := none
  stateFile _ := none
  plugins _ := some plugin
  presets _ := false
  jack := false
  backend := true
  malloc _ := true

/-- A control input. -/
def controlPort : LilvPort where
  inputPort := true
  outputPort := false
  controlPort := true
  audioPort := false
  cvPort := false
  atomPort := false
  connectionOptional := false
  symbol := some ['g', 'a', 'i', 'n']
  name := some ['G', 'a', 'i', 'n']
  minimumSize := none
  reportsLatency := false
  notOnGui := false
  designations := []
  supportsMidi := false

/-- A plugin without ports. -/
theorem tearsDown_noServer :
    ∃ jalv, jalvOpen (noServer (bare [])) = .error (.returned (-6) jalv) ∧ TearsDown jalv := by
  refine ⟨_, rfl, (tearsDown_iff (noServer (bare [])) rfl).2 ?_⟩
  rintro plugin ⟨args, jalv, uri, -, -, ⟨⟩, -⟩
  rfl

/-- A plugin with one port: the teardown uses an instance that is not there. -/
theorem noServer_not_tornDown :
    ¬∀ (w : Launch) (code : Int) (jalv : Jalv),
      jalvOpen w = .error (.returned code jalv) → TearsDown jalv := by
  intro h
  obtain ⟨mem, hmem, -⟩ := h (noServer (bare [controlPort])) (-6) _ rfl
  cases hmem

end Soundcan.Galv
