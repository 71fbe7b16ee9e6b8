import Soundcan.Galv.Console
import Soundcan.Galv.CreateControls
import Soundcan.Galv.Restore

/-!
# The values that the controls start with

`jalv_open` fills `controls_buf` with the default values, restores the state and then applies the
`-c` options. A port that several of these name starts with the value of the last one
(`initial_controls`). The symbol of such an option is looked up among the controls, where those of
the ports come first, and not among the ports, as the state does it; so an option reaches no hidden
port. One that names a property is logged as if it had set it, but nothing is sent, for there is no
control input.
-/

namespace Soundcan.Galv

open Scanf

/-! ## The values -/

/-- What is logged while the values are set. -/
inductive ControlLog where
  | missingPort (sym : List Char)
  | badType (sym : List Char)
  | invalidValue (arg : List Char)
  | unknownControl (sym : List Char)
  | set (sym : List Char) (value : UInt32)
  deriving DecidableEq

/-- What `jalv_open` works on there. Floats are their bits; `sent` are the messages for
`control_in`, each with its property and value. -/
structure InitialControls where
  symbols : List (List Char)
  controls : List ControlID
  controlIn : Option Nat
  controlsBuf : Nat → UInt32
  sent : List (Nat × List Char × UInt32)
  log : List ControlLog

/-- A port value of a state; it is left out where `set_port_value` does not take its type. -/
structure StateEntry where
  sym : List Char
  value : Option StateValue

/-- `set_port_value`, as long as the process thread does not run. -/
def setPortValue (s : InitialControls) (entry : StateEntry) : InitialControls :=
  match portBySymbol s.symbols entry.sym, entry.value with
  | none, _ => { s with log := s.log ++ [.missingPort entry.sym] }
  | some _, none => { s with log := s.log ++ [.badType entry.sym] }
  | some index, some value =>
    { s with controlsBuf := Function.update s.controlsBuf index value.fvalue }

/-- `jalv_control_by_symbol`. -/
def jalvControlBySymbol (controls : List ControlID) (sym : List Char) : Option ControlID :=
  controls.find? (·.symbol = sym)

/-- `jalv_set_control` for a float. -/
def jalvSetControl (s : InitialControls) (control : ControlID) (value : UInt32) : InitialControls :=
  match control.node, s.controlIn with
  | .port index, _ => { s with controlsBuf := Function.update s.controlsBuf index value }
  | .property uri, some port => { s with sent := s.sent ++ [(port, uri, value)] }
  | .property _, none => s

/-- `"%240[^=]=%f"`. -/
def controlArgFormat : List Directive := [.set 240 (· != '='), .lit '=', .f]

/-- `jalv_apply_control_arg`. -/
def jalvApplyControlArg (strtof : List Char → UInt32) (s : InitialControls) (arg : List Char) :
    InitialControls :=
  match sscanf controlArgFormat arg with
  | [.text sym, .float value] =>
    match jalvControlBySymbol s.controls sym with
    | none => { s with log := s.log ++ [.unknownControl sym] }
    | some control =>
      let s := jalvSetControl s control (strtof value)
      { s with log := s.log ++ [.set sym (strtof value)] }
  | _ => { s with log := s.log ++ [.invalidValue arg] }

/-- `jalv_open` between the ports and the UI: the state, then the `-c` options. -/
def applyInitial (strtof : List Char → UInt32) (state : List StateEntry) (args : List (List Char))
    (s : InitialControls) : InitialControls :=
  args.foldl (jalvApplyControlArg strtof) (state.foldl setPortValue s)

/-! ## The command line -/

/-- `opts->controls` behind the loop of `jalv_frontend_init`. -/
def controlArgs (malloc : Nat → Bool) : List (List Char) → Jalv → List (List Char)
  | [], _ => []
  | arg :: args, jalv =>
    match frontendOption malloc arg args.head? jalv with
    | .flag jalv => controlArgs malloc args jalv
    | .valued jalv =>
      match args with
      | [] => []
      | value :: args =>
        if arg[1]? = some 'c' then value :: controlArgs malloc args jalv
        else controlArgs malloc args jalv
    | _ => []

/-- An option of the command line. Only the letter of its first argument counts, and not the rest of
it. -/
inductive CliOption where
  | flag (letter : Char) (more : List Char)
  | valued (letter : Char) (more value : List Char)
  | control (more sym value : List Char)

namespace CliOption

/-- Its arguments. -/
def render : CliOption → List (List Char)
  | flag letter more => ['-' :: letter :: more]
  | valued letter more value => ['-' :: letter :: more, value]
  | control more sym value => ['-' :: 'c' :: more, sym ++ '=' :: value]

/-- It is one that the front end knows. -/
def Known : CliOption → Prop
  | flag letter _ => letter ∈ ['s', 'p', 'i', 'd', 't', 'x']
  | valued letter _ _ => letter ∈ ['U', 'l', 'b', 'n']
  | control _ sym value => sym ≠ [] ∧ '=' ∉ sym ∧ sym.length ≤ 240 ∧ FloatText value

instance : (o : CliOption) → Decidable o.Known
  | flag _ _ => inferInstanceAs (Decidable (_ ∈ _))
  | valued _ _ _ => inferInstanceAs (Decidable (_ ∈ _))
  | control _ _ _ => inferInstanceAs (Decidable (_ ∧ _))

/-- The symbol and the value of a `-c` option. -/
def setting : CliOption → Option (List Char × List Char)
  | control _ sym value => some (sym, value)
  | _ => none

end CliOption

/-- A flag is read as one. -/
theorem frontendOption_flag (malloc : Nat → Bool) {letter : Char} {more : List Char}
    (h : CliOption.Known (.flag letter more)) (value : Option (List Char)) (jalv : Jalv) :
    ∃ jalv', frontendOption malloc ('-' :: letter :: more) value jalv = .flag jalv' := by
  simp only [CliOption.Known, List.mem_cons, List.not_mem_nil, or_false] at h
  rcases h with rfl | rfl | rfl | rfl | rfl | rfl <;> exact ⟨_, rfl⟩

/-- An option with a value takes it. -/
theorem frontendOption_valued (malloc : Nat → Bool) {letter : Char} {more value : List Char}
    (h : CliOption.Known (.valued letter more value)) (jalv : Jalv) :
    ∃ jalv', frontendOption malloc ('-' :: letter :: more) (some value) jalv = .valued jalv' := by
  simp only [CliOption.Known, List.mem_cons, List.not_mem_nil, or_false] at h
  rcases h with rfl | rfl | rfl | rfl <;> exact ⟨_, rfl⟩

/-- So does `-c`, unless there is no memory for the array of the controls. -/
theorem frontendOption_control (malloc : Nat → Bool) (more value : List Char) (jalv : Jalv) :
    (∃ jalv', frontendOption malloc ('-' :: 'c' :: more) (some value) jalv = .valued jalv') ∨
      ∃ e, frontendOption malloc ('-' :: 'c' :: more) (some value) jalv = .exit e := by
  have hcontrol : frontendOption malloc ('-' :: 'c' :: more) (some value) jalv =
      if malloc jalv.mem.next then
        .valued { jalv with mem := (jalv.mem.free .optControls).alloc .optControls }
      else .exit (.returned 12 { jalv with mem := jalv.mem.refuse }) := rfl
  rw [hcontrol]
  split
  next => exact .inl ⟨_, rfl⟩
  next => exact .inr ⟨_, rfl⟩

/-- The front end collects the values of the `-c` options, and stops at the first argument that is
no option. -/
theorem controlArgs_render {malloc : Nat → Bool} {options : List CliOption}
    (hoptions : ∀ o ∈ options, o.Known) {rest : List (List Char)}
    (hrest : ∀ arg ∈ rest.head?, arg.head? ≠ some '-') {jalv : Jalv}
    {result : List (List Char) × Jalv}
    (h : jalvFrontendInit malloc (options.flatMap CliOption.render ++ rest) jalv = .ok result) :
    result.1 = rest ∧
    controlArgs malloc (options.flatMap CliOption.render ++ rest) jalv =
      (options.filterMap CliOption.setting).map fun c => c.1 ++ '=' :: c.2 := by
  induction options generalizing jalv with
  | nil =>
      rw [List.flatMap_nil, List.nil_append] at h ⊢
      cases rest with
      | nil =>
          obtain rfl : ([], jalv) = result := Except.ok.inj h
          exact ⟨rfl, rfl⟩
      | cons arg rest =>
          have hstop : frontendOption malloc arg rest.head? jalv = .stop := if_pos (hrest arg rfl)
          rw [jalvFrontendInit, hstop] at h
          rw [controlArgs, hstop]
          obtain rfl : (arg :: rest, jalv) = result := Except.ok.inj h
          exact ⟨rfl, rfl⟩
  | cons o options ih =>
      rw [List.forall_mem_cons] at hoptions
      rw [List.flatMap_cons, List.append_assoc] at h ⊢
      cases o with
      | flag letter more =>
          obtain ⟨jalv', hstep⟩ := frontendOption_flag malloc hoptions.1
            (options.flatMap CliOption.render ++ rest).head? jalv
          rw [CliOption.render, List.singleton_append] at h ⊢
          rw [jalvFrontendInit, hstep] at h
          rw [controlArgs, hstep]
          exact ih hoptions.2 h
      | valued letter more value =>
          obtain ⟨jalv', hstep⟩ := frontendOption_valued malloc hoptions.1 jalv
          have hletter : ('-' :: letter :: more)[1]? ≠ some 'c' := by
            rintro heq
            obtain rfl : letter = 'c' := by simpa using heq
            simp [CliOption.Known] at hoptions
          rw [CliOption.render, List.cons_append, List.singleton_append] at h ⊢
          rw [jalvFrontendInit, List.head?_cons, hstep] at h
          rw [controlArgs, List.head?_cons, hstep]
          simp only [if_neg hletter]
          exact ih hoptions.2 h
      | control more sym value =>
          rw [CliOption.render, List.cons_append, List.singleton_append] at h ⊢
          rw [jalvFrontendInit, List.head?_cons] at h
          rw [controlArgs, List.head?_cons]
          obtain ⟨jalv', hstep⟩ | ⟨e, hstep⟩ :=
            frontendOption_control malloc more (sym ++ '=' :: value) jalv
          · rw [hstep] at h ⊢
            obtain ⟨hresult, hargs⟩ := ih hoptions.2 h
            refine ⟨hresult, ?_⟩
            have hletter : ('-' :: 'c' :: more)[1]? = some 'c' := rfl
            simp only [if_pos hletter, hargs]
            rfl
          · rw [hstep] at h
            cases h

/-! ## The control of a symbol -/

/-- The first port with a symbol that has a control. -/
def shownPort (showHidden : Bool) (ports : List LilvPort) (sym : List Char) : Option Nat :=
  ports.findIdx? fun port => port.shown showHidden && port.symbol.getD [] = sym

/-- What a control is looked up by, and what it stands for. -/
def ControlID.key (record : ControlID) : ControlNode × List Char := (record.node, record.symbol)

/-- A control is found by its symbol, and its node with it. -/
theorem node_find? (controls : List ControlID) (sym : List Char) :
    (jalvControlBySymbol controls sym).map ControlID.node =
      ((controls.map ControlID.key).find? (·.2 = sym)).map Prod.fst := by
  rw [List.find?_map, Option.map_map]
  rfl

/-- The controls of the ports are looked up like these. -/
theorem find?_createPortControls (showHidden : Bool) (index : Nat) (ports : List LilvPort)
    (sym : List Char) :
    (jalvControlBySymbol (createPortControls showHidden index ports []) sym).map ControlID.node =
      (shownPort showHidden ports sym).map fun i => .port (index + i) := by
  induction ports generalizing index with
  | nil => rfl
  | cons port ports ih =>
      have hrest :
          (jalvControlBySymbol (createPortControls showHidden (index + 1) ports []) sym).map
            ControlID.node =
          ((shownPort showHidden ports sym).map (· + 1)).map fun i => .port (index + i) := by
        rw [ih, Option.map_map]
        refine congrFun (congrArg _ (funext fun i => ?_)) _
        rw [Function.comp_apply, Nat.add_assoc, Nat.add_comm 1 i]
      rw [createPortControls_cons, shownPort, List.findIdx?_cons]
      cases port.shown showHidden with
      | false => exact hrest
      | true =>
          rw [if_pos rfl, jalvControlBySymbol, List.find?_cons]
          by_cases hsym : port.symbol.getD [] = sym
          · have hsym' : decide ((ControlID.newPortControl index port).symbol = sym) = true :=
              decide_eq_true hsym
            rw [hsym', decide_eq_true hsym]
            rfl
          · have hsym' : decide ((ControlID.newPortControl index port).symbol = sym) = false :=
              decide_eq_false hsym
            rw [hsym', decide_eq_false hsym]
            exact hrest

/-- Behind the given controls there are only properties. -/
def PropertiesBehind (front controls : List ControlID) : Prop :=
  ∃ rest, controls.map ControlID.key = front.map ControlID.key ++ rest ∧
    ∀ key ∈ rest, ∃ uri, key.1 = .property uri

/-- A property that is created is behind the ports. -/
theorem PropertiesBehind.createControl {front controls : List ControlID}
    (h : PropertiesBehind front controls) (writable : Bool) (property : Parameter) :
    PropertiesBehind front (createControl writable controls property) := by
  obtain ⟨rest, hkeys, hrest⟩ := h
  have hnew : ∀ record : ControlID, record.node = .property property.uri →
      PropertiesBehind front
        (if record.valueType.isSome then controls ++ [record] else controls) := by
    intro record hnode
    split
    next =>
      refine ⟨rest ++ [record.key], ?_, fun key hkey => ?_⟩
      · rw [List.map_append, hkeys, List.append_assoc, List.map_singleton]
      · obtain hkey | hkey := List.mem_append.1 hkey
        · exact hrest key hkey
        · rw [List.mem_singleton.1 hkey]
          exact ⟨property.uri, hnode⟩
    next => exact ⟨rest, hkeys, hrest⟩
  rw [Galv.createControl]
  split
  next controls' hmarked =>
    obtain ⟨-, hnone⟩ | ⟨-, controls'', hsome, hsame⟩ :=
      markReadable_cases (.property property.uri) controls
    · rw [hnone, ite_self] at hmarked
      cases hmarked
    · split at hmarked
      next =>
        rw [hsome] at hmarked
        obtain rfl := Option.some.inj hmarked
        exact ⟨rest, (hsame ControlID.key fun _ => rfl).trans hkeys, hrest⟩
      next => cases hmarked
  next =>
    cases writable with
    | false => exact hnew (newPropertyControl property).setReadable rfl
    | true => exact hnew (newPropertyControl property).setWritable rfl

/-- The properties that a pass creates are behind the ports. -/
theorem PropertiesBehind.jalvCreateControls {front controls : List ControlID}
    (h : PropertiesBehind front controls) (writable : Bool) (properties : List Parameter) :
    PropertiesBehind front (jalvCreateControls writable properties controls) := by
  rw [Galv.jalvCreateControls]
  induction properties.filter _ generalizing controls with
  | nil => exact h
  | cons property properties ih => exact ih (h.createControl writable property)

/-- A symbol is that of the first port that has it and is shown, or else of a property at most. -/
theorem jalvControlBySymbol_cases (showHidden : Bool) (ports : List LilvPort)
    (properties : List Parameter) (sym : List Char) :
    (∃ i control, shownPort showHidden ports sym = some i ∧
      jalvControlBySymbol (openControls showHidden ports properties) sym = some control ∧
      control.node = .port i) ∨
    (shownPort showHidden ports sym = none ∧ ∀ control,
      jalvControlBySymbol (openControls showHidden ports properties) sym = some control →
      ∃ uri, control.node = .property uri) := by
  have hstart : PropertiesBehind (createPortControls showHidden 0 ports [])
      (createPortControls showHidden 0 ports []) :=
    ⟨[], (List.append_nil _).symm, fun _ h => absurd h List.not_mem_nil⟩
  obtain ⟨rest, hkeys, hrest⟩ :=
    (hstart.jalvCreateControls true properties).jalvCreateControls false properties
  have hnode := node_find? (openControls showHidden ports properties) sym
  have hports := find?_createPortControls showHidden 0 ports sym
  rw [node_find?] at hports
  rw [openControls, hkeys, List.find?_append, Option.map_or, hports] at hnode
  cases hport : shownPort showHidden ports sym with
  | some i =>
      rw [hport, Option.map_some, Option.some_or, Nat.zero_add] at hnode
      obtain ⟨control, hcontrol, hi⟩ := Option.map_eq_some_iff.1 hnode
      exact .inl ⟨i, control, rfl, hcontrol, hi⟩
  | none =>
      refine .inr ⟨rfl, fun control hcontrol => ?_⟩
      rw [openControls] at hcontrol
      rw [hport, Option.map_none, Option.none_or, hcontrol, Option.map_some] at hnode
      obtain ⟨key, hkey, hfst⟩ := Option.map_eq_some_iff.1 hnode.symm
      rw [← hfst]
      exact hrest key (List.mem_of_find?_eq_some hkey)

/-! ## The state and the options -/

/-- The port whose value is that of an entry. -/
def StateEntry.target (symbols : List (List Char)) (entry : StateEntry) : Option Nat :=
  entry.value.bind fun _ => portBySymbol symbols entry.sym

/-- Its value as a float. -/
def StateEntry.bits (entry : StateEntry) : UInt32 := (entry.value.map StateValue.fvalue).getD 0

/-- What an entry is complained about for. -/
def StateEntry.complaint (symbols : List (List Char)) (entry : StateEntry) : Option ControlLog :=
  match portBySymbol symbols entry.sym, entry.value with
  | none, _ => some (.missingPort entry.sym)
  | some _, none => some (.badType entry.sym)
  | some _, some _ => none

/-- A value of the state is stored at the port of its symbol. -/
theorem setPortValue_eq (s : InitialControls) (entry : StateEntry) :
    setPortValue s entry =
      { s with
        controlsBuf := LastWrite.store (StateEntry.target s.symbols) StateEntry.bits s.controlsBuf
          entry
        log := s.log ++ (entry.complaint s.symbols).toList } := by
  rw [setPortValue, StateEntry.complaint, LastWrite.store, StateEntry.target, StateEntry.bits]
  cases portBySymbol s.symbols entry.sym with
  | none => cases entry.value <;> rfl
  | some index =>
      cases entry.value with
      | none => rfl
      | some value =>
          rw [Option.toList_none, List.append_nil]
          rfl

/-- The values of the state are stored at the ports of their symbols, and the last one wins. -/
theorem foldl_setPortValue (state : List StateEntry) (s : InitialControls) :
    state.foldl setPortValue s =
      { s with
        controlsBuf := LastWrite.storeAll (StateEntry.target s.symbols) StateEntry.bits
          s.controlsBuf state
        log := s.log ++ state.filterMap (·.complaint s.symbols) } := by
  induction state generalizing s with
  | nil =>
      rw [List.filterMap_nil, List.append_nil]
      rfl
  | cons entry state ih =>
      rw [List.foldl_cons, ih, setPortValue_eq, List.filterMap_cons, List.append_assoc]
      cases entry.complaint s.symbols <;> rfl

/-- What a `-c` option is answered with. -/
def settingLog (strtof : List Char → UInt32) (controls : List ControlID)
    (c : List Char × List Char) : ControlLog :=
  if (jalvControlBySymbol controls c.1).isSome then .set c.1 (strtof c.2) else .unknownControl c.1

/-- The text of such an option is read as it is meant. -/
theorem sscanf_controlArgFormat {more sym value : List Char}
    (h : CliOption.Known (.control more sym value)) :
    sscanf controlArgFormat (sym ++ '=' :: value) = [.text sym, .float value] := by
  obtain ⟨hne, hequals, hlength, hvalue⟩ := h
  have hchars : ∀ c ∈ sym, (c != '=') = true := by
    rintro c hc
    rw [bne_iff_ne]
    rintro rfl
    exact hequals hc
  rw [controlArgFormat, sscanf_set hne hchars hlength (by rintro c ⟨⟩; decide)]
  have hlit : sscanf [.lit '=', .f] ('=' :: value) = sscanf [.f] value := rfl
  rw [hlit, sscanf, hvalue]
  rfl

/-- A control argument is stored at the port of its symbol. -/
theorem jalvApplyControlArg_eq (strtof : List Char → UInt32) {s : InitialControls}
    {showHidden : Bool} {ports : List LilvPort} {properties : List Parameter}
    (hcontrols : s.controls = openControls showHidden ports properties)
    (hcontrolIn : s.controlIn = none) {more sym value : List Char}
    (h : CliOption.Known (.control more sym value)) :
    jalvApplyControlArg strtof s (sym ++ '=' :: value) =
      { s with
        controlsBuf := LastWrite.store (fun c => shownPort showHidden ports c.1)
          (fun c => strtof c.2) s.controlsBuf (sym, value)
        log := s.log ++ [settingLog strtof s.controls (sym, value)] } := by
  have hread : jalvApplyControlArg strtof s (sym ++ '=' :: value) =
      match jalvControlBySymbol s.controls sym with
      | none => { s with log := s.log ++ [.unknownControl sym] }
      | some control =>
        let s := jalvSetControl s control (strtof value)
        { s with log := s.log ++ [.set sym (strtof value)] } := by
    rw [jalvApplyControlArg, sscanf_controlArgFormat h]
  rw [hread, settingLog, LastWrite.store]
  obtain ⟨i, control, hport, hcontrol, hnode⟩ | ⟨hport, hproperty⟩ :=
    jalvControlBySymbol_cases showHidden ports properties sym
  · rw [← hcontrols] at hcontrol
    rw [hcontrol, hport]
    simp only [jalvSetControl, hnode]
    rfl
  · rw [hport]
    cases hcontrol : jalvControlBySymbol s.controls sym with
    | none => rfl
    | some control =>
        -- the property has a control, but there is nowhere to send its value
        obtain ⟨uri, hnode⟩ := hproperty control (hcontrols ▸ hcontrol)
        simp only [jalvSetControl, hnode, hcontrolIn]
        rfl

/-- The control arguments are stored at the ports of their symbols, and the last one wins. -/
theorem foldl_jalvApplyControlArg (strtof : List Char → UInt32) {s : InitialControls}
    {showHidden : Bool} {ports : List LilvPort} {properties : List Parameter}
    (hcontrols : s.controls = openControls showHidden ports properties)
    (hcontrolIn : s.controlIn = none) {options : List CliOption}
    (hoptions : ∀ o ∈ options, o.Known) :
    ((options.filterMap CliOption.setting).map fun c => c.1 ++ '=' :: c.2).foldl
        (jalvApplyControlArg strtof) s =
      { s with
        controlsBuf := LastWrite.storeAll (fun c => shownPort showHidden ports c.1)
          (fun c => strtof c.2) s.controlsBuf (options.filterMap CliOption.setting)
        log := s.log ++
          (options.filterMap CliOption.setting).map (settingLog strtof s.controls) } := by
  induction options generalizing s with
  | nil =>
      rw [List.filterMap_nil, List.map_nil, List.map_nil, List.append_nil]
      rfl
  | cons o options ih =>
      rw [List.forall_mem_cons] at hoptions
      cases o with
      | flag letter more => exact ih hcontrols hcontrolIn hoptions.2
      | valued letter more value => exact ih hcontrols hcontrolIn hoptions.2
      | control more sym value =>
          have hsetting : (CliOption.control more sym value :: options).filterMap
              CliOption.setting = (sym, value) :: options.filterMap CliOption.setting := rfl
          rw [hsetting, List.map_cons, List.foldl_cons,
            jalvApplyControlArg_eq strtof hcontrols hcontrolIn hoptions.1, ih, List.append_assoc]
          · rfl
          · exact hcontrols
          · exact hcontrolIn
          · exact hoptions.2

/-! ## The start -/

/-- The state in front of the values. -/
def InitialControls.created (showHidden : Bool) (ports : List LilvPort)
    (properties : List Parameter) (controlIn : Option Nat) (defaults : Nat → UInt32) :
    InitialControls where
  symbols := ports.map fun port => port.symbol.getD []
  controls := openControls showHidden ports properties
  controlIn
  controlsBuf := defaults
  sent := []
  log := []

/-- The ports of a plugin start with the values of the last `-c` options that name them, or else
with those of the state, or else with the defaults. Nothing is sent, and each entry that is wrong
and each of the options is logged. -/
theorem initial_controls (strtof : List Char → UInt32) {malloc : Nat → Bool}
    {options : List CliOption} (hoptions : ∀ o ∈ options, o.Known) {rest : List (List Char)}
    (hrest : ∀ arg ∈ rest.head?, arg.head? ≠ some '-') {preset : Option (List Char)}
    {rest' : List (List Char)} {jalv : Jalv}
    (hinit : jalvFrontendInit malloc (options.flatMap CliOption.render ++ rest) (.zeroed preset) =
      .ok (rest', jalv))
    {ports : List LilvPort} {created : List JalvProcessPort} {controlIn : Option Nat}
    (hports : jalvCreatePorts ports = some (created, controlIn)) (properties : List Parameter)
    (defaults : Nat → UInt32) (state : List StateEntry) :
    let start : InitialControls :=
      .created jalv.showHidden ports properties controlIn defaults
    let s := applyInitial strtof state
      (controlArgs malloc (options.flatMap CliOption.render ++ rest) (.zeroed preset)) start
    let settings := options.filterMap CliOption.setting
    rest' = rest ∧
    s.controlsBuf = LastWrite.last (fun c => shownPort jalv.showHidden ports c.1)
      (fun c => strtof c.2)
      (LastWrite.last (StateEntry.target start.symbols) StateEntry.bits defaults state) settings ∧
    s.sent = [] ∧
    s.log = state.filterMap (·.complaint start.symbols) ++
      settings.map (settingLog strtof start.controls) := by
  intro start s settings
  obtain ⟨hresult, hargs⟩ := controlArgs_render hoptions hrest hinit
  have hcontrolIn : controlIn = none := jalvCreatePorts_controlIn hports
  have hs : s = applyInitial strtof state (settings.map fun c => c.1 ++ '=' :: c.2) start :=
    congrArg (applyInitial strtof state · start) hargs
  rw [applyInitial, foldl_setPortValue, foldl_jalvApplyControlArg strtof rfl hcontrolIn hoptions]
    at hs
  refine ⟨hresult, ?_, by rw [hs]; rfl, by rw [hs]; rfl⟩
  have hstate :
      LastWrite.storeAll (StateEntry.target start.symbols) StateEntry.bits defaults state =
        LastWrite.last (StateEntry.target start.symbols) StateEntry.bits defaults state :=
    funext fun i => LastWrite.storeAll_apply state i
  rw [hs, ← hstate]
  exact funext fun i => LastWrite.storeAll_apply settings i

/-- The port `gain` starts with the value of its option, the hidden port `mix` with that of the
state, for no option reaches it. The property `tone` is logged as if it had been set. -/
theorem initial_controls_gain :
    let port (symbol : List Char) (notOnGui : Bool) : LilvPort :=
      { inputPort := true, outputPort := false, controlPort := true, audioPort := false,
        cvPort := false, atomPort := false, connectionOptional := false, symbol := some symbol,
        name := none, minimumSize := none, reportsLatency := false, notOnGui, designations := [],
        supportsMidi := false }
    let ports := [port "gain".toList false, port "mix".toList true]
    let properties : List Parameter := [⟨"urn:tone".toList, "tone".toList, true, true, [.float]⟩]
    let state : List StateEntry :=
      [⟨"mix".toList, some (.float 0x40400000)⟩, ⟨"gain".toList, some (.float 0x3f800000)⟩]
    let options : List CliOption :=
      [.flag 'i' [], .control [] "gain".toList "0.5".toList, .valued 'n' [] "synth".toList,
        .control [] "mix".toList "0.5".toList, .control [] "tone".toList "0.5".toList]
    let args := options.flatMap CliOption.render ++ ["urn:synth".toList]
    let s := applyInitial (fun _ => 0x3f000000) state
      (controlArgs (fun _ => true) args (.zeroed none))
      (.created false ports properties none fun _ => 0)
    s.controlsBuf 0 = 0x3f000000 ∧ s.controlsBuf 1 = 0x40400000 ∧ s.sent = [] ∧
    s.log = [.set "gain".toList 0x3f000000, .unknownControl "mix".toList,
      .set "tone".toList 0x3f000000] := by
  intro port ports properties state options args s
  have hoptions : ∀ o ∈ options, o.Known := by decide
  have hrest : ∀ arg ∈ ["urn:synth".toList].head?, arg.head? ≠ some '-' := by
    rintro _ ⟨⟩
    decide
  obtain ⟨jalv, hinit, hhidden⟩ : ∃ jalv, jalvFrontendInit (fun _ => true) args (.zeroed none) =
      .ok (["urn:synth".toList], jalv) ∧ jalv.showHidden = false := ⟨_, rfl, rfl⟩
  obtain ⟨created, hports⟩ : ∃ created, jalvCreatePorts ports = some (created, none) := ⟨_, rfl⟩
  have hstart := initial_controls (fun _ => 0x3f000000) hoptions hrest hinit hports properties
    (fun _ => 0) state
  rw [hhidden] at hstart
  obtain ⟨-, hbuf, hsent, hlog⟩ := hstart
  exact ⟨congrFun hbuf 0, congrFun hbuf 1, hsent, hlog⟩

end Soundcan.Galv
