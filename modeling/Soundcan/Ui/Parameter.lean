import Soundcan.Lib.Transition

/-!
# The parameter sets of the web UI

`ui/src/parameter/parameter.go` keeps the current parameters and the stored sets in Go maps. A Go
map is a reference, so the model has a heap of maps (`Vars`), and `Store` and `Activate` copy
addresses. `Snapshots` is what the package is for: a stored set is a snapshot, an activated set a
copy of it. The two agree on every run whose assignments leave the maps of stored sets as they
are (`vars_refine_snapshots`), and one assignment that does not is enough to tell them apart.
-/

namespace Soundcan.Ui

/-- `parameterSet`: the contents of a map from names to values. -/
abbrev ParameterSet : Type := String → Option String

/-- The calls of the package. -/
inductive Call where
  | paramValue (parameterName defaultValue : String)
  | assign (parameterName value : String)
  | activate (parameterset : String)
  | store (parameterset : String)
  | selected
  deriving DecidableEq, Repr

/-- Map assignment. -/
def ParameterSet.assign (params : ParameterSet) (parameterName value : String) : ParameterSet :=
  Function.update params parameterName (some value)

/-! ## The package -/

/-- The package's variables, over a heap of maps: `make` takes the address `next`. -/
structure Vars where
  heap : Nat → ParameterSet
  next : Nat
  parameterSets : String → Option Nat
  selected : String
  parameters : Nat

/-- The variables at the start of the program. -/
def Vars.init : Vars where
  heap _ := fun _ => none
  next := 1
  parameterSets _ := none
  selected := ""
  parameters := 0

/-- `ParamValue`. -/
def Vars.paramValue (v : Vars) (parameterName defaultValue : String) : String :=
  match v.heap v.parameters parameterName with
  | some value => value
  | none => defaultValue

/-- `Assign`. -/
def Vars.assign (v : Vars) (parameterName value : String) : Vars :=
  { v with
    heap := Function.update v.heap v.parameters
      ((v.heap v.parameters).assign parameterName value) }

/-- `Activate`. -/
def Vars.activate (v : Vars) (parameterset : String) : Vars :=
  match v.parameterSets parameterset with
  | some params => { v with parameters := params, selected := parameterset }
  | none =>
    { v with
      heap := Function.update v.heap v.next fun _ => none
      next := v.next + 1
      parameters := v.next
      selected := parameterset }

/-- `Store`. -/
def Vars.store (v : Vars) (parameterset : String) : Vars :=
  { v with parameterSets := Function.update v.parameterSets parameterset (some v.parameters) }

/-- One call and what it returns. -/
def Vars.call (v : Vars) : Call → Option (Vars × Option String)
  | .paramValue parameterName defaultValue =>
    some (v, some (v.paramValue parameterName defaultValue))
  | .assign parameterName value => some (v.assign parameterName value, none)
  | .activate parameterset => some (v.activate parameterset, none)
  | .store parameterset => some (v.store parameterset, none)
  | .selected => some (v, some v.selected)

/-- The runs of the package. -/
def vars : Lts Vars (Call × Option String) := .ofStep .init Vars.call

/-! ## Snapshots -/

/-- The reference store: the stored sets are values. -/
structure Snapshots where
  parameterSets : String → Option ParameterSet
  selected : String
  parameters : ParameterSet

/-- The empty reference store. -/
def Snapshots.init : Snapshots where
  parameterSets _ := none
  selected := ""
  parameters _ := none

/-- One call on the reference store and what it returns. -/
def Snapshots.call (s : Snapshots) : Call → Option (Snapshots × Option String)
  | .paramValue parameterName defaultValue =>
    some (s, some ((s.parameters parameterName).getD defaultValue))
  | .assign parameterName value =>
    some ({ s with parameters := s.parameters.assign parameterName value }, none)
  | .activate parameterset =>
    some ({ s with
      parameters := (s.parameterSets parameterset).getD fun _ => none
      selected := parameterset }, none)
  | .store parameterset =>
    some ({ s with
      parameterSets := Function.update s.parameterSets parameterset (some s.parameters) }, none)
  | .selected => some (s, some s.selected)

/-- The runs of the reference store. -/
def snapshots : Lts Snapshots (Call × Option String) := .ofStep .init Snapshots.call

/-! ## The simulation -/

/-- The variables hold the contents of the reference store, at addresses below `next`. -/
structure Represents (v : Vars) (s : Snapshots) : Prop where
  parameterSets : ∀ set, s.parameterSets set = (v.parameterSets set).map v.heap
  selected : s.selected = v.selected
  parameters : s.parameters = v.heap v.parameters
  setsBelow : ∀ set params, v.parameterSets set = some params → params < v.next
  parametersBelow : v.parameters < v.next

/-- An assignment changes no stored set: the current map is not one of theirs, or it has the value
already. -/
def KeepsSets (v : Vars) : Call → Prop
  | .assign parameterName value =>
    (∃ set, v.parameterSets set = some v.parameters) →
      v.heap v.parameters parameterName = some value
  | _ => True

/-- Activating a stored set makes its map the current one. -/
theorem Vars.activate_some (v : Vars) {parameterset : String} {params : Nat}
    (h : v.parameterSets parameterset = some params) :
    v.activate parameterset = { v with parameters := params, selected := parameterset } := by
  rw [Vars.activate, h]

/-- Activating another name makes a new map. -/
theorem Vars.activate_none (v : Vars) {parameterset : String}
    (h : v.parameterSets parameterset = none) :
    v.activate parameterset =
      { v with
        heap := Function.update v.heap v.next fun _ => none
        next := v.next + 1
        parameters := v.next
        selected := parameterset } := by
  rw [Vars.activate, h]

/-- An assignment changes the current map. -/
theorem Vars.assign_heap_self (v : Vars) (parameterName value : String) :
    (v.assign parameterName value).heap v.parameters =
      (v.heap v.parameters).assign parameterName value :=
  Function.update_self ..

/-- It leaves the other maps. -/
theorem Vars.assign_heap_of_ne (v : Vars) (parameterName value : String) {params : Nat}
    (h : params ≠ v.parameters) :
    (v.assign parameterName value).heap params = v.heap params :=
  Function.update_of_ne h ..

/-- At first there is no parameter and no set. -/
theorem represents_init : Represents .init .init where
  parameterSets _ := rfl
  selected := rfl
  parameters := rfl
  setsBelow _ _ h := nomatch h
  parametersBelow := Nat.zero_lt_one

/-- A parameter is read as its snapshot has it. -/
theorem Represents.paramValue {v : Vars} {s : Snapshots} (h : Represents v s)
    (parameterName defaultValue : String) :
    v.paramValue parameterName defaultValue =
      (s.parameters parameterName).getD defaultValue := by
  rw [Vars.paramValue, h.parameters]
  cases v.heap v.parameters parameterName <;> rfl

/-- Assigning changes the one parameter, and no set where the sets are kept. -/
theorem Represents.assign {v : Vars} {s : Snapshots} (h : Represents v s)
    {parameterName value : String} (hkeeps : KeepsSets v (.assign parameterName value)) :
    Represents (v.assign parameterName value)
      { s with parameters := s.parameters.assign parameterName value } where
  parameterSets set := by
    rw [h.parameterSets]
    refine Option.map_congr fun params hparams => ?_
    by_cases heq : params = v.parameters
    · -- The map is the current one: it has the value already.
      subst heq
      have hsame := hkeeps ⟨set, hparams⟩
      rw [v.assign_heap_self, ParameterSet.assign, ← hsame, Function.update_eq_self]
    · rw [v.assign_heap_of_ne _ _ heq]
  selected := h.selected
  parameters := by
    change s.parameters.assign parameterName value = (v.assign _ _).heap v.parameters
    rw [h.parameters, v.assign_heap_self]
  setsBelow := h.setsBelow
  parametersBelow := h.parametersBelow

/-- Activating a set makes it the parameters, or none where it is unknown. -/
theorem Represents.activate {v : Vars} {s : Snapshots} (h : Represents v s)
    (parameterset : String) :
    Represents (v.activate parameterset)
      { s with
        parameters := (s.parameterSets parameterset).getD fun _ => none
        selected := parameterset } := by
  cases hset : v.parameterSets parameterset with
  | some params =>
      rw [v.activate_some hset]
      refine ⟨h.parameterSets, rfl, ?_, h.setsBelow, h.setsBelow _ _ hset⟩
      simp [h.parameterSets, hset]
  | none =>
      rw [v.activate_none hset]
      refine ⟨fun set => ?_, rfl, ?_, fun set params hparams => ?_, Nat.lt_succ_self _⟩
      · rw [h.parameterSets]
        refine Option.map_congr fun params hparams => ?_
        exact (Function.update_of_ne (h.setsBelow set params hparams).ne ..).symm
      · simp [h.parameterSets, hset]
      · exact Nat.lt_succ_of_lt (h.setsBelow set params hparams)

/-- Storing makes the set what the parameters are. -/
theorem Represents.store {v : Vars} {s : Snapshots} (h : Represents v s) (parameterset : String) :
    Represents (v.store parameterset)
      { s with
        parameterSets := Function.update s.parameterSets parameterset (some s.parameters) } where
  parameterSets set := by
    by_cases heq : set = parameterset
    · subst heq
      simp [Vars.store, h.parameters]
    · simp [Vars.store, heq, h.parameterSets]
  selected := h.selected
  parameters := h.parameters
  setsBelow set params hparams := by
    by_cases heq : set = parameterset
    · subst heq
      simp only [Vars.store, Function.update_self, Option.some.injEq] at hparams
      exact hparams ▸ h.parametersBelow
    · simp only [Vars.store, Function.update_of_ne heq] at hparams
      exact h.setsBelow set params hparams
  parametersBelow := h.parametersBelow

/-- A call that keeps the stored sets returns the same in both, and they stay related. -/
theorem Represents.call {v v' : Vars} {s : Snapshots} {label : Call × Option String}
    (h : Represents v s) (hkeeps : KeepsSets v label.1) (hstep : vars.step v label v') :
    ∃ s', snapshots.step s label s' ∧ Represents v' s' := by
  obtain ⟨call, result⟩ := label
  cases call with
  | paramValue parameterName defaultValue =>
      obtain ⟨rfl, rfl⟩ := Prod.mk.inj (Option.some.inj hstep)
      rw [h.paramValue]
      exact ⟨s, rfl, h⟩
  | assign parameterName value =>
      obtain ⟨rfl, rfl⟩ := Prod.mk.inj (Option.some.inj hstep)
      exact ⟨_, rfl, h.assign hkeeps⟩
  | activate parameterset =>
      obtain ⟨rfl, rfl⟩ := Prod.mk.inj (Option.some.inj hstep)
      exact ⟨_, rfl, h.activate parameterset⟩
  | store parameterset =>
      obtain ⟨rfl, rfl⟩ := Prod.mk.inj (Option.some.inj hstep)
      exact ⟨_, rfl, h.store parameterset⟩
  | selected =>
      obtain ⟨rfl, rfl⟩ := Prod.mk.inj (Option.some.inj hstep)
      rw [← h.selected]
      exact ⟨s, rfl, h⟩

/-- The variables at the end of a run that keeps the stored sets represent the reference store at
the end of the same run. -/
theorem represents_of_run {tr : List (Call × Option String)} {v : Vars}
    (h : (vars.guard fun v label => KeepsSets v label.1).Run tr v) :
    ∃ s, snapshots.Run tr s ∧ Represents v s :=
  Lts.Run.refine (M := vars.guard fun v label => KeepsSets v label.1) (N := snapshots)
    (R := Represents)
    (fun _ hinit => ⟨.init, rfl, (show _ = Vars.init from hinit) ▸ represents_init⟩)
    (fun _ _ _ _ hR hstep => hR.call hstep.1 hstep.2) h

/-- The calls that show that an assignment changed a stored set. -/
def reveal (parameterName value set defaultValue : String) : List (Call × Option String) :=
  [(.assign parameterName value, none), (.activate set, none),
    (.paramValue parameterName defaultValue, some value)]

/-- After the assignment, the stored set that shares the current map has the new value. -/
theorem run_reveal {tr : List (Call × Option String)} {v : Vars} (h : vars.Run tr v)
    {set : String} (hset : v.parameterSets set = some v.parameters)
    (parameterName value defaultValue : String) :
    ∃ v', vars.Run (tr ++ reveal parameterName value set defaultValue) v' := by
  have hshared : (v.assign parameterName value).parameterSets set = some v.parameters := hset
  have hread : ((v.assign parameterName value).activate set).paramValue parameterName defaultValue
      = value := by
    rw [Vars.activate_some _ hshared, Vars.paramValue, v.assign_heap_self, ParameterSet.assign,
      Function.update_self]
  have hassign : vars.Run (tr ++ [(.assign parameterName value, none)])
      (v.assign parameterName value) := h.step rfl
  have hactivate : vars.Run (tr ++ [(.assign parameterName value, none)] ++ [(.activate set, none)])
      ((v.assign parameterName value).activate set) := hassign.step rfl
  have hvalue : vars.step ((v.assign parameterName value).activate set)
      (.paramValue parameterName defaultValue, some value)
      ((v.assign parameterName value).activate set) := by
    change some _ = some _
    rw [hread]
  exact ⟨_, by simpa [reveal] using hactivate.step hvalue⟩

/-- The reference store restores the value of the snapshot instead. -/
theorem not_run_reveal {tr : List (Call × Option String)} {s : Snapshots} (h : snapshots.Run tr s)
    {set parameterName value defaultValue : String} {params : ParameterSet}
    (hset : s.parameterSets set = some params) (hparams : params parameterName ≠ some value)
    (hdefault : defaultValue ≠ value) (s' : Snapshots) :
    ¬snapshots.Run (tr ++ reveal parameterName value set defaultValue) s' := by
  intro hrun
  have hsplit : tr ++ reveal parameterName value set defaultValue =
      tr ++ [(.assign parameterName value, none)] ++ [(.activate set, none)] ++
        [(.paramValue parameterName defaultValue, some value)] := by simp [reveal]
  rw [hsplit] at hrun
  obtain ⟨s₂, hrun₂, hread⟩ := Lts.run_concat.1 hrun
  obtain ⟨s₁, hrun₁, hactivate⟩ := Lts.run_concat.1 hrun₂
  obtain ⟨s₀, hrun₀, hassign⟩ := Lts.run_concat.1 hrun₁
  obtain ⟨-, rfl⟩ := Lts.ofStep_unique h hrun₀ rfl
  obtain ⟨rfl, -⟩ := Prod.mk.inj (Option.some.inj hassign)
  obtain ⟨rfl, -⟩ := Prod.mk.inj (Option.some.inj hactivate)
  have hvalue := (Prod.mk.inj (Option.some.inj hread)).2
  simp only [hset, Option.getD_some, Option.some.injEq] at hvalue
  cases hcontent : params parameterName with
  | none => exact hdefault (by simpa [hcontent] using hvalue)
  | some old => exact hparams (by simpa [hcontent] using hvalue)

/-- The package refines the reference store on the runs whose assignments keep the stored sets, so
each `ParamValue` returns the same; and after such a run any other assignment, followed by an
`Activate` and a `ParamValue`, returns what the reference store cannot. -/
theorem vars_refine_snapshots {tr : List (Call × Option String)} {v : Vars}
    (h : (vars.guard fun v label => KeepsSets v label.1).Run tr v) :
    (∃ s, snapshots.Run tr s) ∧
    ∀ parameterName value, ¬KeepsSets v (.assign parameterName value) →
      ∃ set defaultValue,
        (∃ v', vars.Run (tr ++ reveal parameterName value set defaultValue) v') ∧
        ¬∃ s', snapshots.Run (tr ++ reveal parameterName value set defaultValue) s' := by
  obtain ⟨s, hrun, hR⟩ := represents_of_run h
  refine ⟨⟨s, hrun⟩, fun parameterName value hkeeps => ?_⟩
  simp only [KeepsSets, Classical.not_imp] at hkeeps
  obtain ⟨⟨set, hset⟩, hne⟩ := hkeeps
  obtain ⟨defaultValue, hdefault⟩ := exists_ne value
  refine ⟨set, defaultValue, run_reveal h.of_guard hset _ _ _, fun ⟨s', hs'⟩ => ?_⟩
  have hsnapshot : s.parameterSets set = some (v.heap v.parameters) := by
    rw [hR.parameterSets, hset, Option.map_some]
  exact not_run_reveal hrun hsnapshot hne hdefault s' hs'

/-- A value assigned and stored. -/
def storeVolume : List (Call × Option String) :=
  [(.assign "volume" "1", none), (.store "jazz", none)]

/-- The two calls keep the sets. -/
theorem run_storeVolume : (vars.guard fun v label => KeepsSets v label.1).Run storeVolume
    ((Vars.init.assign "volume" "1").store "jazz") := by
  have hkeeps : KeepsSets Vars.init (.assign "volume" "1") := fun ⟨_, hset⟩ => nomatch hset
  have hassign : (vars.guard fun v label => KeepsSets v label.1).Run
      [(.assign "volume" "1", none)] (Vars.init.assign "volume" "1") :=
    Lts.Run.step (.init rfl) ⟨hkeeps, rfl⟩
  exact hassign.step ⟨trivial, rfl⟩

/-- The set is left for one that is not there, changed there, and activated again. -/
def restoreVolume : List (Call × Option String) :=
  storeVolume ++ [(.activate "blank", none)] ++ [(.assign "volume" "2", none)] ++
    [(.activate "jazz", none)] ++ [(.paramValue "volume" "0", some "1")]

/-- Storing, activating and reading refine the reference store. -/
theorem storeVolume_refines : ∃ s, snapshots.Run restoreVolume s := by
  let M := vars.guard fun v label => KeepsSets v label.1
  let stored := (Vars.init.assign "volume" "1").store "jazz"
  have hblank : M.Run (storeVolume ++ [(.activate "blank", none)]) (stored.activate "blank") :=
    run_storeVolume.step ⟨trivial, rfl⟩
  have hkeeps : KeepsSets (stored.activate "blank") (.assign "volume" "2") := by
    rintro ⟨set, hset⟩
    rcases eq_or_ne set "jazz" with rfl | hne
    · cases hset
    · replace hset : Function.update (fun _ => none) "jazz" (some 0) set = some 1 := hset
      rw [Function.update_of_ne hne] at hset
      cases hset
  have hassign : M.Run (storeVolume ++ [(.activate "blank", none)] ++
      [(.assign "volume" "2", none)]) ((stored.activate "blank").assign "volume" "2") :=
    hblank.step ⟨hkeeps, rfl⟩
  have hjazz : M.Run (storeVolume ++ [(.activate "blank", none)] ++
      [(.assign "volume" "2", none)] ++ [(.activate "jazz", none)])
      (((stored.activate "blank").assign "volume" "2").activate "jazz") :=
    hassign.step ⟨trivial, rfl⟩
  have hread : M.Run restoreVolume
      (((stored.activate "blank").assign "volume" "2").activate "jazz") :=
    hjazz.step ⟨trivial, rfl⟩
  exact (vars_refine_snapshots hread).1

/-- An assignment after the store changes what a later activation restores. -/
theorem stored_volume_changes :
    (∃ v, vars.Run (storeVolume ++ reveal "volume" "2" "jazz" "0") v) ∧
      ¬∃ s, snapshots.Run (storeVolume ++ reveal "volume" "2" "jazz" "0") s := by
  obtain ⟨s, hrun, hR⟩ := represents_of_run run_storeVolume
  have hset : ((Vars.init.assign "volume" "1").store "jazz").parameterSets "jazz" = some 0 := rfl
  have hsnapshot : s.parameterSets "jazz" =
      some (((Vars.init.assign "volume" "1").store "jazz").heap 0) := by
    rw [hR.parameterSets, hset, Option.map_some]
  refine ⟨run_reveal run_storeVolume.of_guard hset _ _ _, fun ⟨s', hs'⟩ => ?_⟩
  exact not_run_reveal hrun hsnapshot (by decide) (by decide) s' hs'

end Soundcan.Ui
