import Soundcan.FluidUi.Controls

/-!
# The requests of fluid-ui

`serviceHandler` takes the instance of a control from the path of a request, as an `int` that it
compares with the number of controls and not with 0, and the value as it stands in the path. A
request is modelled by what it does: the entries of the table that it accesses, the value that it
copies and what it sends. `serviceHandler_inside_iff` says for which paths it stays inside the table
and its buffers.
-/

namespace Soundcan.FluidUi

open CText

/-- The buffer `response`, which is not initialised. -/
inductive Buffer where
  | unwritten
  | written (s : List Char)
  deriving DecidableEq

/-- What the handling of a request does. -/
inductive Event where
  /-- An access to `controls[index]`. -/
  | access (index : Int)
  /-- The `strcpy` of a value to the `writeValue` of an entry. -/
  | copy (value : List Char)
  /-- A `send` of a constant text. -/
  | sendText (s : String)
  /-- A `send` of the buffer, up to its first zero. -/
  | sendResponse (response : Buffer)
  deriving DecidableEq

def servicePrefix : List Char := "/service/".toList

def okPrebody : String := "HTTP/1.1 200 OK\r\nContent-Type: application/json\r\n\r\n"

def noResource : String := "HTTP/1.1 404 No such resource\r\n\r\n\r\n"

section
-- `valueAt` is the text in the entry of an index behind its `readFunc`, where the index is outside
-- of the table whatever lies there; `instances` is what `getControlInstances` writes
variable (valueAt : Int → List Char) (instances : List Char)

/-- `getControlInstance` on the buffer. -/
def getControlInstance (index : Int) (response : Buffer) : List Event × Buffer :=
  if index ≥ nmbControls then ([], response)
  else ([.access index], .written (valueAt index))

/-- `setControlInstance`. -/
def setControlInstance (index : Int) (value : List Char) : List Event :=
  if index ≥ nmbControls then [] else [.access index, .copy value]

/-- `getControlInstances` on the buffer: `initControl` and its own loop go up to `END_OF_LIST`. -/
def getControlInstancesEvents : List Event :=
  (List.range (nmbControls + 1)).map (fun i => .access i) ++ [.access 2] ++
    (List.range (nmbControls + 1)).map fun i => .access i

/-- `serviceHandler` on the path behind `/service/`. -/
def serviceHandler (path : List Char) : List Event :=
  match strtok ['/'] path with
  | [] => [.sendText noResource]
  | resource :: tokens =>
    if resource = "control".toList then
      match tokens with
      | [] => getControlInstancesEvents ++ [.sendText okPrebody, .sendResponse (.written instances)]
      | [instance_] =>
        let (events, response) := getControlInstance valueAt (atoi instance_) .unwritten
        events ++ [.sendText okPrebody, .sendResponse response]
      | instance_ :: value :: _ =>
        setControlInstance (atoi instance_) value ++ [.sendText okPrebody]
    else [.sendText noResource]

end

/-- A text that `%s` reads as a whole. -/
def Word (s : List Char) : Prop := ∀ c ∈ s, isspace c = false ∧ c ≠ '\x00'

instance (s : List Char) : Decidable (Word s) := List.decidableBAll _ _

/-- A route as `main` reads it: no white space, and within its 100 bytes. -/
structure Route where
  text : List Char
  word : Word text
  length_lt : text.length < 100

/-- The path that a route of the service gives to `serviceHandler`. -/
def Route.path (route : Route) : Option (List Char) :=
  if servicePrefix <+: route.text then some (route.text.drop servicePrefix.length) else none

/-- What the loop of `main` does for a `GET` of a route, where it is not for `fileHandler`. -/
def Route.handle (valueAt : Int → List Char) (instances : List Char) (route : Route) :
    Option (List Event) :=
  route.path.map (serviceHandler valueAt instances)

/-- The event is inside the table and the buffers. -/
def Event.Inside : Event → Prop
  | .access index => 0 ≤ index ∧ index < nmbControls
  | .copy value => value.length ≤ 29
  | .sendText _ => True
  | .sendResponse response => response ≠ .unwritten

/-- An index beyond the table stores nothing; one in it stores up to 29 characters. -/
theorem setControlInstance_inside_iff (index : Int) (value : List Char) :
    (∀ e ∈ setControlInstance index value, e.Inside) ↔
      nmbControls ≤ index ∨ 0 ≤ index ∧ value.length ≤ 29 := by
  unfold setControlInstance
  split
  next hge =>
    refine ⟨fun _ => .inl hge, fun _ e he => ?_⟩
    cases he
  next hlt =>
    rw [List.forall_mem_cons, List.forall_mem_singleton]
    refine ⟨fun ⟨haccess, hcopy⟩ => .inr ⟨haccess.1, hcopy⟩, ?_⟩
    rintro (hge | ⟨hpos, hlength⟩)
    · exact absurd hge hlt
    · exact ⟨⟨hpos, not_le.1 hlt⟩, hlength⟩

/-- The buffer is written where an entry is accessed. -/
theorem getControlInstance_inside_iff (valueAt : Int → List Char) (index : Int) :
    (∀ e ∈ (getControlInstance valueAt index .unwritten).1, e.Inside) ∧
      (getControlInstance valueAt index .unwritten).2 ≠ .unwritten ↔
      0 ≤ index ∧ index < nmbControls := by
  unfold getControlInstance
  split
  next hge =>
    refine ⟨fun h => absurd rfl h.2, fun h => ?_⟩
    exact absurd hge (not_le.2 h.2)
  next hlt =>
    rw [List.forall_mem_singleton]
    refine ⟨fun h => h.1, fun h => ⟨h, ?_⟩⟩
    rintro ⟨⟩

/-- The condition on the tokens behind `control`: with a value, the instance is beyond the table or
in it with a value that fits; without one, the instance is in the table. -/
def FitsTable (instance_ : List Char) (rest : List (List Char)) : Prop :=
  match rest with
  | [] => 0 ≤ atoi instance_ ∧ atoi instance_ < nmbControls
  | value :: _ => nmbControls ≤ atoi instance_ ∨ 0 ≤ atoi instance_ ∧ value.length ≤ 29

instance (instance_ : List Char) (rest : List (List Char)) :
    Decidable (FitsTable instance_ rest) := by
  unfold FitsTable
  split <;> infer_instance

/-- A request for an instance stays inside the table and the buffers exactly where its tokens
fit. -/
theorem serviceHandler_inside_iff (valueAt : Int → List Char) (instances : List Char)
    (route : Route) (instance_ : List Char) (rest : List (List Char))
    (h : route.path.map (strtok ['/']) = some ("control".toList :: instance_ :: rest)) :
    (∀ events, route.handle valueAt instances = some events → ∀ e ∈ events, e.Inside) ↔
      FitsTable instance_ rest := by
  obtain ⟨path, hpath, htokens⟩ := Option.map_eq_some_iff.1 h
  have hhandle : route.handle valueAt instances = some (serviceHandler valueAt instances path) := by
    rw [Route.handle, hpath, Option.map_some]
  have hevents : (∀ events, route.handle valueAt instances = some events → ∀ e ∈ events, e.Inside) ↔
      ∀ e ∈ serviceHandler valueAt instances path, e.Inside := by
    refine ⟨fun hall => hall _ hhandle, fun hall events heq => ?_⟩
    rw [hhandle] at heq
    rwa [← Option.some.inj heq]
  rw [hevents, serviceHandler, htokens]
  cases rest with
  | nil =>
      show (∀ e ∈ (getControlInstance valueAt (atoi instance_) .unwritten).1 ++
        [.sendText okPrebody,
          .sendResponse (getControlInstance valueAt (atoi instance_) .unwritten).2], e.Inside) ↔ _
      rw [FitsTable, ← getControlInstance_inside_iff valueAt (atoi instance_),
        List.forall_mem_append, List.forall_mem_cons, List.forall_mem_singleton]
      exact and_congr_right fun _ => ⟨fun hboth => hboth.2, fun hsent => ⟨trivial, hsent⟩⟩
  | cons value rest =>
      show (∀ e ∈ setControlInstance (atoi instance_) value ++ [.sendText okPrebody], e.Inside) ↔ _
      rw [FitsTable, ← setControlInstance_inside_iff, List.forall_mem_append,
        List.forall_mem_singleton]
      exact and_iff_left trivial

/-- A change of the reverb. -/
def reverbRoute : Route where
  text := "/service/control/3/1".toList
  word := by decide
  length_lt := by decide

/-- The route of the reverb stays inside. -/
theorem reverbRoute_inside : FitsTable "3".toList ["1".toList] ∧
    ∀ events, reverbRoute.handle (fun _ => []) [] = some events → ∀ e ∈ events, e.Inside :=
  ⟨by decide, (serviceHandler_inside_iff (fun _ => []) [] reverbRoute "3".toList ["1".toList]
    (by decide)).2 (by decide)⟩

/-- A negative instance. -/
def negativeRoute : Route where
  text := "/service/control/-1".toList
  word := by decide
  length_lt := by decide

/-- The request reads in front of the table. -/
theorem negativeRoute_outside :
    negativeRoute.path.map (strtok ['/']) = some ["control".toList, "-1".toList] ∧
      ∃ events, negativeRoute.handle (fun _ => []) [] = some events ∧ ∃ e ∈ events, ¬ e.Inside := by
  refine ⟨by decide, [.access (-1), .sendText okPrebody, .sendResponse (.written [])], rfl,
    .access (-1), List.mem_cons_self, ?_⟩
  rintro ⟨hpos, -⟩
  exact absurd hpos (by decide)

end Soundcan.FluidUi
