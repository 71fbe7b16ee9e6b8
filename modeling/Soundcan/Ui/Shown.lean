import Soundcan.Ui.Parameter
import Soundcan.Ui.StartOrder

/-!
# What the sliders show

A slider of the web UI posts its value to one of the two MIDI routes, whose handlers store it with
`parameter.Assign`, and when the page is built again its template looks the value up with
`parameter.ParamValue`. The name it is stored under is put together in `main.go` and the name it is
looked up under in the templates: `serveMqDrawbarMidiCC` agrees with its template, `serveMqMidiCC`
leaves the channel out (`shows_iff`).
-/

namespace Soundcan.Ui

/-! ## Names -/

/-- The name under which the handler of a request stores the value. -/
def Request.assignedName (r : Request) : String :=
  if r.drawbar then r.port ++ "/drawbarmidicc/" ++ r.channel ++ "/" ++ r.control
  else r.port ++ "/midicc/" ++ r.control

/-- What a handler leaves in the variables of the package. It returns before the assignment when the
form does not parse. -/
def Request.serve (r : Request) (v : Vars) : Vars :=
  match r.ccvalue with
  | some ccvalue => v.assign r.assignedName ccvalue
  | none => v

/-- `setbfreecontrol` and `mqmidiccslider`: the name that the template looks up. -/
def setbfreecontrol (queue control : String) : String := queue ++ "/midicc/0/" ++ control

/-- `setbfreedrawbar`: the name that the template looks up. -/
def setbfreedrawbar (queue control : String) : String := queue ++ "/drawbarmidicc/0/" ++ control

/-- A slider: a queue of the system, one of the 16 channels, and a control that is a segment of a
path. -/
structure Slider where
  drawbar : Bool
  queue : String
  channel : Fin 16
  control : String
  queueName : QueueName queue
  segment : '/' ∉ control.toList

namespace Slider

/-- The name that a slider looks up. The templates are instantiated with channel 0 only
(`lookupName_channel_zero`). -/
def lookupName (s : Slider) : String :=
  s.queue ++ (if s.drawbar then "/drawbarmidicc/" else "/midicc/") ++ toString s.channel.val ++
    "/" ++ s.control

/-- The `hx-post` of a slider with a value. -/
def post (s : Slider) (value : String) : Request :=
  ⟨s.drawbar, s.queue, toString s.channel.val, s.control, some value⟩

/-- What the slider shows when the page is built, with the `init` of its template. -/
def shown (s : Slider) (v : Vars) (init : String) : String := v.paramValue s.lookupName init

/-- Sliders without a channel are named by their queue and control. -/
theorem lookupName_channel_zero {s : Slider} (h : s.channel = 0) :
    s.lookupName = if s.drawbar then setbfreedrawbar s.queue s.control
      else setbfreecontrol s.queue s.control := by
  refine String.toList_injective ?_
  cases hkind : s.drawbar <;>
    simp [lookupName, setbfreedrawbar, setbfreecontrol, h, hkind]

/-- The segments of the name. -/
def segments (s : Slider) : List (List Char) :=
  [s.queue.toList, (if s.drawbar then "drawbarmidicc" else "midicc").toList,
    (toString s.channel.val).toList, s.control.toList]

/-! ## The names are different -/

/-- The name is the segments with slashes between them. -/
theorem toList_lookupName (s : Slider) : s.lookupName.toList = ['/'].intercalate s.segments := by
  cases h : s.drawbar <;> simp [lookupName, segments, List.intercalate, h]

/-- A channel is written in digits. -/
theorem slash_notMem_channel : ∀ channel : Fin 16, '/' ∉ (toString channel.val).toList := by
  decide +kernel

/-- No two channels are written alike. -/
theorem toString_channel_injective : ∀ channel channel' : Fin 16,
    (toString channel.val).toList = (toString channel'.val).toList → channel = channel' := by
  decide +kernel

/-- There is no slash inside a segment. -/
theorem slash_notMem_segments (s : Slider) : ∀ segment ∈ s.segments, '/' ∉ segment := by
  simp only [segments, List.forall_mem_cons]
  refine ⟨s.queueName.2.1, ?_, slash_notMem_channel _, s.segment, by simp⟩
  cases s.drawbar <;> decide

/-- The name determines its segments. -/
theorem splitOn_lookupName (s : Slider) : s.lookupName.toList.splitOn '/' = s.segments := by
  rw [toList_lookupName]
  exact List.splitOn_intercalate _ s.slash_notMem_segments (List.cons_ne_nil _ _)

/-- And the segments determine the slider. -/
theorem lookupName_injective : Function.Injective lookupName := by
  intro s t h
  have hsegments : s.segments = t.segments := by
    rw [← splitOn_lookupName, ← splitOn_lookupName, h]
  obtain ⟨sd, sq, sc, sk, _, _⟩ := s
  obtain ⟨td, tq, tc, tk, _, _⟩ := t
  simp only [segments, List.cons.injEq, and_true] at hsegments
  obtain ⟨hqueue, hkind, hchannel, hcontrol⟩ := hsegments
  obtain rfl := String.toList_injective hqueue
  obtain rfl := String.toList_injective hcontrol
  obtain rfl := toString_channel_injective _ _ hchannel
  obtain rfl : sd = td := by
    cases sd <;> cases td
    · rfl
    · simp at hkind
    · simp at hkind
    · rfl
  rfl

/-- A drawbar stores under the name that it looks up. -/
theorem assignedName_drawbar {s : Slider} (h : s.drawbar = true) (value : String) :
    (s.post value).assignedName = s.lookupName := by
  simp [Request.assignedName, post, lookupName, h]

/-- The segments of the name under which the other sliders store. -/
theorem toList_assignedName {s : Slider} (h : s.drawbar = false) (value : String) :
    (s.post value).assignedName.toList =
      ['/'].intercalate [s.queue.toList, "midicc".toList, s.control.toList] := by
  simp [Request.assignedName, post, List.intercalate, h]

/-- No slider looks that name up: it has a segment less. -/
theorem assignedName_ne {s : Slider} (h : s.drawbar = false) (value : String) (t : Slider) :
    t.lookupName ≠ (s.post value).assignedName := by
  intro heq
  have hslash : ∀ segment ∈ [s.queue.toList, "midicc".toList, s.control.toList],
      '/' ∉ segment := by
    simp only [List.forall_mem_cons]
    exact ⟨s.queueName.2.1, by decide, s.segment, by simp⟩
  have hsplit := List.splitOn_intercalate '/' hslash (List.cons_ne_nil _ _)
  rw [← toList_assignedName h value, ← heq, splitOn_lookupName] at hsplit
  simp [segments] at hsplit

end Slider

/-! ## What a post changes -/

/-- A parameter is read off the map, or is the default. -/
theorem Vars.paramValue_eq (v : Vars) (name init : String) :
    v.paramValue name init = (v.heap v.parameters name).getD init := by
  rw [Vars.paramValue]
  cases v.heap v.parameters name <;> rfl

/-- The name has the value afterwards. -/
theorem Vars.paramValue_assign_self (v : Vars) (name value init : String) :
    (v.assign name value).paramValue name init = value := by
  have hheap : (v.assign name value).heap v.parameters name = some value := by
    rw [Vars.assign_heap_self]
    exact Function.update_self _ _ _
  rw [Vars.paramValue_eq]
  exact congrArg (Option.getD · init) hheap

/-- Another name keeps its value. -/
theorem Vars.paramValue_assign_of_ne (v : Vars) {name name' : String} (h : name' ≠ name)
    (value init : String) :
    (v.assign name value).paramValue name' init = v.paramValue name' init := by
  have hheap : (v.assign name value).heap v.parameters name' = v.heap v.parameters name' := by
    rw [Vars.assign_heap_self]
    exact Function.update_of_ne h _ _
  rw [Vars.paramValue_eq, Vars.paramValue_eq]
  exact congrArg (Option.getD · init) hheap

/-- The UI shows what was set, in any state of the parameters: after its post a slider shows the
posted value and every other slider shows what it showed before, exactly when the slider is a
drawbar or showed the posted value already. -/
theorem shows_iff (v : Vars) (s : Slider) (value init : String) :
    (s.shown ((s.post value).serve v) init = value ∧
      ∀ t : Slider, t ≠ s → ∀ init', t.shown ((s.post value).serve v) init' = t.shown v init') ↔
    s.drawbar = true ∨ s.shown v init = value := by
  have hserve : (s.post value).serve v = v.assign (s.post value).assignedName value := rfl
  rw [hserve]
  cases hkind : s.drawbar with
  | true =>
      refine iff_of_true ⟨?_, fun t hne init' => ?_⟩ (.inl rfl)
      · rw [Slider.shown, Slider.assignedName_drawbar hkind, Vars.paramValue_assign_self]
      · rw [Slider.shown, Slider.assignedName_drawbar hkind]
        exact Vars.paramValue_assign_of_ne v (fun h => hne (Slider.lookupName_injective h)) _ _
  | false =>
      -- the stored name is looked up by no slider
      have hsame : ∀ (t : Slider) (init' : String),
          t.shown (v.assign (s.post value).assignedName value) init' = t.shown v init' :=
        fun t init' => Vars.paramValue_assign_of_ne v (Slider.assignedName_ne hkind value t) _ _
      rw [hsame]
      constructor
      · exact fun h => .inr h.1
      · rintro (h | h)
        · cases h
        · exact ⟨h, fun t _ => hsame t⟩

/-- The volume slider of the queue `sfizz`, controller 7. -/
def volumeSlider : Slider where
  drawbar := false
  queue := "sfizz"
  channel := 0
  control := "7"
  queueName := by decide +kernel
  segment := by decide

/-- A volume of 64 that was posted is not shown: the slider shows its `init`. -/
theorem volume_not_shown :
    volumeSlider.lookupName = "sfizz/midicc/0/7" ∧
    (volumeSlider.post "64").assignedName = "sfizz/midicc/7" ∧
    volumeSlider.shown ((volumeSlider.post "64").serve .init) "100" = "100" := by
  decide +kernel

end Soundcan.Ui
