import Soundcan.Galv.Teardown

/-!
# Creating the controls

`create_port` adds a control for each control port that is not hidden. Behind these,
`jalv_create_controls` adds one for each property, in two passes: first for the writable ones, then
for the readable ones, where a property that has a control already is marked there. In the end each
property of a known type has one control, which is writable and readable as the property is
(`openControls_eq`). These are the controls that `jalv_open` counts (`counts_openControls`).

The array of the controls is taken to grow whenever it has to, and a port has a symbol and is no
property.
-/

namespace Soundcan.Galv

/-- The types that `new_property_control` tries as the range of a property, in its order. -/
inductive ValueType where
  | int
  | long
  | float
  | double
  | bool
  | string
  | path
  deriving DecidableEq

def ValueType.all : List ValueType := [.int, .long, .float, .double, .bool, .string, .path]

/-- The node of a control: a port, or a property by its URI. It goes with `type`. -/
inductive ControlNode where
  | port (index : Nat)
  | property (uri : List Char)
  deriving DecidableEq

/-- `ControlID`. -/
structure ControlID where
  node : ControlNode
  symbol : List Char
  valueType : Option ValueType
  isWritable : Bool
  isReadable : Bool
  deriving DecidableEq

namespace ControlID

def setWritable (record : ControlID) : ControlID := { record with isWritable := true }

def setReadable (record : ControlID) : ControlID := { record with isReadable := true }

end ControlID

/-- What the world says about a property of the plugin. -/
structure Parameter where
  uri : List Char
  symbol : List Char
  writable : Bool
  readable : Bool
  ranges : List ValueType

/-- The `value_type` of its control. -/
def Parameter.valueType (property : Parameter) : Option ValueType :=
  ValueType.all.find? (· ∈ property.ranges)

/-- What `jalv_open` needs of it to count its control. -/
def Parameter.toProperty (property : Parameter) : Property where
  uri := property.uri
  writable := property.writable
  readable := property.readable
  valueType := property.valueType.isSome

/-- `new_port_control`. -/
def ControlID.newPortControl (index : Nat) (lilvPort : LilvPort) : ControlID where
  node := .port index
  symbol := lilvPort.symbol.getD []
  valueType := some .float
  isWritable := lilvPort.inputPort
  isReadable := lilvPort.outputPort

/-- `new_property_control`. -/
def newPropertyControl (property : Parameter) : ControlID where
  node := .property property.uri
  symbol := property.symbol
  valueType := property.valueType
  isWritable := false
  isReadable := false

/-- A control port that is not hidden. -/
def LilvPort.shown (showHidden : Bool) (lilvPort : LilvPort) : Bool :=
  let hidden := !showHidden && lilvPort.notOnGui
  lilvPort.controlPort && !hidden

/-- What `jalv_create_ports` does to the controls, from the port `index` on. -/
def createPortControls (showHidden : Bool) (index : Nat) :
    List LilvPort → List ControlID → List ControlID
  | [], controls => controls
  | lilvPort :: ports, controls =>
    createPortControls showHidden (index + 1) ports
      (if lilvPort.shown showHidden then controls ++ [ControlID.newPortControl index lilvPort]
      else controls)

/-- The loop that looks for the control of a property and marks it. -/
def markReadable (node : ControlNode) : List ControlID → Option (List ControlID)
  | [] => none
  | record :: controls =>
    if record.node = node then some (record.setReadable :: controls)
    else (markReadable node controls).map (record :: ·)

/-- The body of the loop of `jalv_create_controls`. -/
def createControl (writable : Bool) (controls : List ControlID) (property : Parameter) :
    List ControlID :=
  match
    if !writable && property.writable then markReadable (.property property.uri) controls
    else none
  with
  | some controls => controls
  | none =>
    let record := newPropertyControl property
    let record := if writable then record.setWritable else record.setReadable
    if record.valueType.isSome then controls ++ [record] else controls

/-- `jalv_create_controls`. -/
def jalvCreateControls (writable : Bool) (properties : List Parameter) (controls : List ControlID) :
    List ControlID :=
  let properties := properties.filter fun property =>
    if writable then property.writable else property.readable
  properties.foldl (createControl writable) controls

/-- The controls of `jalv_open`. -/
def openControls (showHidden : Bool) (ports : List LilvPort) (properties : List Parameter) :
    List ControlID :=
  jalvCreateControls false properties
    (jalvCreateControls true properties (createPortControls showHidden 0 ports []))

/-! ## The controls of the ports -/

/-- The controls that are there stay in front. -/
theorem createPortControls_append (showHidden : Bool) (index : Nat) (ports : List LilvPort)
    (controls : List ControlID) :
    createPortControls showHidden index ports controls =
      controls ++ createPortControls showHidden index ports [] := by
  induction ports generalizing index controls with
  | nil => exact (List.append_nil _).symm
  | cons lilvPort ports ih =>
      rw [createPortControls, createPortControls]
      cases lilvPort.shown showHidden with
      | false => exact ih (index + 1) controls
      | true =>
          rw [if_pos rfl, if_pos rfl, ih, ih (index + 1) ([] ++ _), List.nil_append,
            List.append_assoc]

/-- A port that is shown gives the first control. -/
theorem createPortControls_cons (showHidden : Bool) (index : Nat) (lilvPort : LilvPort)
    (ports : List LilvPort) :
    createPortControls showHidden index (lilvPort :: ports) [] =
      if lilvPort.shown showHidden then
        ControlID.newPortControl index lilvPort ::
          createPortControls showHidden (index + 1) ports []
      else createPortControls showHidden (index + 1) ports [] := by
  rw [createPortControls, createPortControls_append]
  cases lilvPort.shown showHidden <;> rfl

/-- They stand for ports, each for another one. -/
theorem node_createPortControls {showHidden : Bool} {index : Nat} {ports : List LilvPort}
    {node : ControlNode}
    (h : node ∈ (createPortControls showHidden index ports []).map ControlID.node) :
    ∃ i, index ≤ i ∧ node = .port i := by
  induction ports generalizing index with
  | nil => cases h
  | cons lilvPort ports ih =>
      have hrest : node ∈ (createPortControls showHidden (index + 1) ports []).map ControlID.node →
          ∃ i, index ≤ i ∧ node = .port i := fun h => by
        obtain ⟨i, hi, hnode⟩ := ih h
        exact ⟨i, by omega, hnode⟩
      rw [createPortControls_cons] at h
      split at h
      next =>
        obtain heq | h := List.mem_cons.1 h
        · exact ⟨index, le_refl index, heq⟩
        · exact hrest h
      next => exact hrest h

/-- No two port controls have one node. -/
theorem nodup_createPortControls (showHidden : Bool) (index : Nat) (ports : List LilvPort) :
    ((createPortControls showHidden index ports []).map ControlID.node).Nodup := by
  induction ports generalizing index with
  | nil => exact List.nodup_nil
  | cons lilvPort ports ih =>
      rw [createPortControls_cons]
      split
      next =>
        refine List.nodup_cons.2 ⟨fun h => ?_, ih (index + 1)⟩
        obtain ⟨i, hi, hnode⟩ := node_createPortControls h
        obtain rfl : index = i := ControlNode.port.inj hnode
        omega
      next => exact ih (index + 1)

/-! ## The controls of the properties -/

/-- The pass over writable properties adds their controls. -/
theorem foldl_createControl_true (properties : List Parameter) (controls : List ControlID) :
    properties.foldl (createControl true) controls =
      controls ++ (properties.filter fun property => property.valueType.isSome).map fun property =>
        (newPropertyControl property).setWritable := by
  induction properties generalizing controls with
  | nil => exact (List.append_nil _).symm
  | cons property properties ih =>
      have hstep : createControl true controls property =
          if property.valueType.isSome then controls ++ [(newPropertyControl property).setWritable]
          else controls := rfl
      rw [List.foldl_cons, ih, hstep, List.filter_cons]
      cases property.valueType.isSome with
      | false => rfl
      | true =>
          rw [if_pos rfl, if_pos rfl, List.map_cons, List.append_assoc, List.singleton_append]

/-- The mark on the control of a node. -/
def mark (node : ControlNode) (record : ControlID) : ControlID :=
  if record.node = node then record.setReadable else record

@[simp] theorem node_mark (node : ControlNode) (record : ControlID) :
    (mark node record).node = record.node := by
  rw [mark]
  split <;> rfl

@[simp] theorem map_node_mark (node : ControlNode) (controls : List ControlID) :
    (controls.map (mark node)).map ControlID.node = controls.map ControlID.node := by
  rw [List.map_map]
  exact List.map_congr_left fun record _ => node_mark node record

/-- No control of another node is marked. -/
theorem map_mark {node : ControlNode} {controls : List ControlID}
    (h : node ∉ controls.map ControlID.node) : controls.map (mark node) = controls := by
  refine (List.map_congr_left fun record hrecord => ?_).trans (List.map_id controls)
  refine if_neg fun heq => h ?_
  rw [← heq]
  exact List.mem_map_of_mem hrecord

/-- Where each node has one control, it is that one that is marked. -/
theorem markReadable_eq {node : ControlNode} {controls : List ControlID}
    (h : (controls.map ControlID.node).Nodup) :
    markReadable node controls =
      if node ∈ controls.map ControlID.node then some (controls.map (mark node)) else none := by
  induction controls with
  | nil => rfl
  | cons record controls ih =>
      rw [List.map_cons, List.nodup_cons] at h
      rw [markReadable, List.map_cons, List.map_cons, mark]
      by_cases hnode : record.node = node
      · rw [if_pos hnode, if_pos hnode, map_mark (hnode ▸ h.1),
          if_pos (List.mem_cons.2 (.inl hnode.symm))]
      · rw [if_neg hnode, if_neg hnode, ih h.2]
        by_cases hmem : node ∈ controls.map ControlID.node
        · rw [if_pos hmem, if_pos (List.mem_cons_of_mem _ hmem)]
          rfl
        · have hcons : node ∉ record.node :: controls.map ControlID.node := fun h =>
            (List.mem_cons.1 h).elim (fun heq => hnode heq.symm) hmem
          rw [if_neg hmem, if_neg hcons]
          rfl

/-- The search finds a control or not. What does not depend on the mark stays as it is. -/
theorem markReadable_cases (node : ControlNode) (controls : List ControlID) :
    (node ∉ controls.map ControlID.node ∧ markReadable node controls = none) ∨
      (node ∈ controls.map ControlID.node ∧ ∃ controls', markReadable node controls =
        some controls' ∧ ∀ {α : Type} (f : ControlID → α),
          (∀ record, f record.setReadable = f record) → controls'.map f = controls.map f) := by
  induction controls with
  | nil => exact .inl ⟨List.not_mem_nil, rfl⟩
  | cons record controls ih =>
      rw [markReadable, List.map_cons]
      by_cases hnode : record.node = node
      · rw [if_pos hnode]
        refine .inr ⟨List.mem_cons.2 (.inl hnode.symm), _, rfl, fun f hf => ?_⟩
        rw [List.map_cons, List.map_cons, hf]
      · rw [if_neg hnode]
        obtain ⟨hmem, hnone⟩ | ⟨hmem, controls', hsome, hsame⟩ := ih
        · refine .inl ⟨fun h => ?_, by rw [hnone]; rfl⟩
          exact (List.mem_cons.1 h).elim (fun heq => hnode heq.symm) hmem
        · refine .inr ⟨List.mem_cons_of_mem _ hmem, record :: controls', by rw [hsome]; rfl,
            fun f hf => ?_⟩
          rw [List.map_cons, List.map_cons, hsame f hf]

/-- The marks of a pass over readable properties. -/
def marks (properties : List Parameter) (record : ControlID) : ControlID :=
  if properties.any fun property => property.writable && record.node = .property property.uri then
    record.setReadable
  else record

/-- A writable property marks the records that have it. -/
theorem marks_cons {property : Parameter} {properties : List Parameter} {record : ControlID}
    (h : property.writable = true) :
    marks (property :: properties) record =
      marks properties (mark (.property property.uri) record) := by
  rw [marks, marks, List.any_cons, h, Bool.true_and, node_mark, mark]
  by_cases hnode : record.node = .property property.uri
  · rw [if_pos hnode, decide_eq_true hnode, Bool.true_or, if_pos rfl]
    split <;> rfl
  · rw [if_neg hnode, decide_eq_false hnode, Bool.false_or]

/-- A property marks no record of another node. -/
theorem marks_cons_of_ne {property : Parameter} {properties : List Parameter} {record : ControlID}
    (h : record.node ≠ .property property.uri) :
    marks (property :: properties) record = marks properties record := by
  rw [marks, marks, List.any_cons, decide_eq_false h, Bool.and_false, Bool.false_or]

/-- No control of another node is marked. -/
theorem marks_of_ne {properties : List Parameter} {record : ControlID}
    (h : ∀ property ∈ properties, record.node ≠ .property property.uri) :
    marks properties record = record := by
  refine if_neg fun hany => ?_
  obtain ⟨property, hproperty, hany⟩ := List.any_eq_true.1 hany
  exact h property hproperty (of_decide_eq_true (Bool.and_eq_true_iff.1 hany).2)

/-- The second pass at a property, whose control is there or not. -/
theorem createControl_false {property : Parameter} {controls : List ControlID}
    (hnodes : (controls.map ControlID.node).Nodup)
    (hfound : .property property.uri ∈ controls.map ControlID.node → property.writable = true) :
    createControl false controls property =
      if .property property.uri ∈ controls.map ControlID.node then
        controls.map (mark (.property property.uri))
      else if property.valueType.isSome then
        controls ++ [(newPropertyControl property).setReadable]
      else controls := by
  rw [createControl, markReadable_eq hnodes]
  by_cases hmem : .property property.uri ∈ controls.map ControlID.node
  · rw [if_pos hmem, if_pos hmem, hfound hmem]
    rfl
  · rw [if_neg hmem, if_neg hmem, ite_self]
    rfl

/-- A control of another node may be added. -/
theorem nodup_concat_control {controls : List ControlID} {record : ControlID}
    (hnodes : (controls.map ControlID.node).Nodup)
    (hnew : record.node ∉ controls.map ControlID.node) :
    ((controls ++ [record]).map ControlID.node).Nodup := by
  rw [List.map_append, List.map_singleton, List.nodup_append]
  refine ⟨hnodes, List.nodup_singleton _, fun a ha b hb heq => hnew ?_⟩
  rwa [← List.mem_singleton.1 hb, ← heq]

/-- The pass over readable properties marks the controls of those that have one, and adds one for
each other. -/
theorem foldl_createControl_false {properties : List Parameter} {controls : List ControlID}
    (hnodes : (controls.map ControlID.node).Nodup)
    (huris : (properties.map Parameter.uri).Nodup)
    (hfound : ∀ property ∈ properties,
      .property property.uri ∈ controls.map ControlID.node ↔
        property.writable = true ∧ property.valueType.isSome = true) :
    properties.foldl (createControl false) controls =
      controls.map (marks properties) ++
      (properties.filter fun property => !property.writable && property.valueType.isSome).map
        fun property => (newPropertyControl property).setReadable := by
  induction properties generalizing controls with
  | nil =>
      rw [List.foldl_nil, List.filter_nil, List.map_nil, List.append_nil]
      exact (List.map_id controls).symm
  | cons property properties ih =>
      rw [List.forall_mem_cons] at hfound
      rw [List.map_cons, List.nodup_cons] at huris
      rw [List.foldl_cons, createControl_false hnodes fun h => (hfound.1.1 h).1]
      by_cases hmem : .property property.uri ∈ controls.map ControlID.node
      · -- its control is marked
        have hwritable := (hfound.1.1 hmem).1
        have hcontrols : controls.map (marks (property :: properties)) =
            (controls.map (mark (.property property.uri))).map (marks properties) := by
          rw [List.map_map]
          exact List.map_congr_left fun record _ => marks_cons hwritable
        rw [if_pos hmem, ih (by rwa [map_node_mark]) huris.2 (by simpa using hfound.2), hcontrols,
          List.filter_cons_of_neg (by simp [hwritable])]
      · have hcontrols : controls.map (marks (property :: properties)) =
            controls.map (marks properties) :=
          List.map_congr_left fun record hrecord =>
            marks_cons_of_ne fun heq => hmem (heq ▸ List.mem_map_of_mem hrecord)
        rw [if_neg hmem, hcontrols]
        cases htype : property.valueType.isSome with
        | false =>
            rw [if_neg Bool.false_ne_true, ih hnodes huris.2 hfound.2,
              List.filter_cons_of_neg (by simp [htype])]
        | true =>
            -- a control is added, and none of the later properties is the one of this control
            have hwritable : property.writable = false := by
              rw [← Bool.not_eq_true]
              exact fun h => hmem (hfound.1.2 ⟨h, htype⟩)
            have hne : ∀ other ∈ properties, property.uri ≠ other.uri := fun other hother heq =>
              huris.1 (heq ▸ List.mem_map_of_mem hother)
            have hself : marks properties (newPropertyControl property).setReadable =
                (newPropertyControl property).setReadable :=
              marks_of_ne fun other hother h => hne other hother (ControlNode.property.inj h)
            have hnode : (newPropertyControl property).setReadable.node = .property property.uri :=
              rfl
            have hfound' : ∀ other ∈ properties,
                .property other.uri ∈ (controls ++ [(newPropertyControl property).setReadable]).map
                  ControlID.node ↔
                other.writable = true ∧ other.valueType.isSome = true := by
              intro other hother
              rw [← hfound.2 other hother, List.map_append, List.map_singleton, hnode,
                List.mem_append, List.mem_singleton, or_iff_left]
              exact fun heq => hne other hother (ControlNode.property.inj heq).symm
            rw [if_pos rfl, ih (nodup_concat_control hnodes hmem) huris.2 hfound', List.map_append,
              List.map_singleton, hself, List.filter_cons_of_pos (by simp [hwritable, htype]),
              List.map_cons, List.append_assoc, List.singleton_append]

/-- The control of a property in the end. -/
def propertyControl (property : Parameter) : ControlID :=
  { newPropertyControl property with
    isWritable := property.writable
    isReadable := property.readable }

/-- The marks of the second pass on the control of a writable property. -/
theorem marks_setWritable {properties : List Parameter}
    (huris : (properties.map Parameter.uri).Nodup) {property : Parameter}
    (hproperty : property ∈ properties) (hwritable : property.writable = true) :
    marks (properties.filter fun property => property.readable)
        (newPropertyControl property).setWritable = propertyControl property := by
  have hmem : (properties.filter fun property => property.readable).any (fun other =>
      other.writable && (newPropertyControl property).setWritable.node = .property other.uri) =
      property.readable := by
    rw [Bool.eq_iff_iff, List.any_eq_true]
    constructor
    · rintro ⟨other, hother, h⟩
      obtain ⟨hother, hreadable⟩ := List.mem_filter.1 hother
      have huri : property.uri = other.uri :=
        ControlNode.property.inj (of_decide_eq_true (Bool.and_eq_true_iff.1 h).2)
      rwa [List.inj_on_of_nodup_map huris hproperty hother huri]
    · intro hreadable
      exact ⟨property, List.mem_filter.2 ⟨hproperty, hreadable⟩, by
        rw [hwritable, Bool.true_and]
        exact decide_eq_true rfl⟩
  rw [marks, hmem, propertyControl, hwritable]
  cases property.readable <;> rfl

/-- What the first pass leaves. -/
theorem jalvCreateControls_true (properties : List Parameter) (controls : List ControlID) :
    jalvCreateControls true properties controls =
      controls ++ (properties.filter fun property =>
        property.writable && property.valueType.isSome).map fun property =>
          (newPropertyControl property).setWritable := by
  rw [jalvCreateControls, foldl_createControl_true, List.filter_filter]
  simp only [if_true, Bool.and_comm]

/-- The properties of its controls. -/
theorem node_jalvCreateControls_true {properties : List Parameter} {showHidden : Bool}
    {ports : List LilvPort} {uri : List Char} :
    .property uri ∈ (jalvCreateControls true properties
        (createPortControls showHidden 0 ports [])).map ControlID.node ↔
      ∃ property ∈ properties, (property.writable = true ∧ property.valueType.isSome = true) ∧
        property.uri = uri := by
  rw [jalvCreateControls_true, List.map_append, List.mem_append]
  constructor
  · rintro (h | h)
    · obtain ⟨i, -, hi⟩ := node_createPortControls h
      cases hi
    · obtain ⟨record, hrecord, hnode⟩ := List.mem_map.1 h
      obtain ⟨property, hproperty, rfl⟩ := List.mem_map.1 hrecord
      obtain ⟨hproperty, hkeep⟩ := List.mem_filter.1 hproperty
      exact ⟨property, hproperty, Bool.and_eq_true_iff.1 hkeep, ControlNode.property.inj hnode⟩
  · rintro ⟨property, hproperty, hkeep, rfl⟩
    exact .inr (List.mem_map.2 ⟨_, List.mem_map.2 ⟨property,
      List.mem_filter.2 ⟨hproperty, Bool.and_eq_true_iff.2 hkeep⟩, rfl⟩, rfl⟩)

/-- No two records have one node behind the first pass. -/
theorem nodup_jalvCreateControls_true {properties : List Parameter}
    (huris : (properties.map Parameter.uri).Nodup) (showHidden : Bool) (ports : List LilvPort) :
    ((jalvCreateControls true properties
      (createPortControls showHidden 0 ports [])).map ControlID.node).Nodup := by
  rw [jalvCreateControls_true, List.map_append, List.map_map, List.nodup_append]
  refine ⟨nodup_createPortControls showHidden 0 ports, ?_, ?_⟩
  · have hnodes := (huris.sublist ((List.filter_sublist (p := fun property : Parameter =>
      property.writable && property.valueType.isSome)).map Parameter.uri)).map
        (f := ControlNode.property) fun _ _ h => ControlNode.property.inj h
    rwa [List.map_map] at hnodes
  · intro node hnode other hother heq
    obtain ⟨i, -, rfl⟩ := node_createPortControls hnode
    obtain ⟨property, -, rfl⟩ := List.mem_map.1 hother
    cases heq

/-- So the second pass finds a control for a property that is writable and of a known type. -/
theorem found_jalvCreateControls_true {properties : List Parameter}
    (huris : (properties.map Parameter.uri).Nodup) {showHidden : Bool} {ports : List LilvPort}
    {property : Parameter} (hproperty : property ∈ properties) :
    .property property.uri ∈ (jalvCreateControls true properties
        (createPortControls showHidden 0 ports [])).map ControlID.node ↔
      property.writable = true ∧ property.valueType.isSome = true := by
  rw [node_jalvCreateControls_true]
  constructor
  · rintro ⟨other, hother, hkeep, huri⟩
    rwa [List.inj_on_of_nodup_map huris hother hproperty huri] at hkeep
  · exact fun hkeep => ⟨property, hproperty, hkeep, rfl⟩

/-- It leaves the controls of the ports as they are. -/
theorem map_marks_createPortControls (properties : List Parameter) (showHidden : Bool)
    (index : Nat) (ports : List LilvPort) :
    (createPortControls showHidden index ports []).map (marks properties) =
      createPortControls showHidden index ports [] := by
  refine (List.map_congr_left fun record hrecord => ?_).trans (List.map_id _)
  refine marks_of_ne fun property _ h => ?_
  obtain ⟨i, -, hi⟩ := node_createPortControls (List.mem_map_of_mem hrecord)
  rw [hi] at h
  cases h

/-- What it adds. -/
theorem map_setReadable (properties : List Parameter) :
    ((properties.filter fun property => property.readable).filter fun property =>
        !property.writable && property.valueType.isSome).map
          (fun property => (newPropertyControl property).setReadable) =
      (properties.filter fun property =>
        property.readable && !property.writable && property.valueType.isSome).map
          propertyControl := by
  have hkeep : ∀ property ∈ properties,
      ((!property.writable && property.valueType.isSome) && property.readable) =
        (property.readable && !property.writable && property.valueType.isSome) :=
    fun property _ => by rw [Bool.and_comm, Bool.and_assoc]
  rw [List.filter_filter, List.filter_congr hkeep]
  refine List.map_congr_left fun property hproperty => ?_
  obtain ⟨hkeep, -⟩ := Bool.and_eq_true_iff.1 (List.mem_filter.1 hproperty).2
  obtain ⟨hreadable, hwritable⟩ := Bool.and_eq_true_iff.1 hkeep
  have hwritable : property.writable = false := by simpa using hwritable
  rw [propertyControl, hreadable, hwritable]
  rfl

/-- The controls of `jalv_open`: those of the ports, and one for each property of a known type that
is writable or readable, first for the writable ones. -/
theorem openControls_eq (showHidden : Bool) (ports : List LilvPort) {properties : List Parameter}
    (huris : (properties.map Parameter.uri).Nodup) :
    openControls showHidden ports properties =
      createPortControls showHidden 0 ports [] ++
      ((properties.filter fun property => property.writable && property.valueType.isSome).map
          propertyControl ++
        (properties.filter fun property =>
          property.readable && !property.writable && property.valueType.isSome).map
            propertyControl) := by
  have hwritable : ((properties.filter fun property =>
      property.writable && property.valueType.isSome).map fun property =>
        (newPropertyControl property).setWritable).map
          (marks (properties.filter fun property => property.readable)) =
      (properties.filter fun property => property.writable && property.valueType.isSome).map
        propertyControl := by
    rw [List.map_map]
    refine List.map_congr_left fun property hproperty => ?_
    obtain ⟨hproperty, hkeep⟩ := List.mem_filter.1 hproperty
    exact marks_setWritable huris hproperty (Bool.and_eq_true_iff.1 hkeep).1
  rw [openControls, jalvCreateControls]
  simp only [if_false, Bool.false_eq_true]
  rw [foldl_createControl_false (nodup_jalvCreateControls_true huris showHidden ports)
    (huris.sublist (List.filter_sublist.map Parameter.uri))
    fun property hproperty => found_jalvCreateControls_true huris (List.mem_filter.1 hproperty).1]
  rw [jalvCreateControls_true, List.map_append, map_marks_createPortControls, hwritable,
    map_setReadable, List.append_assoc]

/-- A port that is shown and one that is hidden, a property that is writable and readable, one that
is only readable, and one of an unknown type. -/
theorem openControls_gain :
    let port (symbol : List Char) (notOnGui : Bool) : LilvPort :=
      { inputPort := true, outputPort := false, controlPort := true, audioPort := false,
        cvPort := false, atomPort := false, connectionOptional := false, symbol := some symbol,
        name := none, minimumSize := none, reportsLatency := false, notOnGui, designations := [],
        supportsMidi := false }
    let properties : List Parameter :=
      [⟨"urn:peak".toList, "peak".toList, false, true, [.float]⟩,
        ⟨"urn:gain".toList, "gain".toList, true, true, [.path, .int]⟩,
        ⟨"urn:file".toList, "file".toList, true, false, []⟩]
    (openControls false [port "on".toList false, port "mix".toList true] properties).map
        (fun record => (record.node, record.valueType, record.isWritable, record.isReadable)) =
      [(.port 0, some .float, true, false),
        (.property "urn:gain".toList, some .int, true, true),
        (.property "urn:peak".toList, some .float, false, true)] := by
  intro port properties
  rw [openControls_eq false _ (by decide)]
  rfl

/-! ## The controls that are counted -/

/-- `jalv_open` counts these controls, and knows their properties. -/
structure Counts (jalv : Jalv) (controls : List ControlID) : Prop where
  numControls : jalv.numControls = controls.length
  properties : ∀ uri, uri ∈ jalv.properties ↔ .property uri ∈ controls.map ControlID.node

/-- Adding a control does not change what is shown. -/
theorem showHidden_addControl (malloc : Nat → Bool) (jalv : Jalv) :
    (jalv.addControl malloc).2.showHidden = jalv.showHidden := by
  rw [Jalv.addControl]
  split <;> rfl

namespace Counts

variable {w : Launch} {jalv jalv' : Jalv} {controls : List ControlID}

/-- A new control of a port. -/
theorem addPortControl (hmalloc : ∀ n, w.malloc n = true) (h : Counts jalv controls) (index : Nat)
    (lilvPort : LilvPort) :
    Counts (jalv.addControl w.malloc).2
      (controls ++ [ControlID.newPortControl index lilvPort]) := by
  rw [Jalv.addControl, if_pos (hmalloc _)]
  refine ⟨by rw [List.length_append, ← h.numControls]; rfl, fun uri => ?_⟩
  refine (h.properties uri).trans ?_
  rw [List.map_append, List.mem_append]
  exact (or_iff_left (by simp [ControlID.newPortControl])).symm

/-- A port that is created is counted if it is shown. -/
theorem createPort (hmalloc : ∀ n, w.malloc n = true) (h : Counts jalv controls) {i : Nat}
    {lilvPort : LilvPort} (hcreate : jalv.createPort w i lilvPort = .ok jalv') :
    Counts jalv' (if lilvPort.shown jalv.showHidden then
        controls ++ [ControlID.newPortControl i lilvPort]
      else controls) ∧ jalv'.showHidden = jalv.showHidden := by
  have hmem : ∀ mem, Counts { jalv with mem } controls := fun mem => ⟨h.numControls, h.properties⟩
  have hshown : (lilvPort.controlPort && !(!jalv.showHidden && lilvPort.notOnGui)) =
      lilvPort.shown jalv.showHidden := rfl
  rw [Jalv.createPort] at hcreate
  split at hcreate
  next => cases hcreate
  next port _ =>
    simp only [hshown] at hcreate
    cases hport : lilvPort.shown jalv.showHidden with
    | false =>
        rw [hport, if_neg Bool.false_ne_true] at hcreate
        rw [if_neg Bool.false_ne_true, ← Except.ok.inj hcreate]
        exact ⟨hmem _, rfl⟩
    | true =>
        rw [hport, if_pos rfl] at hcreate
        rw [if_pos rfl, ← Except.ok.inj hcreate]
        exact ⟨(hmem _).addPortControl hmalloc i lilvPort, showHidden_addControl _ _⟩

/-- The ports that are shown are counted, by induction on the list. -/
theorem createPorts (hmalloc : ∀ n, w.malloc n = true) (h : Counts jalv controls) {i : Nat}
    {ports : List LilvPort} (hcreate : Jalv.createPorts w i ports jalv = .ok jalv') :
    Counts jalv' (createPortControls jalv.showHidden i ports controls) := by
  induction ports generalizing jalv i controls with
  | nil =>
      obtain rfl : jalv = jalv' := Except.ok.inj hcreate
      exact h
  | cons lilvPort ports ih =>
      obtain ⟨jalv₁, hfirst, hrest⟩ : ∃ jalv₁, jalv.createPort w i lilvPort = .ok jalv₁ ∧
          Jalv.createPorts w (i + 1) ports jalv₁ = .ok jalv' := by
        rw [Jalv.createPorts] at hcreate
        cases hfirst : jalv.createPort w i lilvPort with
        | error e =>
            rw [hfirst] at hcreate
            cases hcreate
        | ok jalv₁ =>
            rw [hfirst] at hcreate
            exact ⟨jalv₁, rfl, hcreate⟩
      obtain ⟨hcounts, hhidden⟩ := h.createPort hmalloc hfirst
      rw [createPortControls, ← hhidden]
      rw [← hhidden] at hcounts
      exact ih hcounts hrest

/-- A new control of a property. -/
theorem addPropertyControl (hmalloc : ∀ n, w.malloc n = true) (h : Counts jalv controls)
    {property : Parameter} {record : ControlID} (hnode : record.node = .property property.uri) :
    Counts (let (added, jalv) := jalv.addControl w.malloc
      if added then { jalv with properties := property.uri :: jalv.properties } else jalv)
      (controls ++ [record]) := by
  rw [Jalv.addControl, if_pos (hmalloc _)]
  refine ⟨by rw [List.length_append, ← h.numControls]; rfl, fun uri => ?_⟩
  rw [List.map_append, List.mem_append, List.map_singleton, List.mem_singleton, hnode,
    ← h.properties uri]
  refine List.mem_cons.trans (or_comm.trans (or_congr_right ?_))
  exact ⟨fun heq => congrArg ControlNode.property heq, ControlNode.property.inj⟩

/-- A property of one pass. -/
theorem createControl (hmalloc : ∀ n, w.malloc n = true) (h : Counts jalv controls)
    (writable : Bool) (property : Parameter) :
    Counts
      (if !(!writable && property.writable && jalv.properties.contains property.uri) &&
          property.valueType.isSome then
        let (added, jalv) := jalv.addControl w.malloc
        if added then { jalv with properties := property.uri :: jalv.properties } else jalv
      else jalv)
      (createControl writable controls property) := by
  -- the control is new, if the property has one
  have hnew : ∀ record : ControlID, record.node = .property property.uri →
      Counts
        (if property.valueType.isSome then
          let (added, jalv) := jalv.addControl w.malloc
          if added then { jalv with properties := property.uri :: jalv.properties } else jalv
        else jalv)
        (if property.valueType.isSome then controls ++ [record] else controls) := by
    intro record hnode
    split
    next => exact h.addPropertyControl hmalloc hnode
    next => exact h
  have hrecord : ∀ record, record = (if writable then (newPropertyControl property).setWritable
      else (newPropertyControl property).setReadable) →
      record.node = .property property.uri ∧ record.valueType = property.valueType := by
    rintro _ rfl
    split <;> exact ⟨rfl, rfl⟩
  obtain ⟨hnode, htype⟩ := hrecord _ rfl
  rw [Galv.createControl]
  cases hsearch : !writable && property.writable with
  | false =>
      simp only [Bool.false_eq_true, if_false, Bool.false_and, Bool.not_false, Bool.true_and, htype]
      exact hnew _ hnode
  | true =>
      have hcontains : jalv.properties.contains property.uri =
          decide (.property property.uri ∈ controls.map ControlID.node) := by
        rw [List.contains_eq_mem]
        exact decide_eq_decide.2 (h.properties property.uri)
      rw [if_pos rfl, Bool.true_and, hcontains]
      obtain ⟨hmem, hnone⟩ | ⟨hmem, controls', hsome, hsame⟩ :=
        markReadable_cases (.property property.uri) controls
      · rw [decide_eq_false hmem, hnone]
        simp only [Bool.not_false, Bool.true_and, htype]
        exact hnew _ hnode
      · rw [decide_eq_true hmem, hsome]
        have hnodes := hsame ControlID.node fun _ => rfl
        have hlength := congrArg List.length hnodes
        rw [List.length_map, List.length_map] at hlength
        exact ⟨h.numControls.trans hlength.symm, fun uri => hnodes ▸ h.properties uri⟩

/-- One pass. -/
theorem createControls (hmalloc : ∀ n, w.malloc n = true) (h : Counts jalv controls)
    (writable : Bool) (properties : List Parameter) :
    Counts (Jalv.createControls w writable (properties.map Parameter.toProperty) jalv)
      (jalvCreateControls writable properties controls) := by
  induction properties generalizing jalv controls with
  | nil => exact h
  | cons property properties ih =>
      have hstep : Jalv.createControls w writable
          ((property :: properties).map Parameter.toProperty) jalv =
          if (if writable then property.writable else property.readable) &&
              !(!writable && property.writable && jalv.properties.contains property.uri) &&
              property.valueType.isSome then
            Jalv.createControls w writable (properties.map Parameter.toProperty)
              (let (added, jalv) := jalv.addControl w.malloc
               if added then { jalv with properties := property.uri :: jalv.properties } else jalv)
          else Jalv.createControls w writable (properties.map Parameter.toProperty) jalv := rfl
      rw [hstep, jalvCreateControls, List.filter_cons]
      cases hlisted : if writable then property.writable else property.readable with
      | false => exact ih h
      | true =>
          rw [Bool.true_and, if_pos rfl, List.foldl_cons, ← apply_ite]
          exact ih (h.createControl hmalloc writable property)

end Counts

/-- After both passes `jalv_open` has counted the controls, so that `jalv_close` releases each of
them. -/
theorem counts_openControls {w : Launch} (hmalloc : ∀ n, w.malloc n = true) {plugin : LilvPlugin}
    {properties : List Parameter}
    (hplugin : plugin.properties = properties.map Parameter.toProperty)
    {jalv jalv' : Jalv} (hnumControls : jalv.numControls = 0) (hproperties : jalv.properties = [])
    (h : jalv.jalvCreatePorts w plugin = .ok jalv') :
    Counts ((jalv'.createControls w true plugin.properties).createControls w false
      plugin.properties) (openControls jalv.showHidden plugin.ports properties) := by
  have hstart : ∀ mem numPorts, Counts { jalv with mem, numPorts } [] := fun mem numPorts =>
    ⟨hnumControls, fun uri => by
      rw [hproperties]
      exact iff_of_false List.not_mem_nil List.not_mem_nil⟩
  rw [hplugin]
  exact (((hstart _ _).createPorts hmalloc h).createControls hmalloc true properties).createControls
    hmalloc false properties

end Soundcan.Galv
