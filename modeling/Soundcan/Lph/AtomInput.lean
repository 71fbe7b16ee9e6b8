import Soundcan.Lib.Transition
import Soundcan.Lph.Ports

/-!
# What an `ATOM_INPUT` port shows the plugin

`pre_run_atom_input` copies a greedy selection of the pod's MIDI controls (`stored`) into the atom
buffer: each control that passes the filters and still fits is appended, the others are skipped.
The buffer is kept from cycle to cycle, and only a cycle that dequeues a buffer clears it, so what
the plugin sees over a run of cycles (`onProcessInput`) depends on the last dequeued pod.
-/

namespace Soundcan.Lph

open Bytes Lv2

/-! ## The selection -/

/-- A control that the loop stores behind events of `used` bytes. -/
def Storable (used : Nat) (c : SpaPodControl) : Prop :=
  c.type = spaControlMidi ∧ c.data0 ≠ 0xf8 ∧ 16 + used + (16 + c.body.length) ≤ 8192

instance (used : Nat) (c : SpaPodControl) : Decidable (Storable used c) :=
  inferInstanceAs (Decidable (_ ∧ _ ∧ _))

/-- The controls the loop stores, behind events of `used` bytes. -/
def stored : Nat → List SpaPodControl → List SpaPodControl
  | _, [] => []
  | used, c :: cs =>
    if Storable used c then c :: stored (used + (16 + pad8 c.body.length)) cs else stored used cs

/-- What is stored are some of the controls, in their order. -/
theorem stored_sublist (used : Nat) (cs : List SpaPodControl) : (stored used cs).Sublist cs := by
  induction cs generalizing used with
  | nil => exact .slnil
  | cons c cs ih =>
      rw [stored]
      split
      · exact (ih _).cons_cons c
      · exact (ih _).cons c

/-- In an empty buffer the first control that could be stored is stored. -/
theorem stored_zero_eq_nil {cs : List SpaPodControl} :
    stored 0 cs = [] ↔ ∀ c ∈ cs, ¬Storable 0 c := by
  induction cs with
  | nil => simp [stored]
  | cons c cs ih =>
      rw [stored, List.forall_mem_cons, ← ih]
      split
      next h => simp [h]
      next h => simp [h]

/-- The bytes that events of the given controls take. -/
def spanControls (cs : List SpaPodControl) : Nat := (cs.map fun c => 16 + pad8 c.body.length).sum

/-- Where there is room for all controls, the MIDI controls are stored, but for timing clocks. -/
theorem stored_of_room {used : Nat} {cs : List SpaPodControl}
    (hfit : 16 + used + spanControls cs ≤ 8192) :
    stored used cs = cs.filter fun c => c.type = spaControlMidi ∧ c.data0 ≠ 0xf8 := by
  induction cs generalizing used with
  | nil => rfl
  | cons c cs ih =>
      have hpad := le_pad8 c.body.length
      rw [spanControls, List.map_cons, List.sum_cons, ← spanControls] at hfit
      rw [stored]
      by_cases hc : c.type = spaControlMidi ∧ c.data0 ≠ 0xf8
      · have hstorable : Storable used c := ⟨hc.1, hc.2, by omega⟩
        rw [if_pos hstorable, ih (by omega), List.filter_cons_of_pos (by simpa using hc)]
      · rw [if_neg fun h => hc ⟨h.1, h.2.1⟩, ih (by omega),
          List.filter_cons_of_neg (by simpa using hc)]

/-! ## The loop stores the selection -/

section Loop
variable (constants : Constants) (frame : Nat) (denom : ℕ+)

/-- Stored events take the bytes that the selection counts. -/
@[simp] theorem span_controlEvent (c : SpaPodControl) :
    (controlEvent constants frame denom c).span = 16 + pad8 c.body.length := rfl

@[simp] theorem body_controlEvent (c : SpaPodControl) :
    (controlEvent constants frame denom c).body = c.body := rfl

/-- The fields of a stored event fit their words. -/
theorem fits_controlEvent {used : Nat} {c : SpaPodControl} (h : Storable used c) :
    (controlEvent constants frame denom c).Fits where
  frames := lt_of_le_of_lt (Nat.div_le_self _ _) (Nat.mod_lt _ (by norm_num))
  type := constants.midiMidiEvent_lt
  size := by
    have := h.2.2
    simp only [body_controlEvent]
    omega

/-- A control that can be stored is appended to the sequence. -/
theorem preRunControl_of_storable {b : Block} {evs : List AtomEvent} {c : SpaPodControl}
    (h : IsSequence b evs) (hb : b.size = 8192) (hc : Storable (spanAll evs) c) :
    ∃ b', preRunControl constants frame denom (b, spanAll evs) c =
        some (b', spanAll evs + (16 + pad8 c.body.length)) ∧
      IsSequence b' (evs ++ [controlEvent constants frame denom c]) ∧ b'.size = 8192 := by
  obtain ⟨htype, hdata, hfit⟩ := id hc
  have hle := pad8_lt c.body.length
  have hmod := spanAll_mod evs
  have hpmod := pad8_mod c.body.length
  have hroom : wordSub 8 (8192 - 8) (8 + spanAll evs) = 8184 - (8 + spanAll evs) :=
    wordSub_eq (by omega) (by norm_num)
  have hpad : atomPadSize (16 + c.body.length) = 16 + pad8 c.body.length := by
    rw [atomPadSize_eq (by omega), pad8_header]
  refine ⟨_, ?_, h.append (fits_controlEvent constants frame denom hc) ?_, hb⟩
  · rw [preRunControl, if_neg (not_not_intro htype), if_neg hdata, h.size]
    simp only [sizeofAtom, sizeofAtomEvent, sizeofAtomSequence, hroom, hpad, Option.bind_eq_bind,
      Option.bind_some]
    rw [if_pos (by omega), writeEvent_eq (by simp only [body_controlEvent]; omega),
      Option.bind_some, Block.storeWord_eq (by simp only [Block.size_put]; omega)]
    rfl
  · rw [span_controlEvent]
    omega

/-- Any other control leaves the buffer as it is. -/
theorem preRunControl_of_not_storable {b : Block} {evs : List AtomEvent} {c : SpaPodControl}
    (h : IsSequence b evs) (hb : b.size = 8192) (hc : ¬Storable (spanAll evs) c) :
    preRunControl constants frame denom (b, spanAll evs) c = some (b, spanAll evs) := by
  have hbound := h.bound
  have hroom : wordSub 8 (8192 - 8) (8 + spanAll evs) = 8184 - (8 + spanAll evs) :=
    wordSub_eq (by omega) (by norm_num)
  rw [preRunControl]
  by_cases htype : c.type = spaControlMidi
  · by_cases hdata : c.data0 = 0xf8
    · rw [if_neg (not_not_intro htype), if_pos hdata]
    · have hfit : ¬16 + spanAll evs + (16 + c.body.length) ≤ 8192 :=
        fun hle => hc ⟨htype, hdata, hle⟩
      rw [if_neg (not_not_intro htype), if_neg hdata, h.size]
      simp only [sizeofAtom, sizeofAtomEvent, hroom, Option.bind_eq_bind, Option.bind_some]
      rw [if_neg (by omega)]
      rfl
  · rw [if_pos htype]

/-- The loop appends the events of the selection. -/
theorem foldlM_preRunControl (cs : List SpaPodControl) {b : Block} {evs : List AtomEvent}
    (h : IsSequence b evs) (hb : b.size = 8192) :
    ∃ b' off, cs.foldlM (preRunControl constants frame denom) (b, spanAll evs) = some (b', off) ∧
      IsSequence b' (evs ++ (stored (spanAll evs) cs).map (controlEvent constants frame denom)) ∧
      b'.size = 8192 := by
  induction cs generalizing b evs with
  | nil => exact ⟨b, _, rfl, by simpa [stored] using h, hb⟩
  | cons c cs ih =>
      rw [List.foldlM_cons, stored]
      by_cases hc : Storable (spanAll evs) c
      · obtain ⟨b₁, hstep, h₁, hb₁⟩ := preRunControl_of_storable constants frame denom h hb hc
        obtain ⟨b', off, hfold, h', hb'⟩ := ih h₁ hb₁
        rw [spanAll_append, spanAll_cons, span_controlEvent, spanAll_nil, Nat.add_zero]
          at hfold h'
        refine ⟨b', off, ?_, ?_, hb'⟩
        · rw [hstep]
          exact hfold
        · rw [if_pos hc, List.map_cons]
          simpa using h'
      · obtain ⟨b', off, hfold, h', hb'⟩ := ih h hb
        refine ⟨b', off, ?_, ?_, hb'⟩
        · rw [preRunControl_of_not_storable constants frame denom h hb hc]
          exact hfold
        · rw [if_neg hc]
          exact h'

end Loop

/-- The controls of the sequence in a pod; none when it has no sequence. -/
def SpaPod.controls : SpaPod → List SpaPodControl
  | .none | .other => []
  | .sequence controls => controls

/-- The controls of a buffer are those that a reader finds in it. -/
theorem PwBuffer.controls_pod (q : PwBuffer) : q.pod.controls = q.read := by
  rw [PwBuffer.pod, PwBuffer.read]
  split <;> rfl

/-- A cycle that dequeues a pod shows the plugin the selection of its controls. -/
theorem preRunAtomInput_some (constants : Constants) {this : AtomInputPort} (pod : SpaPod)
    (frame : Nat) (denom : ℕ+) (hb : this.buffer.size = 8192) :
    ∃ this', preRunAtomInput constants this (some pod) frame denom = some this' ∧
      IsSequence this'.buffer ((stored 0 pod.controls).map (controlEvent constants frame denom)) ∧
      this'.buffer.size = 8192 := by
  have hs : (this.buffer.put 0 (leBytes 4 (8192 - 8))).size = 8192 := hb
  obtain ⟨b, hclear, hseq, hsize⟩ :=
    sequenceClear_spec (b := this.buffer.put 0 (leBytes 4 (8192 - 8))) (by omega)
      (by rw [hs]; norm_num)
  rw [hs] at hsize
  simp only [preRunAtomInput, sizeofAtom, Option.bind_eq_bind]
  rw [Block.storeWord_eq (by omega), Option.bind_some, hclear, Option.bind_some]
  cases pod with
  | none | other => exact ⟨_, rfl, by simpa [SpaPod.controls, stored] using hseq, hsize⟩
  | sequence controls =>
      obtain ⟨b', off, hfold, hseq', hsize'⟩ :=
        foldlM_preRunControl constants frame denom controls hseq hsize
      rw [spanAll_nil] at hfold
      refine ⟨⟨b', some (.sequence controls)⟩, ?_, by simpa [SpaPod.controls] using hseq', hsize'⟩
      simp only [hfold, Option.bind_some]
      rfl

/-! ## Runs of cycles -/

/-- What one `on_process` cycle brings to an input port: the block length and the rate's
denominator of the clock, and the dequeued pod. -/
structure InputCycle where
  duration : Nat
  denom : ℕ+
  dequeued : Option SpaPod
  deriving DecidableEq

/-- `clock_time` of the host and the port. -/
structure InputState where
  clockTime : Nat
  port : AtomInputPort

/-- What the plugin is run with in one cycle: the clock frame of the block and the events it reads
from the port. -/
structure InputBlock where
  frame : Nat
  events : List AtomEvent
  deriving DecidableEq, Repr

/-- `on_process`, as far as it concerns one `ATOM_INPUT` port. -/
def onProcessInput (constants : Constants) (st : InputState) (cycle : InputCycle) :
    Option (InputState × InputBlock) := do
  let frame := st.clockTime
  let clockTime := (st.clockTime + cycle.duration) % 2 ^ 64
  let port ← preRunAtomInput constants st.port cycle.dequeued frame cycle.denom
  let events ← sequenceEvents port.buffer
  pure (⟨clockTime, port⟩, ⟨frame, events⟩)

/-- The cycles of a host that has just set up the port. -/
def inputCycles (constants : Constants) : Lts InputState (InputCycle × InputBlock) :=
  .ofStep ⟨0, setupAtomInput⟩ (onProcessInput constants)

/-- The events of a block come from the pod dequeued in its own cycle. -/
def FreshInput (constants : Constants) (_ : List (InputCycle × InputBlock))
    (block : InputCycle × InputBlock) : Prop :=
  match block.1.dequeued with
  | none => block.2.events = []
  | some pod => ∃ cs : List SpaPodControl, cs.Sublist pod.controls ∧
      block.2.events = cs.map (controlEvent constants block.2.frame block.1.denom)

/-- The pod of the last cycle that dequeued one. -/
def lastPod (tr : List (InputCycle × InputBlock)) : Option SpaPod :=
  tr.foldl (fun last block => block.1.dequeued.or last) none

/-- A cycle without a pod follows only pods of which nothing is stored: each of their MIDI controls
starts with `0xf8` or exceeds 8160 bytes. -/
def NothingLeft (tr : List (InputCycle × InputBlock)) (block : InputCycle × InputBlock) : Prop :=
  block.1.dequeued = none → ∀ pod ∈ lastPod tr, ∀ c ∈ pod.controls, ¬Storable 0 c

@[simp] theorem lastPod_concat (tr : List (InputCycle × InputBlock))
    (block : InputCycle × InputBlock) :
    lastPod (tr ++ [block]) = block.1.dequeued.or (lastPod tr) := by
  simp [lastPod]

/-- What the buffer keeps between cycles: it can be read, and it holds no event exactly when
nothing of the last pod was stored. -/
structure InputInv (tr : List (InputCycle × InputBlock)) (st : InputState) : Prop where
  size : st.port.buffer.size = 8192
  events : ∃ evs, sequenceEvents st.port.buffer = some evs ∧
    (evs = [] ↔ ∀ pod ∈ lastPod tr, ∀ c ∈ pod.controls, ¬Storable 0 c)

/-- The zeroed buffer has no events. -/
theorem inputInv_init : InputInv [] ⟨0, setupAtomInput⟩ where
  size := rfl
  events := ⟨[], by decide, by simp [lastPod]⟩

/-- Without a pod the plugin sees the events of the cycle before. -/
theorem onProcessInput_none (constants : Constants) (st : InputState) (duration : Nat) (denom : ℕ+)
    {evs : List AtomEvent} (h : sequenceEvents st.port.buffer = some evs) :
    onProcessInput constants st ⟨duration, denom, none⟩ =
      some (⟨(st.clockTime + duration) % 2 ^ 64, { st.port with pwbuffer := none }⟩,
        ⟨st.clockTime, evs⟩) := by
  simp [onProcessInput, preRunAtomInput, h]

/-- With a pod it sees the selection of the pod's controls. -/
theorem onProcessInput_some (constants : Constants) (st : InputState) (duration : Nat) (denom : ℕ+)
    (pod : SpaPod) (hb : st.port.buffer.size = 8192) :
    ∃ port, onProcessInput constants st ⟨duration, denom, some pod⟩ =
        some (⟨(st.clockTime + duration) % 2 ^ 64, port⟩,
          ⟨st.clockTime,
            (stored 0 pod.controls).map (controlEvent constants st.clockTime denom)⟩) ∧
      sequenceEvents port.buffer =
        some ((stored 0 pod.controls).map (controlEvent constants st.clockTime denom)) ∧
      port.buffer.size = 8192 := by
  obtain ⟨port, hpre, hseq, hsize⟩ :=
    preRunAtomInput_some constants pod st.clockTime denom hb
  refine ⟨port, ?_, hseq.sequenceEvents, hsize⟩
  simp [onProcessInput, hpre, hseq.sequenceEvents]

/-- Every cycle runs the plugin and keeps the invariant. -/
theorem onProcessInput_total (constants : Constants) {tr : List (InputCycle × InputBlock)}
    {st : InputState} (hi : InputInv tr st) (cycle : InputCycle) :
    ∃ st' block, onProcessInput constants st cycle = some (st', block) ∧
      InputInv (tr ++ [(cycle, block)]) st' ∧
      (FreshInput constants tr (cycle, block) ↔ NothingLeft tr (cycle, block)) := by
  obtain ⟨hsize, evs, hevs, hnil⟩ := hi
  obtain ⟨duration, denom, dequeued⟩ := cycle
  cases dequeued with
  | none =>
      refine ⟨_, _, onProcessInput_none constants st duration denom hevs,
        ⟨hsize, evs, hevs, by simpa using hnil⟩, ?_⟩
      simpa [FreshInput, NothingLeft] using hnil
  | some pod =>
      obtain ⟨port, hstep, hevs', hsize'⟩ :=
        onProcessInput_some constants st duration denom pod hsize
      refine ⟨_, _, hstep, ⟨hsize', _, hevs', by simp [stored_zero_eq_nil]⟩, ?_⟩
      refine iff_of_true ?_ fun h => by simp at h
      exact ⟨stored 0 pod.controls, stored_sublist _ _, rfl⟩

/-- The blocks of a run are fresh exactly when the pods of the run leave nothing to the cycles
without one. -/
theorem inputCycles_fresh {constants : Constants} {tr : List (InputCycle × InputBlock)}
    {st : InputState} (h : (inputCycles constants).Run tr st) :
    Lts.EachStep (FreshInput constants) tr ↔ Lts.EachStep NothingLeft tr := by
  refine h.eachStep_iff (I := InputInv) ?_ ?_
  · rintro s rfl
    exact inputInv_init
  · intro tr st label st' hi hstep
    obtain ⟨st₁, block, hstep₁, hi₁, hiff⟩ := onProcessInput_total constants hi label.1
    obtain ⟨rfl, rfl⟩ : st₁ = st' ∧ block = label.2 := by
      have := hstep₁.symm.trans hstep
      simpa using this
    exact ⟨hi₁, hiff⟩

/-- The host never gets stuck: every list of cycles has its run. -/
theorem inputCycles_total (constants : Constants) (cycles : List InputCycle) :
    ∃ tr st, (inputCycles constants).Run tr st ∧ tr.map Prod.fst = cycles := by
  obtain ⟨tr, st, hrun, hmap, -⟩ :=
    Lts.ofStep_total (I := fun st => ∃ tr, InputInv tr st) ⟨[], inputInv_init⟩
      (f := onProcessInput constants) (fun st cycle ⟨tr, hi⟩ => by
        obtain ⟨st', block, hstep, hi', -⟩ := onProcessInput_total constants hi cycle
        exact ⟨st', block, hstep, _, hi'⟩) cycles
  exact ⟨tr, st, hrun, hmap⟩

/-- Input freshness: every list of cycles has its run, and in a run each block's events come from
the pod of its own cycle exactly when no cycle without a pod follows a pod of which something was
stored. -/
theorem freshInput_iff_nothingLeft (constants : Constants) :
    (∀ cycles, ∃ tr st, (inputCycles constants).Run tr st ∧ tr.map Prod.fst = cycles) ∧
    ∀ tr st, (inputCycles constants).Run tr st →
      (Lts.EachStep (FreshInput constants) tr ↔ Lts.EachStep NothingLeft tr) :=
  ⟨inputCycles_total constants, fun _ _ h => inputCycles_fresh h⟩

/-- A cycle without a pod, one with a note-on, one with an empty pod, and another without a pod are
all fresh. -/
theorem freshInput_noteOn :
    let constants : Constants := ⟨1, 2, by decide, by decide⟩
    let pod : SpaPod := .sequence [⟨0, spaControlMidi, [0x90, 60, 100], 0⟩]
    let cycles : List InputCycle :=
      [⟨256, 48000, none⟩, ⟨256, 48000, some pod⟩, ⟨256, 48000, some (.sequence [])⟩,
        ⟨256, 48000, none⟩]
    ∃ tr st, (inputCycles constants).Run tr st ∧ tr.map Prod.fst = cycles ∧
      Lts.EachStep (FreshInput constants) tr := by
  intro constants pod cycles
  obtain ⟨tr, st, hrun, hmap⟩ := (freshInput_iff_nothingLeft constants).1 cycles
  refine ⟨tr, st, hrun, hmap, ((freshInput_iff_nothingLeft constants).2 tr st hrun).2 ?_⟩
  obtain ⟨⟨_, b₁⟩, tr₁, rfl, rfl, hmap₁⟩ := List.map_eq_cons_iff.1 hmap
  obtain ⟨⟨_, b₂⟩, tr₂, rfl, rfl, hmap₂⟩ := List.map_eq_cons_iff.1 hmap₁
  obtain ⟨⟨_, b₃⟩, tr₃, rfl, rfl, hmap₃⟩ := List.map_eq_cons_iff.1 hmap₂
  obtain ⟨⟨_, b₄⟩, rfl, rfl⟩ := List.map_eq_singleton_iff.1 hmap₃
  show Lts.EachStep NothingLeft ([] ++ [_] ++ [_] ++ [_] ++ [_])
  simp only [Lts.eachStep_concat, Lts.eachStep_nil, true_and]
  refine ⟨⟨⟨?_, ?_⟩, ?_⟩, ?_⟩
  · -- nothing has come before the first cycle
    intro _ _ hlast
    cases hlast
  · intro hnone
    cases hnone
  · intro hnone
    cases hnone
  · -- the pod before the last cycle has no control
    intro _ last hlast c hc
    obtain rfl : SpaPod.sequence [] = last := Option.some.inj hlast
    cases hc

/-- A note-on is presented again in the cycle after it, which has no pod. -/
theorem noteOn_presented_twice :
    let constants : Constants := ⟨1, 2, by decide, by decide⟩
    let noteOn : AtomEvent := ⟨0, 1, [0x90, 60, 100]⟩
    let pod : SpaPod := .sequence [⟨0, spaControlMidi, [0x90, 60, 100], 0⟩]
    let tr : List (InputCycle × InputBlock) :=
      [(⟨256, 48000, some pod⟩, ⟨0, [noteOn]⟩), (⟨256, 48000, none⟩, ⟨256, [noteOn]⟩)]
    (∃ st, (inputCycles constants).Run tr st) ∧ ¬Lts.EachStep (FreshInput constants) tr := by
  intro constants noteOn pod tr
  obtain ⟨port, hstep, hevs, -⟩ :=
    onProcessInput_some constants ⟨0, setupAtomInput⟩ 256 48000 pod rfl
  have hidle := onProcessInput_none constants ⟨256, port⟩ 256 48000 hevs
  have hfirst : (inputCycles constants).Run [tr[0]] ⟨256, port⟩ := Lts.Run.step (.init rfl) hstep
  refine ⟨⟨_, hfirst.step hidle⟩, fun h => ?_⟩
  have := h [tr[0]] tr[1] [] rfl
  simp [FreshInput, tr] at this

/-! ## The encoding of one pod -/

/-- The greedy selection of MIDI controls behind an `atom.size`: no body that starts with `0xf8`,
and no event that would end past the atom buffer at that moment. What is left out takes no room, so
a smaller event behind it can still be taken. -/
def greedy : Nat → List SpaPodControl → List SpaPodControl
  | _, [] => []
  | atomSize, c :: cs =>
    if c.type ≠ spaControlMidi ∨ c.body.head? = some 0xf8 then greedy atomSize cs
    else if 8192 < 8 + atomSize + 16 + c.body.length then greedy atomSize cs
    else c :: greedy (atomSize + (16 + pad8 c.body.length)) cs

/-- The first byte of a body that is not empty. -/
theorem data0_eq_iff {c : SpaPodControl} (h : c.body ≠ []) (x : UInt8) :
    c.data0 = x ↔ c.body.head? = some x := by
  obtain ⟨y, ys, hbody⟩ := List.exists_cons_of_ne_nil h
  simp [SpaPodControl.data0, hbody]

/-- When the MIDI controls have a byte to look at, what the loop stores is the greedy selection. -/
theorem stored_eq_greedy {cs : List SpaPodControl}
    (h : ∀ c ∈ cs, c.type = spaControlMidi → c.body ≠ []) (used : Nat) :
    stored used cs = greedy (8 + used) cs := by
  induction cs generalizing used with
  | nil => rfl
  | cons c cs ih =>
      obtain ⟨hc, hcs⟩ := List.forall_mem_cons.1 h
      rw [stored, greedy, ih hcs, ih hcs, ← Nat.add_assoc]
      by_cases htype : c.type = spaControlMidi
      · have hdata := data0_eq_iff (hc htype) 0xf8
        by_cases hreset : c.body.head? = some 0xf8
        · rw [if_neg fun hs => hs.2.1 (hdata.2 hreset), if_pos (.inr hreset)]
        · have hmidi : ¬(c.type ≠ spaControlMidi ∨ c.body.head? = some 0xf8) :=
            not_or.2 ⟨not_not_intro htype, hreset⟩
          by_cases hfit : 16 + used + (16 + c.body.length) ≤ 8192
          · rw [if_pos ⟨htype, mt hdata.1 hreset, hfit⟩, if_neg hmidi, if_neg (by omega)]
          · rw [if_neg fun hs => hfit hs.2.2, if_neg hmidi, if_pos (by omega)]
      · rw [if_neg fun hs => htype hs.1, if_pos (.inl htype)]

/-- The atom buffer and `buf_offset` of `pre_run_atom_input` when its loop has taken the
controls `pre`. -/
def loopState (constants : Constants) (this : AtomInputPort) (frame : Nat) (denom : ℕ+)
    (pre : List SpaPodControl) : Option (Block × Nat) := do
  let buffer ← this.buffer.storeWord 4 0 (atomBufferSize - sizeofAtom)
  let buffer ← sequenceClear buffer
  pre.foldlM (preRunControl constants frame denom) (buffer, 0)

/-- The function returns the last state of its loop. -/
theorem preRunAtomInput_sequence (constants : Constants) (this : AtomInputPort) (frame : Nat)
    (denom : ℕ+) (controls : List SpaPodControl) :
    preRunAtomInput constants this (some (.sequence controls)) frame denom =
      (loopState constants this frame denom controls).map fun st =>
        ⟨st.1, some (.sequence controls)⟩ := by
  simp only [preRunAtomInput, loopState, Option.bind_eq_bind, Option.map_bind, Option.pure_def]
  cases this.buffer.storeWord 4 0 (atomBufferSize - sizeofAtom) with
  | none => rfl
  | some buffer =>
      cases hclear : sequenceClear buffer with
      | none => simp [hclear]
      | some buffer => simp [hclear, Option.map_eq_bind]

/-- In front of every control the buffer is a sequence of the events stored so far. -/
theorem loopState_isSequence (constants : Constants) {this : AtomInputPort} (frame : Nat)
    (denom : ℕ+) (hb : this.buffer.size = 8192) (pre : List SpaPodControl) :
    ∃ b off, loopState constants this frame denom pre = some (b, off) ∧ b.size = 8192 ∧
      IsSequence b ((stored 0 pre).map (controlEvent constants frame denom)) := by
  obtain ⟨this', hpre, hseq, hsize⟩ :=
    preRunAtomInput_some constants (.sequence pre) frame denom hb
  rw [preRunAtomInput_sequence, Option.map_eq_some_iff] at hpre
  obtain ⟨⟨b, off⟩, hloop, rfl⟩ := hpre
  exact ⟨b, off, hloop, hsize, hseq⟩

/-- The encoding of a pod whose MIDI controls are not empty. The decoded atom buffer is the greedy
selection, with MIDI types and the bodies as they were; and whenever the loop looks at a control,
`atom.size` is a multiple of 8, the sequence ends inside the buffer, and the unsigned difference of
the fit test is the true difference. -/
theorem preRunAtomInput_encodes (constants : Constants) (this : AtomInputPort)
    (hb : this.buffer.size = 8192) {controls : List SpaPodControl}
    (hne : ∀ c ∈ controls, c.type = spaControlMidi → c.body ≠ []) (frame : Nat) (denom : ℕ+) :
    (∃ this' evs, preRunAtomInput constants this (some (.sequence controls)) frame denom =
        some this' ∧ sequenceEvents this'.buffer = some evs ∧
      evs.map (fun ev => (ev.type, ev.body)) =
        (greedy 8 controls).map fun c => (constants.midiMidiEvent, c.body)) ∧
    ∀ pre post, controls = pre ++ post →
      ∃ b off size, loopState constants this frame denom pre = some (b, off) ∧
        b.loadWord 4 0 = some size ∧ size % 8 = 0 ∧ 8 + size ≤ 8192 ∧
        wordSub 8 (atomBufferSize - sizeofAtom) size + size = atomBufferSize - sizeofAtom := by
  constructor
  · obtain ⟨this', hpre, hseq, -⟩ :=
      preRunAtomInput_some constants (.sequence controls) frame denom hb
    refine ⟨this', _, hpre, hseq.sequenceEvents, ?_⟩
    rw [SpaPod.controls, stored_eq_greedy hne, List.map_map]
    rfl
  · intro pre post _
    obtain ⟨b, off, hloop, hsize, hseq⟩ := loopState_isSequence constants frame denom hb pre
    have hbound := hseq.bound
    have hmod := spanAll_mod ((stored 0 pre).map (controlEvent constants frame denom))
    refine ⟨b, off, _, hloop, hseq.size, by omega, by omega, ?_⟩
    simp only [atomBufferSize, sizeofAtom]
    rw [wordSub_eq (by omega) (by norm_num)]
    omega

/-- A note-on, a clock tick and a note-off: the tick is left out. -/
theorem preRunAtomInput_encodes_notes :
    let constants : Constants := ⟨1, 2, by decide, by decide⟩
    let controls : List SpaPodControl := [⟨0, spaControlMidi, [0x90, 60, 100], 0⟩,
      ⟨5, spaControlMidi, [0xf8], 0⟩, ⟨9, spaControlMidi, [0x80, 60, 0], 0⟩]
    ∃ this' evs, preRunAtomInput constants setupAtomInput (some (.sequence controls)) 0 48000 =
        some this' ∧ sequenceEvents this'.buffer = some evs ∧
      evs.map (fun ev => (ev.type, ev.body)) = [(1, [0x90, 60, 100]), (1, [0x80, 60, 0])] := by
  intro constants controls
  have hne : ∀ c ∈ controls, c.type = spaControlMidi → c.body ≠ [] := by simp [controls]
  exact (preRunAtomInput_encodes constants setupAtomInput rfl hne 0 48000).1

end Soundcan.Lph
