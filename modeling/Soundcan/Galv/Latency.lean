import Mathlib.Order.Bounds.Basic
import Soundcan.Galv.CreatePorts

/-!
# Latency propagation

`latency_cb` folds the ranges of the feeding system ports into one range, adds the plugin's own
latency and tells JACK. Both loops select the ports by the same flow, so it is the feeding ports
that get the new range (`latencyCb_of_feeding`), and the ports they feed keep theirs
(`latencyCb_of_fed`). The range itself is the right one (`propagated_latencyRange`): the callback
propagates only where there is nothing left to do (`latencyCb_propagates_iff`).
-/

namespace Soundcan.Galv

/-- `jack_latency_callback_mode_t`. -/
inductive LatencyMode where
  | capture
  | playback
  deriving DecidableEq, Repr

/-- `jack_latency_range_t`. -/
@[ext] structure LatencyRange where
  min : UInt32
  max : UInt32
  deriving DecidableEq, Repr

/-- The ranges that JACK keeps of the system ports, by the index of their port: a get returns the
range last set. -/
abbrev Latencies := Nat → LatencyMode → LatencyRange

/-- The `flow` of `latency_cb`. -/
def LatencyMode.flow : LatencyMode → PortFlow
  | .capture => .input
  | .playback => .output

/-- The range widened to cover another one. -/
def LatencyRange.widen (range r : LatencyRange) : LatencyRange where
  min := if r.min < range.min then r.min else range.min
  max := if r.max > range.max then r.max else range.max

/-- The body of the first loop, with `ports_found` and `range`. -/
def findFeeding (mode : LatencyMode) (latencies : Latencies) (s : Nat × LatencyRange)
    (port : JalvProcessPort × Nat) : Nat × LatencyRange :=
  if port.1.sysPort ∧ port.1.flow = mode.flow then
    (s.1 + 1, s.2.widen (latencies port.2 mode))
  else s

/-- The `range` that `latency_cb` tells JACK. -/
def latencyRange (mode : LatencyMode) (ports : List JalvProcessPort) (pluginLatency : UInt32)
    (latencies : Latencies) : LatencyRange :=
  let (portsFound, range) := ports.zipIdx.foldl (findFeeding mode latencies) (0, ⟨0xffffffff, 0⟩)
  let range := if portsFound = 0 then { range with min := 0 } else range
  ⟨range.min + pluginLatency, range.max + pluginLatency⟩

/-- `jack_port_set_latency_range`. -/
def setLatencyRange (mode : LatencyMode) (p : Nat) (range : LatencyRange) (latencies : Latencies) :
    Latencies :=
  Function.update latencies p (Function.update (latencies p) mode range)

/-- The body of the second loop. -/
def tellJack (mode : LatencyMode) (range : LatencyRange) (latencies : Latencies)
    (port : JalvProcessPort × Nat) : Latencies :=
  if port.1.sysPort ∧ port.1.flow = mode.flow then setLatencyRange mode port.2 range latencies
  else latencies

/-- `latency_cb`. -/
def latencyCb (mode : LatencyMode) (ports : List JalvProcessPort) (pluginLatency : UInt32)
    (latencies : Latencies) : Latencies :=
  ports.zipIdx.foldl (tellJack mode (latencyRange mode ports pluginLatency latencies)) latencies

/-! ## What the callback is for -/

/-- The indices of the system ports of a flow. -/
def systemPorts (ports : List JalvProcessPort) (flow : PortFlow) : Set Nat :=
  {p | ∃ port, ports[p]? = some port ∧ port.sysPort ∧ port.flow = flow}

/-- The ports whose latency comes from others: capture latency flows from the inputs to the
outputs, playback latency from the outputs to the inputs. -/
def LatencyMode.fedFlow : LatencyMode → PortFlow
  | .capture => .output
  | .playback => .input

/-- The ranges are ranges, and the plugin's latency can be added to them. -/
def Latencies.Valid (latencies : Latencies) (mode : LatencyMode) (ports : List JalvProcessPort)
    (pluginLatency : UInt32) : Prop :=
  ∀ p port, ports[p]? = some port → port.sysPort →
    (latencies p mode).min ≤ (latencies p mode).max ∧
      (latencies p mode).max.toNat + pluginLatency.toNat < 2 ^ 32

/-- A range is that of the feeding ports, with the plugin's latency added. -/
structure Propagated (latencies : Latencies) (mode : LatencyMode) (feeding : Set Nat)
    (pluginLatency : UInt32) (range : LatencyRange) : Prop where
  alone : feeding = ∅ → range = ⟨pluginLatency, pluginLatency⟩
  min : feeding.Nonempty → IsLeast
    ((fun p => (latencies p mode).min.toNat + pluginLatency.toNat) '' feeding) range.min.toNat
  max : feeding.Nonempty → IsGreatest
    ((fun p => (latencies p mode).max.toNat + pluginLatency.toNat) '' feeding) range.max.toNat
  ordered : range.min ≤ range.max

/-- The callback propagates the latency: the fed ports get the range of the feeding ones, which
keep theirs, and a second call changes nothing. -/
structure LatencyPropagates (mode : LatencyMode) (ports : List JalvProcessPort)
    (pluginLatency : UInt32) (latencies : Latencies) : Prop where
  given : ∀ p ∈ systemPorts ports mode.fedFlow,
    Propagated latencies mode (systemPorts ports mode.flow) pluginLatency
      (latencyCb mode ports pluginLatency latencies p mode)
  kept : ∀ p ∈ systemPorts ports mode.flow,
    latencyCb mode ports pluginLatency latencies p = latencies p
  repeated : latencyCb mode ports pluginLatency (latencyCb mode ports pluginLatency latencies) =
    latencyCb mode ports pluginLatency latencies

section
variable {mode : LatencyMode} {ports : List JalvProcessPort} {pluginLatency : UInt32}
  {latencies : Latencies}

/-! ## The first loop -/

/-- Widening takes the smaller of the lower bounds. -/
theorem widen_min (range r : LatencyRange) :
    (range.widen r).min.toNat = min range.min.toNat r.min.toNat := by
  simp only [LatencyRange.widen, UInt32.lt_iff_toNat_lt]
  split <;> omega

/-- Widening takes the greater of the upper bounds. -/
theorem widen_max (range r : LatencyRange) :
    (range.widen r).max.toNat = max range.max.toNat r.max.toNat := by
  simp only [LatencyRange.widen, gt_iff_lt, UInt32.lt_iff_toNat_lt]
  split <;> omega

/-- The ports that the first loop has found, and the range of those. -/
structure Found (mode : LatencyMode) (latencies : Latencies) (feeding : Set Nat)
    (s : Nat × LatencyRange) : Prop where
  found : s.1 = 0 ↔ feeding = ∅
  min : IsLeast (insert (2 ^ 32 - 1) ((fun p => (latencies p mode).min.toNat) '' feeding))
    s.2.min.toNat
  max : IsGreatest (insert 0 ((fun p => (latencies p mode).max.toNat) '' feeding))
    s.2.max.toNat

/-- One port more, as the first loop counts it. -/
theorem Found.insert {feeding : Set Nat} {s : Nat × LatencyRange}
    (h : Found mode latencies feeding s) (p : Nat) :
    Found mode latencies (insert p feeding) (s.1 + 1, s.2.widen (latencies p mode)) where
  found := iff_of_false (Nat.succ_ne_zero _) (Set.insert_nonempty _ _).ne_empty
  min := by
    rw [Set.image_insert_eq, Set.insert_comm, widen_min, min_comm]
    exact h.min.insert _
  max := by
    rw [Set.image_insert_eq, Set.insert_comm, widen_max, max_comm]
    exact h.max.insert _

/-- The ports among those of a list that both loops select. -/
def selected (mode : LatencyMode) (xs : List (JalvProcessPort × Nat)) : Set Nat :=
  {p | ∃ port, (port, p) ∈ xs ∧ port.sysPort ∧ port.flow = mode.flow}

/-- A system port of the right flow is selected too. -/
theorem selected_append_of_system {port : JalvProcessPort}
    (h : port.sysPort ∧ port.flow = mode.flow) (xs : List (JalvProcessPort × Nat)) (p : Nat) :
    selected mode (xs ++ [(port, p)]) = insert p (selected mode xs) := by
  ext q
  simp only [selected, Set.mem_ofPred_eq, Set.mem_insert_iff, List.mem_append, List.mem_singleton,
    Prod.mk.injEq]
  grind

/-- A port that is no system port of the right flow is not selected. -/
theorem selected_append_of_not_system {port : JalvProcessPort}
    (h : ¬(port.sysPort ∧ port.flow = mode.flow)) (xs : List (JalvProcessPort × Nat)) (p : Nat) :
    selected mode (xs ++ [(port, p)]) = selected mode xs := by
  ext q
  simp only [selected, Set.mem_ofPred_eq, List.mem_append, List.mem_singleton, Prod.mk.injEq]
  grind

/-- What is selected of all the ports are the system ports of that flow. -/
theorem selected_zipIdx : selected mode ports.zipIdx = systemPorts ports mode.flow := by
  ext p
  simp only [selected, systemPorts, Set.mem_ofPred_eq, List.mem_zipIdx_iff_getElem?]

/-- The loop has found the bounds of what it has selected. -/
theorem found_foldl (xs : List (JalvProcessPort × Nat)) :
    Found mode latencies (selected mode xs)
      (xs.foldl (findFeeding mode latencies) (0, ⟨0xffffffff, 0⟩)) := by
  induction xs using List.reverseRecOn with
  | nil => exact ⟨by simp [selected], by simp [selected], by simp [selected]⟩
  | append_singleton xs x ih =>
      obtain ⟨port, p⟩ := x
      rw [List.foldl_append, List.foldl_cons, List.foldl_nil, findFeeding]
      split
      · next h =>
        rw [selected_append_of_system h]
        exact ih.insert p
      · next h =>
        rw [selected_append_of_not_system h]
        exact ih

/-- The start value of a minimum does not count where there are elements below it. -/
theorem isLeast_of_insert {α : Type*} [PartialOrder α] {s : Set α} {a x : α}
    (h : IsLeast (insert a s) x) (hs : s.Nonempty) (hle : ∀ y ∈ s, y ≤ a) : IsLeast s x := by
  refine ⟨?_, fun y hy => h.2 (Set.mem_insert_of_mem a hy)⟩
  rcases h.1 with rfl | hx
  · obtain ⟨y, hy⟩ := hs
    have hxy : x ≤ y := h.2 (Set.mem_insert_of_mem x hy)
    rwa [le_antisymm hxy (hle y hy)]
  · exact hx

/-- The start value of a maximum does not count where there are elements above it. -/
theorem isGreatest_of_insert {α : Type*} [PartialOrder α] {s : Set α} {a x : α}
    (h : IsGreatest (insert a s) x) (hs : s.Nonempty) (hle : ∀ y ∈ s, a ≤ y) : IsGreatest s x :=
  isLeast_of_insert (α := αᵒᵈ) h hs hle

/-- Without a system port of that flow the range is the latency of the plugin alone. -/
theorem latencyRange_of_isEmpty (h : systemPorts ports mode.flow = ∅) :
    latencyRange mode ports pluginLatency latencies = ⟨pluginLatency, pluginLatency⟩ := by
  have hfound : Found mode latencies _ _ := found_foldl ports.zipIdx
  rw [selected_zipIdx, h] at hfound
  have hcount := hfound.found.2 rfl
  have hmax : ((ports.zipIdx.foldl (findFeeding mode latencies) (0, ⟨0xffffffff, 0⟩)).2).max = 0 :=
    UInt32.toNat_inj.1 (by simpa using hfound.max.1)
  simp only [latencyRange, hcount, if_true, hmax, UInt32.zero_add]

/-- The range told to JACK is that of the feeding ports, with the plugin's latency added. -/
theorem propagated_latencyRange (hvalid : latencies.Valid mode ports pluginLatency) :
    Propagated latencies mode (systemPorts ports mode.flow) pluginLatency
      (latencyRange mode ports pluginLatency latencies) := by
  rcases (systemPorts ports mode.flow).eq_empty_or_nonempty with hempty | hne
  · rw [latencyRange_of_isEmpty hempty, hempty]
    exact ⟨fun _ => rfl, by simp, by simp, UInt32.le_refl _⟩
  have hfound : Found mode latencies _ _ := found_foldl ports.zipIdx
  rw [selected_zipIdx] at hfound
  rw [latencyRange]
  generalize ports.zipIdx.foldl (findFeeding mode latencies) (0, ⟨0xffffffff, 0⟩) = s at hfound ⊢
  obtain ⟨portsFound, range⟩ := s
  have hcount := mt hfound.found.1 hne.ne_empty
  simp only [hcount, if_false]
  have hmin := isLeast_of_insert hfound.min (hne.image _) (by
    rintro _ ⟨p, -, rfl⟩
    have := (latencies p mode).min.toNat_lt
    dsimp only
    omega)
  have hmax := isGreatest_of_insert hfound.max (hne.image _) (by simp)
  obtain ⟨p, hp, hpmax⟩ := hmax.1
  have hpmin := hmin.2 (Set.mem_image_of_mem _ hp)
  obtain ⟨port, hport, hsys, -⟩ := hp
  obtain ⟨hle, hlt⟩ := hvalid p port hport hsys
  rw [UInt32.le_iff_toNat_le] at hle
  dsimp only at hpmax hpmin
  -- Neither sum wraps: it is at most the largest maximum with the latency added.
  have hminAdd : (range.min + pluginLatency).toNat = range.min.toNat + pluginLatency.toNat := by
    rw [UInt32.toNat_add, Nat.mod_eq_of_lt (by omega)]
  have hmaxAdd : (range.max + pluginLatency).toNat = range.max.toNat + pluginLatency.toNat := by
    rw [UInt32.toNat_add, Nat.mod_eq_of_lt (by omega)]
  have hmono : Monotone (· + pluginLatency.toNat) := fun _ _ h => Nat.add_le_add_right h _
  refine ⟨fun h => absurd h hne.ne_empty, fun _ => ?_, fun _ => ?_, ?_⟩
  · rw [hminAdd, ← Set.image_image (· + pluginLatency.toNat)]
    exact hmono.map_isLeast hmin
  · rw [hmaxAdd, ← Set.image_image (· + pluginLatency.toNat)]
    exact hmono.map_isGreatest hmax
  · rw [UInt32.le_iff_toNat_le, hminAdd, hmaxAdd]
    omega

/-! ## The second loop -/

/-- The second loop sets the range of the selected ports, and no other. -/
theorem foldl_tellJack (range : LatencyRange) (xs : List (JalvProcessPort × Nat)) (p : Nat) :
    (p ∈ selected mode xs → xs.foldl (tellJack mode range) latencies p =
        Function.update (latencies p) mode range) ∧
      (p ∉ selected mode xs → xs.foldl (tellJack mode range) latencies p = latencies p) := by
  induction xs using List.reverseRecOn with
  | nil => simp [selected]
  | append_singleton xs x ih =>
      obtain ⟨port, q⟩ := x
      rw [List.foldl_append, List.foldl_cons, List.foldl_nil, tellJack]
      split
      · next h =>
        rw [selected_append_of_system h, Set.mem_insert_iff, setLatencyRange]
        rcases eq_or_ne p q with rfl | hpq
        · rw [Function.update_self]
          by_cases hp : p ∈ selected mode xs
          · simp [ih.1 hp]
          · simp [ih.2 hp]
        · rw [Function.update_of_ne hpq]
          simpa [hpq] using ih
      · next h =>
        rw [selected_append_of_not_system h]
        exact ih

/-- The callback sets the ranges of the feeding ports. -/
theorem latencyCb_of_feeding {p : Nat} (hp : p ∈ systemPorts ports mode.flow) :
    latencyCb mode ports pluginLatency latencies p =
      Function.update (latencies p) mode (latencyRange mode ports pluginLatency latencies) :=
  (foldl_tellJack _ _ p).1 (by rwa [selected_zipIdx])

/-- The callback leaves the latencies of every port that is none of these. -/
theorem latencyCb_of_not_feeding {p : Nat} (hp : p ∉ systemPorts ports mode.flow) :
    latencyCb mode ports pluginLatency latencies p = latencies p :=
  (foldl_tellJack _ _ p).2 (by rwa [selected_zipIdx])

/-- No port feeds and is fed. -/
theorem not_feeding_of_fed {p : Nat} (hp : p ∈ systemPorts ports mode.fedFlow) :
    p ∉ systemPorts ports mode.flow := by
  obtain ⟨port, hport, -, hflow⟩ := hp
  rintro ⟨port', hport', -, hflow'⟩
  obtain rfl := Option.some.inj (hport.symm.trans hport')
  rw [hflow] at hflow'
  cases mode <;> cases hflow'

/-- The callback leaves the ports that it should set. -/
theorem latencyCb_of_fed {p : Nat} (hp : p ∈ systemPorts ports mode.fedFlow) :
    latencyCb mode ports pluginLatency latencies p = latencies p :=
  latencyCb_of_not_feeding (not_feeding_of_fed hp)

/-! ## When the latency is propagated -/

/-- The feeding ports keep their ranges where these are one range and the plugin adds nothing. -/
theorem kept_iff (hvalid : latencies.Valid mode ports pluginLatency) :
    (∀ p ∈ systemPorts ports mode.flow,
        latencyCb mode ports pluginLatency latencies p = latencies p) ↔
      systemPorts ports mode.flow = ∅ ∨
        pluginLatency = 0 ∧
          ∃ range, ∀ p ∈ systemPorts ports mode.flow, latencies p mode = range := by
  have hrange := propagated_latencyRange hvalid
  have hkept : ∀ p ∈ systemPorts ports mode.flow,
      (latencyCb mode ports pluginLatency latencies p = latencies p ↔
        latencies p mode = latencyRange mode ports pluginLatency latencies) := by
    intro p hp
    rw [latencyCb_of_feeding hp, Function.update_eq_self_iff, eq_comm]
  rw [forall₂_congr hkept]
  constructor
  · intro h
    rcases (systemPorts ports mode.flow).eq_empty_or_nonempty with hempty | hne
    · exact .inl hempty
    obtain ⟨p, hp, hmin⟩ := (hrange.min hne).1
    refine .inr ⟨?_, _, h⟩
    dsimp only at hmin
    rw [h p hp] at hmin
    exact UInt32.toNat_inj.1 (by simpa using hmin)
  · rintro (hempty | ⟨rfl, range, hall⟩) p hp
    · rw [hempty] at hp
      exact absurd hp (Set.notMem_empty p)
    · obtain ⟨q, hq, hmin⟩ := (hrange.min ⟨p, hp⟩).1
      obtain ⟨q', hq', hmax⟩ := (hrange.max ⟨p, hp⟩).1
      rw [hall p hp]
      ext1
      · exact UInt32.toNat_inj.1 (by simpa [hall q hq] using hmin)
      · exact UInt32.toNat_inj.1 (by simpa [hall q' hq'] using hmax)

/-- The callback propagates the latency where it has nothing to do: the fed ports have the range
already, and either no port feeds them or the plugin adds nothing to the one range of those that
do. -/
theorem latencyCb_propagates_iff (hvalid : latencies.Valid mode ports pluginLatency) :
    LatencyPropagates mode ports pluginLatency latencies ↔
      (∀ p ∈ systemPorts ports mode.fedFlow,
        Propagated latencies mode (systemPorts ports mode.flow) pluginLatency
          (latencies p mode)) ∧
      (systemPorts ports mode.flow = ∅ ∨
        pluginLatency = 0 ∧
          ∃ range, ∀ p ∈ systemPorts ports mode.flow, latencies p mode = range) := by
  rw [← kept_iff hvalid]
  constructor
  · intro h
    refine ⟨fun p hp => ?_, h.kept⟩
    have hgiven := h.given p hp
    rwa [latencyCb_of_fed hp] at hgiven
  · rintro ⟨hgiven, hkept⟩
    refine ⟨fun p hp => ?_, hkept, ?_⟩
    · rw [latencyCb_of_fed hp]
      exact hgiven p hp
    · have hsame : latencyCb mode ports pluginLatency latencies = latencies := by
        funext p
        by_cases hp : p ∈ systemPorts ports mode.flow
        · exact hkept p hp
        · exact latencyCb_of_not_feeding hp
      rw [hsame, hsame]

end

/-! ## An input and an output -/

/-- A plugin with an audio input and an audio output. -/
def inputAndOutput : List JalvProcessPort :=
  [{ JalvProcessPort.zeroed with type := .audio, flow := .input, sysPort := true },
    { JalvProcessPort.zeroed with type := .audio, flow := .output, sysPort := true }]

/-- A range that does not overflow is valid for an input and an output. -/
theorem valid_inputAndOutput {mode : LatencyMode} {pluginLatency : UInt32} {range : LatencyRange}
    (hle : range.min ≤ range.max) (hlt : range.max.toNat + pluginLatency.toNat < 2 ^ 32) :
    Latencies.Valid (fun _ _ => range) mode inputAndOutput pluginLatency :=
  fun _ _ _ _ => ⟨hle, hlt⟩

/-- Without a latency of the plugin and with equal ranges nothing is left to do. -/
theorem latencyCb_propagates_without_latency :
    LatencyPropagates .playback inputAndOutput 0 (fun _ _ => ⟨32, 48⟩) := by
  refine (latencyCb_propagates_iff (valid_inputAndOutput (by decide) (by decide))).2
    ⟨fun p _ => ⟨?_, fun hne => ?_, fun hne => ?_, by decide⟩, .inr ⟨rfl, _, fun _ _ => rfl⟩⟩
  · have hport : 1 ∈ systemPorts inputAndOutput LatencyMode.playback.flow := ⟨_, rfl, rfl, rfl⟩
    intro hempty
    rw [hempty] at hport
    exact absurd hport (Set.notMem_empty 1)
  · rw [hne.image_const]
    exact isLeast_singleton
  · rw [hne.image_const]
    exact isGreatest_singleton

/-- The input gets the latency of the plugin, once more at each call, and the output does not. -/
theorem latencyCb_not_propagates :
    Latencies.Valid (fun _ _ => ⟨0, 0⟩) .capture inputAndOutput 64 ∧
      ¬LatencyPropagates .capture inputAndOutput 64 (fun _ _ => ⟨0, 0⟩) := by
  refine ⟨valid_inputAndOutput (by decide) (by decide), fun h => ?_⟩
  have hout : 1 ∈ systemPorts inputAndOutput LatencyMode.capture.fedFlow := ⟨_, rfl, rfl, rfl⟩
  have hin : 0 ∈ systemPorts inputAndOutput LatencyMode.capture.flow := ⟨_, rfl, rfl, rfl⟩
  have hgiven := h.given 1 hout
  rw [latencyCb_of_fed hout] at hgiven
  obtain ⟨p, -, hmin⟩ := (hgiven.min ⟨0, hin⟩).1
  exact absurd hmin (by decide : (64 : Nat) ≠ 0)

end Soundcan.Galv
