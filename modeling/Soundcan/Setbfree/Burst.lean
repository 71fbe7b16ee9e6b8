import Soundcan.Setbfree.Converge

/-!
# What the send-configuration port sends

The send-configuration port comes first in the port loop, and a run that serves it is left there:
its burst is made of the cached values of all other ports, which are those of the last run that took
them over. `configuration_eq_burst` says which messages these are. They are the messages of the
current port values exactly when the cache agrees with the ports where the burst looks
(`CacheCurrent`).
-/

namespace Soundcan.Setbfree

open Bytes Lv2

/-! ## Bursts -/

/-- The three preset ports. -/
def presetPorts : List Nat :=
  [portControlPreset, portControlLowerManualPreset, portControlUpperManualPreset]

/-- `(uint8_t) value` of a preset port. -/
def presetByte (value : ℚ) : UInt8 := UInt8.ofInt (truncInt value)

/-- The program change that selects a preset. -/
def programChange (preset : UInt8) : List UInt8 := [midiProgramChange + 0, preset - 1]

/-- The control change of a setting port at the given values. -/
def controlChange (values : Nat → ℚ) (port : Nat) : List UInt8 :=
  [midiControlChange + (midiConfig port).channel, (midiConfig port).control,
    (midiConfig port).convert (values port)]

/-- The presets that the ports select. -/
def selectedPresets (ports : Nat → ℚ) : List UInt8 :=
  (presetPorts.filter fun port => ports port ≠ 0).map fun port => presetByte (ports port)

/-- The messages that the ports stand for: with all three presets at zero a control change for each
setting, in port order, and otherwise a program change for each preset that is not zero. -/
def IsBurst (ports : Nat → ℚ) (messages : List (List UInt8)) : Prop :=
  if ∀ port ∈ presetPorts, ports port = 0 then
    messages = settingPorts.map (controlChange ports)
  else
    messages.Perm ((selectedPresets ports).map programChange)

/-- The cached presets that are sent. -/
def cachedPresets (lastValue : Nat → ℚ) : List UInt8 :=
  (presetPorts.map fun port => presetByte (lastValue port)).filter fun preset => preset ≠ 0

/-- The cache agrees with the ports where the burst looks: it has the presets that the ports select,
and when they select none, a value for each setting that is converted to the same byte. -/
structure CacheCurrent (lastValue ports : Nat → ℚ) : Prop where
  presets : (cachedPresets lastValue).Perm (selectedPresets ports)
  settings : selectedPresets ports = [] → ∀ port ∈ settingPorts,
    (midiConfig port).convert (lastValue port) = (midiConfig port).convert (ports port)

/-! ## The burst of the cache -/

variable {lastValue ports : Nat → ℚ}

/-- The messages of the preset ports are those of the cached presets. -/
theorem writeMidiSignal_presets (lastValue : Nat → ℚ) :
    writeMidiSignal lastValue portControlPreset ++
        writeMidiSignal lastValue portControlLowerManualPreset ++
        writeMidiSignal lastValue portControlUpperManualPreset =
      (cachedPresets lastValue).map programChange := by
  have hsignal : ∀ port, port = 3 ∨ port = 4 ∨ port = 5 → writeMidiSignal lastValue port =
      ([presetByte (lastValue port)].filter fun preset => preset ≠ 0).map programChange := by
    intro port hport
    rw [writeMidiSignal_preset hport, ← presetByte]
    by_cases hzero : presetByte (lastValue port) = 0
    · rw [if_neg (not_not_intro hzero), List.filter_cons_of_neg (by simpa using hzero)]
      rfl
    · rw [if_pos hzero, List.filter_cons_of_pos (by simpa using hzero)]
      rfl
  rw [hsignal _ (.inl rfl), hsignal _ (.inr (.inl rfl)), hsignal _ (.inr (.inr rfl)),
    ← List.map_append, ← List.map_append, ← List.filter_append, ← List.filter_append]
  rfl

/-- The messages of the setting ports. -/
theorem writeMidiSignal_settings (lastValue : Nat → ℚ) :
    settingPorts.flatMap (writeMidiSignal lastValue) =
      settingPorts.map (controlChange lastValue) := by
  rw [List.map_eq_flatMap]
  exact List.flatMap_congr fun port hport => writeMidiSignal_setting hport lastValue

/-- The configuration is the burst of the cached values. -/
theorem configuration_eq_burst (lastValue : Nat → ℚ) :
    configuration lastValue =
      if cachedPresets lastValue = [] then settingPorts.map (controlChange lastValue)
      else (cachedPresets lastValue).map programChange := by
  rw [configuration, writeMidiSignal_presets, writeMidiSignal_settings]
  by_cases hnil : cachedPresets lastValue = []
  · simp [hnil]
  · simp [hnil]

/-- The send-configuration port itself is not part of the burst. -/
theorem configuration_update (lastValue : Nat → ℚ) (value : ℚ) :
    configuration (Function.update lastValue portControlSendConfiguration value) =
      configuration lastValue := by
  have hne : ∀ port, 3 ≤ port →
      Function.update lastValue portControlSendConfiguration value port = lastValue port := by
    intro port hport
    have hne : port ≠ 2 := by omega
    exact Function.update_of_ne hne _ _
  have hsignal : ∀ port, 3 ≤ port →
      writeMidiSignal (Function.update lastValue portControlSendConfiguration value) port =
        writeMidiSignal lastValue port := fun port hport => writeMidiSignal_congr (hne port hport)
  have hsettings : settingPorts.flatMap
      (writeMidiSignal (Function.update lastValue portControlSendConfiguration value)) =
      settingPorts.flatMap (writeMidiSignal lastValue) := by
    refine List.flatMap_congr fun port hport => hsignal port ?_
    rw [mem_settingPorts] at hport
    omega
  rw [configuration, configuration, hsignal 3 (by omega), hsignal 4 (by omega),
    hsignal 5 (by omega), hsettings]

/-! ## When it is the burst of the ports -/

/-- A program change tells its preset. -/
theorem programChange_injective : Function.Injective programChange := by
  intro x y h
  simp only [programChange, List.cons.injEq, true_and, and_true] at h
  exact (UInt8.sub_left_inj 1).1 h

/-- No preset is selected exactly when the three ports are zero. -/
theorem selectedPresets_eq_nil :
    selectedPresets ports = [] ↔ ∀ port ∈ presetPorts, ports port = 0 := by
  rw [selectedPresets, List.map_eq_nil_iff, List.filter_eq_nil_iff]
  simp

/-- At most three presets are in the cache. -/
theorem length_cachedPresets_le (lastValue : Nat → ℚ) : (cachedPresets lastValue).length ≤ 3 :=
  List.length_filter_le _ _

/-- At most three presets are selected. -/
theorem length_selectedPresets_le (ports : Nat → ℚ) : (selectedPresets ports).length ≤ 3 := by
  rw [selectedPresets, List.length_map]
  exact List.length_filter_le _ _

/-- The other controls are 38. -/
theorem length_settingPorts : settingPorts.length = 38 := rfl

/-- Control changes of the same settings are equal when the converted values are. -/
theorem map_controlChange_eq_iff :
    settingPorts.map (controlChange lastValue) = settingPorts.map (controlChange ports) ↔
      ∀ port ∈ settingPorts,
        (midiConfig port).convert (lastValue port) = (midiConfig port).convert (ports port) := by
  rw [List.map_inj_left]
  refine forall₂_congr fun port _ => ?_
  simp [controlChange]

/-- The cached values give the burst of the ports exactly when the cache is current. -/
theorem isBurst_configuration_iff :
    IsBurst ports (configuration lastValue) ↔ CacheCurrent lastValue ports := by
  have hcached := length_cachedPresets_le lastValue
  have hselected := length_selectedPresets_le ports
  have hsettings := length_settingPorts
  rw [IsBurst, configuration_eq_burst]
  by_cases hports : ∀ port ∈ presetPorts, ports port = 0
  · have hnil : selectedPresets ports = [] := selectedPresets_eq_nil.2 hports
    rw [if_pos hports]
    by_cases hcache : cachedPresets lastValue = []
    · rw [if_pos hcache, map_controlChange_eq_iff]
      refine ⟨fun h => ⟨by rw [hcache, hnil], fun _ => h⟩, fun h => h.settings hnil⟩
    · rw [if_neg hcache]
      -- at most three program changes are not the 38 control changes
      refine iff_of_false (fun h => ?_) fun h => hcache ?_
      · have hlength := congrArg List.length h
        rw [List.length_map, List.length_map] at hlength
        omega
      · exact List.perm_nil.1 (hnil ▸ h.presets)
  · have hnil : selectedPresets ports ≠ [] := mt selectedPresets_eq_nil.1 hports
    rw [if_neg hports]
    by_cases hcache : cachedPresets lastValue = []
    · rw [if_pos hcache]
      refine iff_of_false (fun h => ?_) fun h => hnil ?_
      · have hlength := h.length_eq
        rw [List.length_map, List.length_map] at hlength
        omega
      · exact List.nil_perm.1 (hcache ▸ h.presets)
    · rw [if_neg hcache, List.map_perm_map_iff programChange_injective]
      exact ⟨fun h => ⟨h, fun heq => absurd heq hnil⟩, fun h => h.presets⟩

/-! ## Runs -/

/-- The events of a run are MIDI events, and their messages the burst of the ports. -/
def SendsBurst (uridMidiEvent : Nat) (label : RunInput × RunOutput) : Prop :=
  (∀ ev ∈ label.2.events, ev.type = uridMidiEvent) ∧
    IsBurst label.1.ports.value (label.2.events.map AtomEvent.body)

/-- A run that sends the configuration sends the burst of the ports exactly when the cache is
current. -/
theorem sendsBurst_iff {uridMidiEvent inType : Nat} (hurid : uridMidiEvent < 2 ^ 32)
    {lastValue lastValue' : Nat → ℚ} {label : RunInput × RunOutput}
    (hsends : SendsConfiguration label.1.ports.value lastValue)
    (hstep : (runs uridMidiEvent inType).step lastValue label lastValue') :
    SendsBurst uridMidiEvent label ↔ CacheCurrent lastValue label.1.ports.value := by
  have hrun := (run_eq hurid inType lastValue label.1).symm.trans hstep
  rw [sync_eq, if_pos hsends] at hrun
  obtain ⟨-, hout⟩ := Prod.mk.inj (Option.some.inj hrun)
  have hbodies : label.2.events.map AtomEvent.body = configuration lastValue := by
    rw [← hout, List.map_map]
    exact (List.map_id _).trans (configuration_update _ _)
  have htypes : ∀ ev ∈ label.2.events, ev.type = uridMidiEvent := by
    intro ev hev
    rw [← hout] at hev
    obtain ⟨message, -, rfl⟩ := List.mem_map.1 hev
    rfl
  rw [SendsBurst, hbodies, isBurst_configuration_iff]
  exact and_iff_right htypes

/-- Every call of `run` has its step. -/
theorem exists_step {uridMidiEvent : Nat} (hurid : uridMidiEvent < 2 ^ 32) (inType : Nat)
    (lastValue : Nat → ℚ) (input : RunInput) :
    ∃ out, (runs uridMidiEvent inType).step lastValue (input, out)
      (sync input.ports.value controlPorts lastValue []).lastValue ∧
      out.events.length = (sync input.ports.value controlPorts lastValue []).messages.length :=
  ⟨_, run_eq hurid inType lastValue input, List.length_map _⟩

/-- Send-configuration sends the configuration: in every run of the plugin whose configurations are
all sent from a current cache they are the bursts of the ports, and from every reachable state the
burst of the ports is sent exactly when the cache is current. -/
theorem sendsBurst_iff_cacheCurrent (uridMidiEvent inType : Nat) (hurid : uridMidiEvent < 2 ^ 32) :
    (∀ tr lastValue, ((runs uridMidiEvent inType).guard fun lastValue label =>
        SendsConfiguration label.1.ports.value lastValue →
          CacheCurrent lastValue label.1.ports.value).Run tr lastValue →
      ∀ label ∈ tr, label.2.sentConfiguration = true → SendsBurst uridMidiEvent label) ∧
    ∀ lastValue, (runs uridMidiEvent inType).Reachable lastValue → ∀ input,
      SendsConfiguration input.ports.value lastValue →
        ((∃ lastValue' out, (runs uridMidiEvent inType).step lastValue (input, out) lastValue' ∧
          SendsBurst uridMidiEvent (input, out)) ↔ CacheCurrent lastValue input.ports.value) := by
  constructor
  · intro tr lastValue hrun
    refine hrun.guard_invariant (I := fun tr _ => ∀ label ∈ tr,
      label.2.sentConfiguration = true → SendsBurst uridMidiEvent label) (by simp) ?_
    intro tr lastValue label lastValue' hall hcurrent hstep x hx
    rcases List.mem_append.1 hx with hx | hx
    · exact hall x hx
    · rw [List.mem_singleton.1 hx]
      intro hsent
      have hsends := (sentConfiguration_iff hurid hstep).1 hsent
      exact (sendsBurst_iff hurid hsends hstep).2 (hcurrent hsends)
  · rintro lastValue - input hsends
    constructor
    · rintro ⟨lastValue', out, hstep, hburst⟩
      exact (sendsBurst_iff hurid hsends hstep).1 hburst
    · intro hcurrent
      obtain ⟨out, hstep, -⟩ := exists_step hurid inType lastValue input
      exact ⟨_, out, hstep, (sendsBurst_iff hurid hsends hstep).2 hcurrent⟩

/-- When all ports are zero and were zero in the run before, the burst is theirs. -/
theorem sendsBurst_zero : ∃ lastValue lastValue' out, (runs 1 2).Reachable lastValue ∧
    (runs 1 2).step lastValue (⟨sendPorts true, outBuffer4096⟩, out) lastValue' ∧
    SendsBurst 1 (⟨sendPorts true, outBuffer4096⟩, out) := by
  let lastValue : Nat → ℚ := fun port => if port ∈ controlPorts then 0 else instantiate port
  have hcache :
      (sync (sendPorts false).value controlPorts instantiate []).lastValue = lastValue := by
    rw [sync_eq, if_neg fun h => h.2 rfl]
    have hzero : ∀ port, (sendPorts false).value port = 0 := fun port => if_neg (by simp)
    simp only [hzero, lastValue]
  obtain ⟨first, hfirst, -⟩ :=
    exists_step (by norm_num : 1 < 2 ^ 32) 2 instantiate ⟨sendPorts false, outBuffer4096⟩
  rw [hcache] at hfirst
  have hreach : (runs 1 2).Reachable lastValue := ⟨_, Lts.Run.step (.init rfl) hfirst⟩
  have hsends : SendsConfiguration (sendPorts true).value lastValue :=
    ⟨(zero_ne_one : (0 : ℚ) ≠ 1), one_ne_zero⟩
  have hcurrent : CacheCurrent lastValue (sendPorts true).value := by
    refine ⟨by decide +kernel, fun _ port hport => ?_⟩
    obtain ⟨h7, h45⟩ := mem_settingPorts.1 hport
    have hzero : (sendPorts true).value port = 0 := if_neg fun h => by
      have : port = 2 := h.1
      omega
    have hmem : port ∈ controlPorts := mem_controlPorts.2 ⟨by omega, h45⟩
    rw [hzero, show lastValue port = 0 from if_pos hmem]
  obtain ⟨lastValue', out, hstep, hburst⟩ := ((sendsBurst_iff_cacheCurrent 1 2 (by norm_num)).2
    lastValue hreach ⟨sendPorts true, outBuffer4096⟩ hsends).2 hcurrent
  exact ⟨lastValue, lastValue', out, hreach, hstep, hburst⟩

/-- Preset 5 selected and the configuration sent, all other ports at 0. -/
def presetAndSend : Ports where
  value port := if port = portControlSendConfiguration then 1
    else if port = portControlPreset then 5 else 0
  inRange port _ := by
    have hmax := one_le_maximum port
    split
    · exact ⟨zero_le_one, hmax⟩
    · split
      next hport =>
        rw [hport, show maximum portControlPreset = 110 from rfl]
        norm_num
      next => exact ⟨le_refl 0, zero_le_one.trans hmax⟩

/-- A preset selected in the run that sends the configuration is not sent: a fresh instance sends
the 38 settings instead, from its initial cache. -/
theorem presetAndSend_not_sent : ∃ out lastValue',
    (runs 1 2).Run [(⟨presetAndSend, outBuffer4096⟩, out)] lastValue' ∧
    selectedPresets presetAndSend.value = [5] ∧ out.events.length = 38 ∧
    SendsConfiguration presetAndSend.value instantiate ∧
    ¬SendsBurst 1 (⟨presetAndSend, outBuffer4096⟩, out) := by
  have hsends : SendsConfiguration presetAndSend.value instantiate :=
    ⟨(zero_ne_one : (0 : ℚ) ≠ 1), one_ne_zero⟩
  have hselected : selectedPresets presetAndSend.value = [5] := by decide +kernel
  have hcached : cachedPresets instantiate = [] := by decide +kernel
  obtain ⟨out, hstep, hevents⟩ :=
    exists_step (by norm_num : 1 < 2 ^ 32) 2 instantiate ⟨presetAndSend, outBuffer4096⟩
  have hlength : (sync presetAndSend.value controlPorts instantiate []).messages.length = 38 := by
    rw [sync_eq, if_pos hsends]
    simp only
    rw [configuration_update, configuration_eq_burst, if_pos hcached, List.length_map,
      length_settingPorts]
  refine ⟨out, _, Lts.Run.step (.init rfl) hstep, hselected, hevents.trans hlength, hsends, ?_⟩
  intro hburst
  have hcurrent := (sendsBurst_iff (by norm_num) hsends hstep).1 hburst
  have hpresets := hcurrent.presets.length_eq
  rw [hcached, hselected] at hpresets
  cases hpresets

end Soundcan.Setbfree
