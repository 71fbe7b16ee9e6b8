import Soundcan.Lib.Transition
import Soundcan.Setbfree.Plugin

/-!
# The messages of setbfreecontrol as MIDI

A message is computed from the cached values, which are -1 until the first run that takes the ports
over. So a run queues valid MIDI from then on (`valid_writeMidiSignal`), and the one run that can
queue an invalid message is a first run that sends the configuration.
-/

namespace Soundcan.Setbfree

/-- A control change of channels 0 to 2, or a program change of channel 0, with data bytes. -/
def ValidMidi : List UInt8 → Prop
  | [status, data, data'] =>
    (∃ channel : UInt8, channel ≤ 2 ∧ status = midiControlChange + channel) ∧
      data ≤ 127 ∧ data' ≤ 127
  | [status, data] => status = midiProgramChange ∧ data ≤ 127
  | _ => False

/-! ## Values in range -/

/-- A value between 0 and `n` is cast between 0 and `n`. -/
theorem truncInt_mem {q : ℚ} {n : ℤ} (h0 : 0 ≤ q) (hn : q ≤ n) :
    0 ≤ truncInt q ∧ truncInt q ≤ n := by
  rw [truncInt, if_pos h0]
  exact ⟨Int.floor_nonneg.2 h0, Int.floor_le_iff.2 (by linarith)⟩

/-- An `int` between 0 and 255 is stored as it is. -/
theorem toNat_ofInt {x : ℤ} (h0 : 0 ≤ x) (h : x ≤ 255) : (UInt8.ofInt x).toNat = x.toNat := by
  simp [UInt8.ofInt]
  omega

/-- An `int` between 0 and 127 is a data byte. -/
theorem ofInt_le {x : ℤ} (h0 : 0 ≤ x) (h : x ≤ 127) : UInt8.ofInt x ≤ 127 := by
  rw [UInt8.le_iff_toNat_le, toNat_ofInt h0 (by omega)]
  exact Int.toNat_le.2 h

/-- The converters give data bytes on the ranges they are made for. -/
theorem convert8to0_le {c : ℚ} (h0 : 0 ≤ c) (h : c ≤ 8) : convert8to0 c ≤ 127 := by
  have hq : c * 127 / 8 ≤ (127 : ℤ) := by push_cast; linarith
  obtain ⟨h1, h2⟩ := truncInt_mem (by positivity) hq
  exact ofInt_le (by omega) (by omega)

/-- A control from 0 to 1 gives a data byte. -/
theorem convertLinear_le {c : ℚ} (h0 : 0 ≤ c) (h : c ≤ 1) : convertLinear c ≤ 127 := by
  have hq : c * 127 ≤ (127 : ℤ) := by push_cast; linarith
  obtain ⟨h1, h2⟩ := truncInt_mem (by positivity) hq
  exact ofInt_le h1 h2

/-- A switch gives a data byte for every control. -/
theorem convert0to1_le (c : ℚ) : convert0to1 c ≤ 127 := by
  rw [convert0to1]
  split <;> decide

/-- A control from 0 to 2 gives a data byte. -/
theorem convert0to2_le {c : ℚ} (h0 : 0 ≤ c) (h : c ≤ 2) : convert0to2 c ≤ 127 := by
  have hq : c * 127 / 2 ≤ (127 : ℤ) := by push_cast; linarith
  obtain ⟨h1, h2⟩ := truncInt_mem (by positivity) hq
  exact ofInt_le h1 h2

/-- A control from 0 to 5 gives a data byte. -/
theorem convert0to5_le {c : ℚ} (h0 : 0 ≤ c) (h : c ≤ 5) : convert0to5 c ≤ 127 := by
  have hq : c * 127 / 5 ≤ (127 : ℤ) := by push_cast; linarith
  obtain ⟨h1, h2⟩ := truncInt_mem (by positivity) hq
  exact ofInt_le h1 h2

/-! ## Configurations -/

/-- The ports from 18 on are drawbars. -/
theorem midiConfig_drawbar {port : Nat} (h : 18 ≤ port) (h' : port < 45) :
    ∃ channel i, midiConfig port = drawbar channel i ∧ channel ≤ 2 ∧ i < 9 := by
  unfold midiConfig
  split <;> try omega
  next hport =>
    split
    next hlt =>
      have hlt : port < 27 := hlt
      exact ⟨0, port - 18, rfl, by decide, by omega⟩
    next hge =>
      have hge : ¬port < 27 := hge
      split
      next hlt =>
        have hlt : port < 36 := hlt
        exact ⟨1, port - 27, rfl, by decide, by omega⟩
      next => exact ⟨2, port - 36, rfl, by decide, by omega⟩

/-- A drawbar's control is a data byte. -/
theorem control_drawbar_le (channel : UInt8) {i : Nat} (hi : i < 9) :
    (drawbar channel i).control ≤ 127 := by
  rw [drawbar, UInt8.le_iff_toNat_le, UInt8.toNat_ofNat']
  have h127 : (127 : UInt8).toNat = 127 := rfl
  omega

/-- The drawbars range from 0 to 8. -/
theorem maximum_drawbar {port : Nat} (h : 18 ≤ port) : maximum port = 8 := by
  have h2 : port ≠ 2 := by omega
  have h6 : ¬port < 6 := by omega
  have h16 : ¬port < 16 := by omega
  have h16' : port ≠ 16 := by omega
  have h17 : port ≠ 17 := by omega
  rw [maximum, if_neg h2, if_neg h6, if_neg h16, if_neg h16', if_neg h17]

/-- A setting's configuration maps its declared range to data bytes of a channel up to 2. -/
theorem midiConfig_valid {port : Nat} (hport : port ∈ settingPorts) {c : ℚ} (h0 : 0 ≤ c)
    (h : c ≤ maximum port) : (midiConfig port).channel ≤ 2 ∧ (midiConfig port).control ≤ 127 ∧
      (midiConfig port).convert c ≤ 127 := by
  obtain ⟨hge, hlt⟩ := mem_settingPorts.1 hport
  by_cases hdraw : 18 ≤ port
  · obtain ⟨channel, i, hconfig, hchannel, hi⟩ := midiConfig_drawbar hdraw hlt
    rw [maximum_drawbar hdraw] at h
    rw [hconfig]
    exact ⟨hchannel, control_drawbar_le channel hi, convert8to0_le h0 h⟩
  · interval_cases port
    · exact ⟨by decide, by decide, convertLinear_le h0 h⟩
    · exact ⟨by decide, by decide, convertLinear_le h0 h⟩
    · exact ⟨by decide, by decide, convertLinear_le h0 h⟩
    · exact ⟨by decide, by decide, convert0to1_le c⟩
    · exact ⟨by decide, by decide, convert0to1_le c⟩
    · exact ⟨by decide, by decide, convert0to1_le c⟩
    · exact ⟨by decide, by decide, convert0to1_le c⟩
    · exact ⟨by decide, by decide, convert0to1_le c⟩
    · exact ⟨by decide, by decide, convert0to1_le c⟩
    · exact ⟨by decide, by decide, convert0to5_le h0 h⟩
    · exact ⟨by decide, by decide, convert0to2_le h0 h⟩

/-! ## Messages -/

/-- The cached values of the ports lie in their declared ranges. -/
def CacheInRange (lastValue : Nat → ℚ) : Prop :=
  ∀ port ∈ controlPorts, 0 ≤ lastValue port ∧ lastValue port ≤ maximum port

/-- A preset number is a data byte after the subtraction. -/
theorem preset_le {q : ℚ} (h0 : 0 ≤ q) (h : q ≤ 110) (hne : UInt8.ofInt (truncInt q) ≠ 0) :
    UInt8.ofInt (truncInt q) - 1 ≤ 127 := by
  obtain ⟨h1, h2⟩ := truncInt_mem h0 (n := 110) (by exact_mod_cast h)
  have hval := toNat_ofInt h1 (by omega)
  have hpos : (UInt8.ofInt (truncInt q)).toNat ≠ 0 := fun h => hne (UInt8.toNat_inj.1 h)
  have hle : (1 : UInt8) ≤ UInt8.ofInt (truncInt q) := by
    rw [UInt8.le_iff_toNat_le]
    have h1 : (1 : UInt8).toNat = 1 := rfl
    omega
  rw [UInt8.le_iff_toNat_le, UInt8.toNat_sub_of_le _ _ hle]
  have h127 : (127 : UInt8).toNat = 127 := rfl
  omega

/-- The message of a port behind the send-configuration port is valid when its cached value is in
range. -/
theorem valid_writeMidiSignal {lastValue : Nat → ℚ} {port : Nat} (h3 : 3 ≤ port) (h45 : port < 45)
    (h0 : 0 ≤ lastValue port) (h : lastValue port ≤ maximum port) :
    ∀ message ∈ writeMidiSignal lastValue port, ValidMidi message := by
  intro message hmem
  by_cases hpreset : port = 3 ∨ port = 4 ∨ port = 5
  · have hmax : maximum port = 110 := by rcases hpreset with rfl | rfl | rfl <;> rfl
    rw [hmax] at h
    rw [writeMidiSignal_preset hpreset] at hmem
    split at hmem
    next hne =>
      rw [List.mem_singleton.1 hmem]
      exact ⟨rfl, preset_le h0 h hne⟩
    next => simp at hmem
  · by_cases hrandom : port = 6
    · rw [hrandom, writeMidiSignal_random] at hmem
      split at hmem
      next =>
        rw [List.mem_singleton.1 hmem]
        exact ⟨rfl, by decide⟩
      next => simp at hmem
    · have hsetting : port ∈ settingPorts := mem_settingPorts.2 ⟨by omega, h45⟩
      obtain ⟨hchannel, hcontrol, hvalue⟩ := midiConfig_valid hsetting h0 h
      rw [writeMidiSignal_setting hsetting, List.mem_singleton] at hmem
      rw [hmem]
      exact ⟨⟨_, hchannel, rfl⟩, hcontrol, hvalue⟩

/-- The configuration is valid when the cache is in range. -/
theorem valid_configuration {lastValue : Nat → ℚ} (h : CacheInRange lastValue) :
    ∀ message ∈ configuration lastValue, ValidMidi message := by
  intro message hmem
  have hvalid : ∀ port, 3 ≤ port → port < 45 → ∀ message ∈ writeMidiSignal lastValue port,
      ValidMidi message := fun port h3 h45 => by
    obtain ⟨h0, hmax⟩ := h port (mem_controlPorts.2 ⟨by omega, h45⟩)
    exact valid_writeMidiSignal h3 h45 h0 hmax
  rw [configuration] at hmem
  split at hmem
  next =>
    simp only [List.mem_append] at hmem
    rcases hmem with (hmem | hmem) | hmem
    · exact hvalid 3 (by omega) (by omega) _ hmem
    · exact hvalid 4 (by omega) (by omega) _ hmem
    · exact hvalid 5 (by omega) (by omega) _ hmem
  next =>
    obtain ⟨port, hport, hmem⟩ := List.mem_flatMap.1 hmem
    obtain ⟨h7, h45⟩ := mem_settingPorts.1 hport
    exact hvalid port (by omega) h45 _ hmem

/-- The changes are valid when the ports are in range. -/
theorem valid_changes (ports : Ports) (lastValue : Nat → ℚ) :
    ∀ message ∈ changes ports.value lastValue, ValidMidi message := by
  intro message hmem
  obtain ⟨port, hport, hmem⟩ := List.mem_flatMap.1 hmem
  have hrange := List.mem_range'_1.1 (List.mem_filter.1 hport).1
  obtain ⟨h0, hmax⟩ := ports.inRange port (mem_controlPorts.2 ⟨by omega, by omega⟩)
  exact valid_writeMidiSignal (by omega) (by omega) h0 hmax message hmem

/-! ## Runs -/

/-- One call of `run`, as far as the message queue is concerned. -/
def runMessages (lastValue : Nat → ℚ) (ports : Ports) :
    Option ((Nat → ℚ) × List (List UInt8)) :=
  let synced := sync ports.value controlPorts lastValue []
  some (synced.lastValue, synced.messages)

/-- The calls of `run` on a fresh instance. -/
def messageRuns : Lts (Nat → ℚ) (Ports × List (List UInt8)) := .ofStep instantiate runMessages

/-- Every message a run queued is valid. -/
def AllValid (label : Ports × List (List UInt8)) : Prop := ∀ message ∈ label.2, ValidMidi message

/-- The ports are in range, so the cache is when it was taken over from them. -/
theorem cacheInRange_taken (ports : Ports) (lastValue : Nat → ℚ) :
    CacheInRange fun port => if port ∈ controlPorts then ports.value port else lastValue port := by
  intro port hport
  simp only [if_pos hport]
  exact ports.inRange port hport

/-- A run from a cache in range keeps it in range and queues valid messages. -/
theorem runMessages_valid {lastValue lastValue' : Nat → ℚ} {label : Ports × List (List UInt8)}
    (h : CacheInRange lastValue) (hstep : messageRuns.step lastValue label lastValue') :
    CacheInRange lastValue' ∧ AllValid label := by
  obtain ⟨rfl, hmessages⟩ := Prod.mk.inj (Option.some.inj hstep)
  rw [AllValid, ← hmessages, sync_eq]
  split
  next hsends =>
    have hcache : CacheInRange (Function.update lastValue 2 (label.1.value 2)) := by
      intro port hport
      by_cases hp : port = 2
      · rw [hp, Function.update_self]
        exact label.1.inRange 2 (by simp)
      · rw [Function.update_of_ne hp]
        exact h port hport
    exact ⟨hcache, valid_configuration hcache⟩
  next hsends => exact ⟨cacheInRange_taken _ _, valid_changes _ _⟩

/-- A first run that does not send the configuration takes every port over. -/
theorem runMessages_first {lastValue' : Nat → ℚ} {label : Ports × List (List UInt8)}
    (hzero : label.1.value portControlSendConfiguration = 0)
    (hstep : messageRuns.step instantiate label lastValue') :
    CacheInRange lastValue' ∧ AllValid label := by
  obtain ⟨rfl, hmessages⟩ := Prod.mk.inj (Option.some.inj hstep)
  rw [AllValid, ← hmessages, sync_eq, if_neg (fun h => h.2 hzero)]
  exact ⟨cacheInRange_taken _ _, valid_changes _ _⟩

/-- A first run that sends the configuration sends the first drawbar as 142. -/
theorem mem_runMessages_first {lastValue' : Nat → ℚ} {ports : Ports}
    {messages : List (List UInt8)} (hne : ports.value portControlSendConfiguration ≠ 0)
    (hstep : runMessages instantiate ports = some (lastValue', messages)) :
    [0xB0, 70, 142] ∈ messages := by
  have hsends : SendsConfiguration ports.value instantiate := ⟨Ne.symm hne, hne⟩
  obtain ⟨-, hmessages⟩ := Prod.mk.inj (Option.some.inj hstep)
  rw [sync_eq, if_pos hsends] at hmessages
  have hpresets : ∀ port, port = 3 ∨ port = 4 ∨ port = 5 →
      writeMidiSignal (Function.update instantiate 2 (ports.value 2)) port = [] := by
    intro port hport
    have hne2 : port ≠ 2 := by omega
    have hzero : Function.update instantiate 2 (ports.value 2) port = 0 := by
      rw [Function.update_of_ne hne2]
      exact if_pos (show port < 7 by omega)
    rw [writeMidiSignal_preset hport, hzero]
    decide +kernel
  have hconvert : (midiConfig 18).convert (instantiate 18) = 142 := by decide +kernel
  have hsettings := hmessages.symm.trans (configuration_settings hpresets)
  rw [hsettings]
  refine List.mem_flatMap.2 ⟨18, by decide, ?_⟩
  rw [writeMidiSignal_setting (by decide), Function.update_of_ne (by decide), hconvert]
  exact List.mem_singleton_self _

/-- That message is no MIDI message. -/
theorem not_allValid_first {lastValue' : Nat → ℚ} {label : Ports × List (List UInt8)}
    (hne : label.1.value portControlSendConfiguration ≠ 0)
    (hstep : messageRuns.step instantiate label lastValue') : ¬AllValid label := fun hvalid =>
  absurd (hvalid _ (mem_runMessages_first hne hstep)).2.2 (by decide)

/-- What a run on a fresh instance leaves behind: the instance as it was, or a cache in range with
valid messages only, or an invalid message from the first call. -/
theorem messageRuns_cases {tr : List (Ports × List (List UInt8))} {lastValue : Nat → ℚ}
    (h : messageRuns.Run tr lastValue) :
    (tr = [] ∧ lastValue = instantiate) ∨
      ∃ first rest, tr = first :: rest ∧
        if first.1.value portControlSendConfiguration = 0 then
          CacheInRange lastValue ∧ ∀ label ∈ tr, AllValid label
        else ¬AllValid first := by
  refine h.invariant (I := fun tr lastValue => (tr = [] ∧ lastValue = instantiate) ∨
    ∃ first rest, tr = first :: rest ∧
      if first.1.value portControlSendConfiguration = 0 then
        CacheInRange lastValue ∧ ∀ label ∈ tr, AllValid label
      else ¬AllValid first) ?_ ?_
  · exact fun _ hinit => .inl ⟨rfl, hinit⟩
  · rintro tr lastValue label lastValue' - (⟨rfl, rfl⟩ | ⟨first, rest, rfl, hinv⟩) hstep
    · refine .inr ⟨label, [], rfl, ?_⟩
      split
      next hzero =>
        obtain ⟨hcache, hvalid⟩ := runMessages_first hzero hstep
        exact ⟨hcache, by simpa using hvalid⟩
      next hne => exact not_allValid_first hne hstep
    · refine .inr ⟨first, rest ++ [label], rfl, ?_⟩
      split at hinv
      next hzero =>
        obtain ⟨hcache, hvalid⟩ := runMessages_valid hinv.1 hstep
        rw [if_pos hzero]
        refine ⟨hcache, fun x hx => ?_⟩
        rcases List.mem_append.1 hx with hx | hx
        · exact hinv.2 x hx
        · rw [List.mem_singleton.1 hx]
          exact hvalid
      next hne => rwa [if_neg hne]

/-- Every list of port values has its run, and the plugin queues only valid MIDI in it exactly when
the first run does not send the configuration. -/
theorem allValid_iff_first_zero (inputs : List Ports) :
    (∃ tr lastValue, messageRuns.Run tr lastValue ∧ tr.map Prod.fst = inputs) ∧
    ∀ tr lastValue, messageRuns.Run tr lastValue → tr.map Prod.fst = inputs →
      ((∀ label ∈ tr, AllValid label) ↔
        ∀ first ∈ inputs.head?, first.value portControlSendConfiguration = 0) := by
  constructor
  · obtain ⟨tr, lastValue, hrun, hmap, -⟩ : ∃ tr lastValue, messageRuns.Run tr lastValue ∧
        tr.map Prod.fst = inputs ∧ True :=
      Lts.ofStep_total trivial (fun lastValue ports _ => ⟨_, _, rfl, trivial⟩) inputs
    exact ⟨tr, lastValue, hrun, hmap⟩
  · rintro tr lastValue hrun rfl
    rcases messageRuns_cases hrun with ⟨rfl, -⟩ | ⟨first, rest, rfl, hinv⟩
    · simp
    · split at hinv
      next hzero => exact iff_of_true hinv.2 (by simpa using hzero)
      next hne =>
        refine iff_of_false (fun hvalid => hinv (hvalid first List.mem_cons_self)) ?_
        simpa using hne

/-- Every declared range holds 0 and 1. -/
theorem one_le_maximum (port : Nat) : 1 ≤ maximum port := by
  rw [maximum]
  split_ifs <;> norm_num

/-- All ports at 0 but the send-configuration port. -/
def sendPorts (send : Bool) : Ports where
  value port := if port = portControlSendConfiguration ∧ send = true then 1 else 0
  inRange port _ := by
    have hmax := one_le_maximum port
    split
    · exact ⟨zero_le_one, hmax⟩
    · exact ⟨le_refl 0, zero_le_one.trans hmax⟩

/-- A first run with all ports at 0, and then one that sends the configuration, queue valid MIDI. -/
theorem allValid_send_second : ∃ tr lastValue, messageRuns.Run tr lastValue ∧
    tr.map Prod.fst = [sendPorts false, sendPorts true] ∧ ∀ label ∈ tr, AllValid label := by
  obtain ⟨⟨tr, lastValue, hrun, hmap⟩, hvalid⟩ :=
    allValid_iff_first_zero [sendPorts false, sendPorts true]
  refine ⟨tr, lastValue, hrun, hmap, (hvalid tr lastValue hrun hmap).2 ?_⟩
  intro first hfirst
  rw [List.head?_cons, Option.mem_some_iff] at hfirst
  rw [← hfirst]
  rfl

/-- A fresh instance whose first run sends the configuration queues the data byte 142. -/
theorem send_first_not_allValid : ∃ messages lastValue,
    messageRuns.Run [(sendPorts true, messages)] lastValue ∧
    [0xB0, 70, 142] ∈ messages ∧ ¬ValidMidi [0xB0, 70, 142] := by
  obtain ⟨lastValue, messages, hstep⟩ : ∃ lastValue messages,
      runMessages instantiate (sendPorts true) = some (lastValue, messages) := ⟨_, _, rfl⟩
  refine ⟨messages, lastValue, Lts.Run.step (.init rfl) hstep, mem_runMessages_first ?_ hstep, ?_⟩
  · exact one_ne_zero
  · exact fun h => absurd h.2.2 (by decide)

end Soundcan.Setbfree
