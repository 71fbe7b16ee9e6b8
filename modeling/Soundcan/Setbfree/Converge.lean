import Soundcan.Setbfree.ValidMidi

/-!
# setbfreecontrol converges to its ports

The receiver of the plugin's messages keeps the last value of each controller
(`received`). What links it to the plugin is the cache: a setting's cached value is -1, or the
receiver has its conversion (`Synchronised`). Each path of a run keeps this, the configuration
because it sends cached values and the changes because they send what they put in the cache; and
after the changes the cache is the ports.
-/

namespace Soundcan.Setbfree

open Bytes Lv2

/-! ## Sending -/

/-- An output buffer as the host prepares it, with room for 42 three-byte events. -/
structure OutBuffer where
  block : Block
  capacity : Nat
  size : block.loadWord 4 0 = some capacity
  bound : capacity + 8 ≤ block.size
  small : block.size < 2 ^ 32
  room : 8 + 42 * 24 ≤ capacity

/-- A port sends at most one message, of at most three bytes. -/
theorem length_writeMidiSignal_le (lastValue : Nat → ℚ) (port : Nat) :
    (writeMidiSignal lastValue port).length ≤ 1 ∧
      ∀ message ∈ writeMidiSignal lastValue port, message.length ≤ 3 := by
  simp only [writeMidiSignal]
  split_ifs <;> simp

/-- Ports send at most one message each. -/
theorem length_flatMap_le (lastValue : Nat → ℚ) (ports : List Nat) :
    (ports.flatMap (writeMidiSignal lastValue)).length ≤ ports.length := by
  induction ports with
  | nil => simp
  | cons port ports ih =>
      have := (length_writeMidiSignal_le lastValue port).1
      rw [List.flatMap_cons, List.length_append, List.length_cons]
      omega

/-- The configuration is what some of the ports send. -/
theorem configuration_eq (lastValue : Nat → ℚ) :
    configuration lastValue = [3, 4, 5].flatMap (writeMidiSignal lastValue) ∨
      configuration lastValue = settingPorts.flatMap (writeMidiSignal lastValue) := by
  simp only [configuration]
  split_ifs
  · exact .inl (by simp)
  · exact .inr rfl

/-- The messages of a run are what some of the ports send, at most 42 of them, with the values that
are then in the cache. -/
theorem messages_eq (ports lastValue : Nat → ℚ) :
    ∃ senders : List Nat, senders.length ≤ 42 ∧ (∀ port ∈ senders, 3 ≤ port ∧ port < 45) ∧
      (sync ports controlPorts lastValue []).messages =
        senders.flatMap (writeMidiSignal (sync ports controlPorts lastValue []).lastValue) := by
  rw [sync_eq]
  split
  next =>
    rcases configuration_eq (Function.update lastValue 2 (ports 2)) with h | h
    · exact ⟨[3, 4, 5], by decide, by decide, h⟩
    · exact ⟨settingPorts, by decide, by decide, h⟩
  next =>
    refine ⟨(List.range' 3 42).filter fun port => lastValue port ≠ ports port, ?_, ?_, ?_⟩
    · exact (List.length_filter_le _ _).trans (by decide)
    · intro port hport
      have := List.mem_range'_1.1 (List.mem_filter.1 hport).1
      omega
    · refine List.flatMap_congr fun port hport => writeMidiSignal_congr ?_
      have := List.mem_range'_1.1 (List.mem_filter.1 hport).1
      simp only [mem_controlPorts]
      rw [if_pos (by omega)]

/-- The bytes of a list of short events. -/
theorem spanAll_midiEvent_le (uridMidiEvent : Nat) {messages : List (List UInt8)}
    (h : ∀ message ∈ messages, message.length ≤ 3) :
    spanAll (messages.map (midiEvent uridMidiEvent)) ≤ 24 * messages.length := by
  induction messages with
  | nil => simp
  | cons message messages ih =>
      have hlen : message.length ≤ 3 := h message List.mem_cons_self
      have hrest := ih fun m hm => h m (List.mem_cons_of_mem _ hm)
      have hspan : (midiEvent uridMidiEvent message).span ≤ 24 := by
        simp only [AtomEvent.span, midiEvent, pad8]
        omega
      rw [List.map_cons, spanAll_cons, List.length_cons]
      omega

/-- Sending makes a sequence of the messages of the buffer, and changes no byte between the header
and their events or behind them. -/
theorem send_sequence {uridMidiEvent : Nat} (hurid : uridMidiEvent < 2 ^ 32) (inType : Nat)
    (out : OutBuffer) {messages : List (List UInt8)} (hne : messages ≠ [])
    (hcount : messages.length ≤ 42) (hlen : ∀ message ∈ messages, message.length ≤ 3) :
    ∃ b, send uridMidiEvent inType out.block messages = some b ∧ b.size = out.block.size ∧
      IsSequence b (messages.map (midiEvent uridMidiEvent)) ∧
      ∀ i, 4 ≤ i ∧ i < 16 ∨ 16 + spanAll (messages.map (midiEvent uridMidiEvent)) ≤ i →
        b.byte i = ((out.block.put 0 (leBytes 4 8)).put 4 (leBytes 4 inType)).byte i := by
  have hbound := out.bound
  have hroom := out.room
  have hfits : ∀ ev ∈ messages.map (midiEvent uridMidiEvent), ev.Fits := by
    intro ev hev
    obtain ⟨message, hmem, rfl⟩ := List.mem_map.1 hev
    have := hlen message hmem
    exact ⟨by simp [midiEvent], hurid, by simp only [midiEvent]; omega⟩
  have hspan := spanAll_midiEvent_le uridMidiEvent hlen
  let typed := (out.block.put 0 (leBytes 4 8)).put 4 (leBytes 4 inType)
  have htyped : IsSequence typed [] := by
    refine ⟨?_, trivial, by simp, by simp only [typed, Block.size_put, spanAll_nil]; omega,
      out.small⟩
    rw [Block.loadWord_put (.inl (by omega)),
      Block.loadWord_put_self (by omega) (by norm_num)]
    rfl
  have hcapacity : out.capacity + 8 ≤ typed.size := hbound
  obtain ⟨b, hfold, hseq, hsize⟩ := foldlM_sequenceAppendEvent htyped hfits hcapacity
    (by rw [List.nil_append]; omega)
  refine ⟨b, ?_, hsize, by simpa using hseq, fun i hi => ?_⟩
  · rw [List.foldlM_map] at hfold
    rw [send, if_neg hne, out.size]
    simp only [Option.bind_eq_bind, Option.bind_some]
    rw [sequenceClear, Block.storeWord_eq (by omega), Option.bind_some,
      Block.storeWord_eq (by simp only [Block.size_put]; omega), Option.bind_some]
    exact hfold
  · exact foldlM_sequenceAppendEvent_byte htyped hfits hcapacity
      (by rw [List.nil_append]; omega) hfold (by rwa [List.nil_append])

/-- The output sequence gets every queued message, in order. -/
theorem send_eq {uridMidiEvent : Nat} (hurid : uridMidiEvent < 2 ^ 32) (inType : Nat)
    (out : OutBuffer) {messages : List (List UInt8)} (hne : messages ≠ [])
    (hcount : messages.length ≤ 42) (hlen : ∀ message ∈ messages, message.length ≤ 3) :
    ∃ b, send uridMidiEvent inType out.block messages = some b ∧
      sequenceEvents b = some (messages.map (midiEvent uridMidiEvent)) := by
  obtain ⟨b, hsend, -, hseq, -⟩ := send_sequence hurid inType out hne hcount hlen
  exact ⟨b, hsend, hseq.sequenceEvents⟩

/-- What sending leaves in the buffer: the sequence of the messages, typed, and behind it what there
was. -/
theorem send_spec {uridMidiEvent inType : Nat} (hurid : uridMidiEvent < 2 ^ 32)
    (hin : inType < 2 ^ 32) (out : OutBuffer) {messages : List (List UInt8)} (hne : messages ≠ [])
    (hcount : messages.length ≤ 42) (hlen : ∀ message ∈ messages, message.length ≤ 3) :
    ∃ b, send uridMidiEvent inType out.block messages = some b ∧ b.size = out.block.size ∧
      IsSequence b (messages.map (midiEvent uridMidiEvent)) ∧ b.loadWord 4 4 = some inType ∧
      ∀ i, 16 + spanAll (messages.map (midiEvent uridMidiEvent)) ≤ i →
        b.byte i = out.block.byte i := by
  have hbound := out.bound
  have hroom := out.room
  obtain ⟨b, hsend, hsize, hseq, hbyte⟩ := send_sequence hurid inType out hne hcount hlen
  refine ⟨b, hsend, hsize, hseq, ?_, fun i hi => ?_⟩
  · rw [Block.loadWord_congr (by simpa only [Block.size_put] using hsize)
      fun i hge hlt => hbyte i (by omega)]
    exact Block.loadWord_put_self (by simp only [Block.size_put]; omega) (by simpa using hin)
  · rw [hbyte i (.inr hi), Block.byte_put (.inr (by simp; omega)),
      Block.byte_put (.inr (by simp; omega))]

/-! ## Runs -/

/-- What one call of `run` gets: the port values and the output buffer. -/
structure RunInput where
  ports : Ports
  out : OutBuffer

/-- What it leaves: the events in the output sequence, none when the buffer was left as the host
prepared it, and whether it was left at the send-configuration port. -/
structure RunOutput where
  events : List AtomEvent
  sentConfiguration : Bool

/-- `run`, for an instance with the mapped `midi:MidiEvent` and a host that types input sequences
with `inType`. -/
def run (uridMidiEvent inType : Nat) (lastValue : Nat → ℚ) (input : RunInput) :
    Option ((Nat → ℚ) × RunOutput) := do
  let synced := sync input.ports.value controlPorts lastValue []
  let out ← send uridMidiEvent inType input.out.block synced.messages
  let events ← if synced.messages = [] then some [] else sequenceEvents out
  pure (synced.lastValue, ⟨events, synced.sentConfiguration⟩)

/-- The calls of `run` on a fresh instance. -/
def runs (uridMidiEvent inType : Nat) : Lts (Nat → ℚ) (RunInput × RunOutput) :=
  .ofStep instantiate (run uridMidiEvent inType)

/-- A call of `run` sends every queued message. -/
theorem run_eq {uridMidiEvent : Nat} (hurid : uridMidiEvent < 2 ^ 32) (inType : Nat)
    (lastValue : Nat → ℚ) (input : RunInput) :
    run uridMidiEvent inType lastValue input =
      some ((sync input.ports.value controlPorts lastValue []).lastValue,
        ⟨(sync input.ports.value controlPorts lastValue []).messages.map (midiEvent uridMidiEvent),
          (sync input.ports.value controlPorts lastValue []).sentConfiguration⟩) := by
  obtain ⟨senders, hcount, -, hmessages⟩ := messages_eq input.ports.value lastValue
  rw [run]
  simp only [Option.bind_eq_bind]
  by_cases hnil : (sync input.ports.value controlPorts lastValue []).messages = []
  · simp only [hnil, send, if_true, Option.bind_some, List.map_nil, Option.pure_def]
  · have hlen : ∀ message ∈ (sync input.ports.value controlPorts lastValue []).messages,
        message.length ≤ 3 := by
      intro message hmem
      rw [hmessages] at hmem
      obtain ⟨port, -, hmem⟩ := List.mem_flatMap.1 hmem
      exact (length_writeMidiSignal_le _ port).2 message hmem
    have hle : (sync input.ports.value controlPorts lastValue []).messages.length ≤ 42 := by
      rw [hmessages]
      exact (length_flatMap_le _ _).trans hcount
    obtain ⟨b, hsend, hevents⟩ := send_eq hurid inType input.out hnil hle hlen
    simp only [hsend, hevents, if_neg hnil, Option.bind_some, Option.pure_def]

/-! ## The receiver -/

/-- The controllers of a receiver, by channel and control. -/
abbrev Controllers : Type := UInt8 → UInt8 → Option UInt8

/-- A received control change sets its controller; other messages set none. -/
def receive (controllers : Controllers) : List UInt8 → Controllers
  | [status, control, value] => fun channel c =>
    if status = midiControlChange + channel ∧ control = c then some value
    else controllers channel c
  | _ => controllers

/-- The controllers after a list of messages: for each, the value of the last control change. -/
def received (messages : List (List UInt8)) : Controllers := messages.foldl receive fun _ _ => none

/-- A setting's controller. -/
def Controllers.setting (controllers : Controllers) (port : Nat) : Option UInt8 :=
  controllers (midiConfig port).channel (midiConfig port).control

/-- The 38 settings have different controllers. -/
theorem midiConfig_injective : ∀ port ∈ settingPorts, ∀ port' ∈ settingPorts,
    (midiConfig port).channel = (midiConfig port').channel →
    (midiConfig port).control = (midiConfig port').control → port = port' := by
  decide +kernel

/-- What a port sends sets its own controller to its cached value, and no other setting's. -/
theorem setting_writeMidiSignal {lastValue : Nat → ℚ} {port sender : Nat}
    (hport : port ∈ settingPorts) (h3 : 3 ≤ sender) (h45 : sender < 45)
    (controllers : Controllers) :
    ((writeMidiSignal lastValue sender).foldl receive controllers).setting port =
      if sender = port then some ((midiConfig port).convert (lastValue port))
      else controllers.setting port := by
  obtain ⟨h7, -⟩ := mem_settingPorts.1 hport
  by_cases hsender : sender ∈ settingPorts
  · rw [writeMidiSignal_setting hsender, List.foldl_cons, List.foldl_nil, Controllers.setting,
      receive]
    by_cases heq : sender = port
    · subst heq
      simp
    · have hne : ¬(midiControlChange + (midiConfig sender).channel =
            midiControlChange + (midiConfig port).channel ∧
          (midiConfig sender).control = (midiConfig port).control) := fun h =>
        heq (midiConfig_injective sender hsender port hport (UInt8.add_right_inj _ |>.1 h.1) h.2)
      exact (if_neg hne).trans (if_neg heq).symm
  · have hlt : sender < 7 := by
      rw [mem_settingPorts] at hsender
      omega
    rw [if_neg (by omega)]
    by_cases hrandom : sender = 6
    · rw [hrandom, writeMidiSignal_random]
      split <;> rfl
    · rw [writeMidiSignal_preset (by omega)]
      split <;> rfl

/-- What a list of ports sends sets their controllers to their cached values. -/
theorem setting_flatMap {lastValue : Nat → ℚ} {port : Nat} {senders : List Nat}
    (hport : port ∈ settingPorts) (h : ∀ sender ∈ senders, 3 ≤ sender ∧ sender < 45)
    (controllers : Controllers) :
    ((senders.flatMap (writeMidiSignal lastValue)).foldl receive controllers).setting port =
      if port ∈ senders then some ((midiConfig port).convert (lastValue port))
      else controllers.setting port := by
  induction senders generalizing controllers with
  | nil => simp
  | cons sender senders ih =>
      obtain ⟨h3, h45⟩ := h sender List.mem_cons_self
      rw [List.flatMap_cons, List.foldl_append, ih fun s hs => h s (List.mem_cons_of_mem _ hs),
        setting_writeMidiSignal hport h3 h45]
      by_cases hmem : port ∈ senders
      · simp [hmem]
      · by_cases heq : sender = port
        · simp [heq]
        · simp [hmem, heq, Ne.symm heq]

/-! ## Convergence -/

/-- The messages sent over the runs of a trace. -/
def sentMessages (tr : List (RunInput × RunOutput)) : List (List UInt8) :=
  tr.flatMap fun label => label.2.events.map AtomEvent.body

@[simp] theorem sentMessages_concat (tr : List (RunInput × RunOutput))
    (label : RunInput × RunOutput) :
    sentMessages (tr ++ [label]) = sentMessages tr ++ label.2.events.map AtomEvent.body := by
  simp [sentMessages]

/-- The cached value of each setting is -1, or the receiver has its conversion. -/
def Synchronised (lastValue : Nat → ℚ) (controllers : Controllers) : Prop :=
  ∀ port ∈ settingPorts, lastValue port = -1 ∨
    controllers.setting port = some ((midiConfig port).convert (lastValue port))

/-- The receiver has the conversion of each setting's port value. -/
def Converged (ports : Nat → ℚ) (controllers : Controllers) : Prop :=
  ∀ port ∈ settingPorts, controllers.setting port = some ((midiConfig port).convert (ports port))

/-- A synchronised receiver stays so when it gets messages of cached values. -/
theorem Synchronised.receive {lastValue : Nat → ℚ} {controllers : Controllers}
    (h : Synchronised lastValue controllers) {senders : List Nat}
    (hs : ∀ sender ∈ senders, 3 ≤ sender ∧ sender < 45) :
    Synchronised lastValue
      ((senders.flatMap (writeMidiSignal lastValue)).foldl receive controllers) := by
  intro port hport
  rw [setting_flatMap hport hs]
  split
  next => exact .inr rfl
  next => exact h port hport

/-- A configuration run keeps the receiver synchronised: it changes no setting's cached value. -/
theorem Synchronised.configuration {lastValue : Nat → ℚ} {controllers : Controllers}
    (h : Synchronised lastValue controllers) (value : ℚ) :
    Synchronised (Function.update lastValue 2 value)
      ((configuration (Function.update lastValue 2 value)).foldl Setbfree.receive controllers) := by
  have hcache : Synchronised (Function.update lastValue 2 value) controllers := by
    intro port hport
    have hne : port ≠ 2 := by
      rw [mem_settingPorts] at hport
      omega
    rw [Function.update_of_ne hne]
    exact h port hport
  rcases configuration_eq (Function.update lastValue 2 value) with heq | heq
  · rw [heq]
    exact hcache.receive (by decide)
  · rw [heq]
    exact hcache.receive (by decide)

/-- A run of changes makes the receiver converge: a port that changed is sent, and one that did not
has its value in the cache, which is not -1. -/
theorem Synchronised.changes {lastValue : Nat → ℚ} {controllers : Controllers}
    (h : Synchronised lastValue controllers) (ports : Ports) :
    Converged ports.value
      ((changes ports.value lastValue).foldl Setbfree.receive controllers) := by
  intro port hport
  obtain ⟨h7, h45⟩ := mem_settingPorts.1 hport
  have hrange := ports.inRange port (mem_controlPorts.2 ⟨by omega, h45⟩)
  rw [Setbfree.changes, setting_flatMap hport fun sender hs => by
    have := List.mem_range'_1.1 (List.mem_filter.1 hs).1
    omega]
  split
  next => rfl
  next hmem =>
    have hcached : lastValue port = ports.value port := by
      by_contra hne
      exact hmem (List.mem_filter.2 ⟨List.mem_range'_1.2 (by omega), by simpa using hne⟩)
    rcases h port hport with hinit | hset
    · rw [← hcached, hinit] at hrange
      exact absurd hrange.1 (by norm_num)
    · rw [hset, hcached]

/-- Each run keeps the receiver synchronised, and makes it converge unless it was left at the
send-configuration port. -/
theorem run_synchronised {uridMidiEvent inType : Nat} (hurid : uridMidiEvent < 2 ^ 32)
    {tr : List (RunInput × RunOutput)} {lastValue lastValue' : Nat → ℚ}
    {label : RunInput × RunOutput} (h : Synchronised lastValue (received (sentMessages tr)))
    (hstep : (runs uridMidiEvent inType).step lastValue label lastValue') :
    Synchronised lastValue' (received (sentMessages (tr ++ [label]))) ∧
      (label.2.sentConfiguration = false →
        Converged label.1.ports.value (received (sentMessages (tr ++ [label])))) := by
  have hrun := (run_eq hurid inType lastValue label.1).symm.trans hstep
  obtain ⟨rfl, hout⟩ := Prod.mk.inj (Option.some.inj hrun)
  have hbodies : (sync label.1.ports.value controlPorts lastValue []).messages =
      label.2.events.map AtomEvent.body := by
    rw [← hout, List.map_map]
    exact (List.map_id _).symm
  rw [sentMessages_concat, received, List.foldl_append, ← hbodies, ← hout, ← received]
  rw [sync_eq]
  split
  next => exact ⟨h.configuration _, fun hfalse => nomatch hfalse⟩
  next =>
    have hconverged := h.changes label.1.ports
    refine ⟨fun port hport => .inr ?_, fun _ => hconverged⟩
    have hmem : port ∈ controlPorts := by
      rw [mem_settingPorts] at hport
      exact mem_controlPorts.2 ⟨by omega, hport.2⟩
    simp only [if_pos hmem]
    exact hconverged port hport

/-- What a run leaves in its output tells whether it sent the configuration. -/
theorem sentConfiguration_iff {uridMidiEvent inType : Nat} (hurid : uridMidiEvent < 2 ^ 32)
    {lastValue lastValue' : Nat → ℚ} {label : RunInput × RunOutput}
    (hstep : (runs uridMidiEvent inType).step lastValue label lastValue') :
    label.2.sentConfiguration = true ↔ SendsConfiguration label.1.ports.value lastValue := by
  have hrun := (run_eq hurid inType lastValue label.1).symm.trans hstep
  obtain ⟨-, hout⟩ := Prod.mk.inj (Option.some.inj hrun)
  rw [← hout, sync_eq]
  split
  next hsends => exact iff_of_true rfl hsends
  next hsends => exact iff_of_false Bool.false_ne_true hsends

/-- In every run the receiver has the settings of the cache. -/
theorem synchronised_of_run {uridMidiEvent inType : Nat} (hurid : uridMidiEvent < 2 ^ 32)
    {tr : List (RunInput × RunOutput)} {lastValue : Nat → ℚ}
    (h : (runs uridMidiEvent inType).Run tr lastValue) :
    Synchronised lastValue (received (sentMessages tr)) := by
  refine h.invariant (I := fun tr lastValue =>
    Synchronised lastValue (received (sentMessages tr))) ?_ ?_
  · rintro lastValue rfl port hport
    refine .inl (if_neg ?_)
    rw [mem_settingPorts] at hport
    change ¬port < 7
    omega
  · exact fun tr lastValue label lastValue' _ hsync hstep =>
      (run_synchronised hurid hsync hstep).1

/-- Convergence: every list of inputs has its run, and after each call of `run` that did not send
the configuration (the send-configuration port is 0, or as it is cached) the last control change
sent on each setting's channel and control has the conversion of its port. -/
theorem runs_converge (uridMidiEvent inType : Nat) (hurid : uridMidiEvent < 2 ^ 32) :
    (∀ inputs, ∃ tr lastValue, (runs uridMidiEvent inType).Run tr lastValue ∧
      tr.map Prod.fst = inputs) ∧
    (∀ tr lastValue, (runs uridMidiEvent inType).Run tr lastValue →
      Lts.EachStep (fun before label => label.2.sentConfiguration = false →
        Converged label.1.ports.value (received (sentMessages (before ++ [label])))) tr) ∧
    ∀ tr lastValue label lastValue', (runs uridMidiEvent inType).Run tr lastValue →
      (runs uridMidiEvent inType).step lastValue label lastValue' →
      ¬SendsConfiguration label.1.ports.value lastValue →
      Converged label.1.ports.value (received (sentMessages (tr ++ [label]))) := by
  refine ⟨fun inputs => ?_, fun tr lastValue hrun => ?_,
    fun tr lastValue label lastValue' hrun hstep hsends => ?_⟩
  · obtain ⟨tr, lastValue, hrun, hmap, -⟩ : ∃ tr lastValue,
        (runs uridMidiEvent inType).Run tr lastValue ∧ tr.map Prod.fst = inputs ∧ True :=
      Lts.ofStep_total trivial
        (fun lastValue input _ => ⟨_, _, run_eq hurid inType lastValue input, trivial⟩) inputs
    exact ⟨tr, lastValue, hrun, hmap⟩
  · refine hrun.invariant (I := fun tr _ => Lts.EachStep _ tr) (fun _ _ => Lts.eachStep_nil) ?_
    intro tr lastValue label lastValue' hrun heach hstep
    have hsync := synchronised_of_run hurid hrun
    exact Lts.eachStep_concat.2 ⟨heach, (run_synchronised hurid hsync hstep).2⟩
  · refine (run_synchronised hurid (synchronised_of_run hurid hrun) hstep).2 ?_
    exact Bool.eq_false_iff.2 (mt (sentConfiguration_iff hurid hstep).1 hsends)

/-- A zeroed buffer of 4096 bytes as the host prepares it. -/
def outBuffer4096 : OutBuffer where
  block := (Block.zeroed 4096).put 0 (leBytes 4 4088)
  capacity := 4088
  size := Block.loadWord_put_self (by norm_num) (by norm_num)
  bound := le_refl 4096
  small := by norm_num
  room := by norm_num

/-- A run that sends the configuration and one that resets the port have their run, and converge. -/
theorem runs_converge_send : ∃ tr lastValue, (runs 1 2).Run tr lastValue ∧
    tr.map Prod.fst = [⟨sendPorts true, outBuffer4096⟩, ⟨sendPorts false, outBuffer4096⟩] ∧
    Lts.EachStep (fun before label => label.2.sentConfiguration = false →
      Converged label.1.ports.value (received (sentMessages (before ++ [label])))) tr := by
  obtain ⟨tr, lastValue, hrun, hmap⟩ := (runs_converge 1 2 (by norm_num)).1
    [⟨sendPorts true, outBuffer4096⟩, ⟨sendPorts false, outBuffer4096⟩]
  exact ⟨tr, lastValue, hrun, hmap, (runs_converge 1 2 (by norm_num)).2.1 tr lastValue hrun⟩

end Soundcan.Setbfree
