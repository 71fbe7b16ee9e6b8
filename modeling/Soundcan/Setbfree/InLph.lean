import Soundcan.Lph.AtomOutput
import Soundcan.Setbfree.Converge

/-!
# setbfreecontrol in lv2-pw-host

The control inputs of this host are zeroed and nothing sets them. So the plugin has messages in the
first cycle only, the settings at 0, and behind that it leaves its output as the host prepared it.
The host prepares an output as a chunk of its capacity, and goes through it event by event: it meets
the settings of the first cycle, which are still there, and behind them zeros. Every buffer that it
gets from PipeWire is queued with the same settings again (`settings_queued_again`).
-/

namespace Soundcan.Setbfree

open Bytes Lv2 Lph

/-- The plugin, with its cached values, and the port of its event output. -/
structure InLph where
  lastValue : Nat → ℚ
  out : AtomOutputPort

/-- `port_data.control_input.current` of each control input. -/
def current : Ports where
  value _ := 0
  inRange port hport := by
    refine ⟨le_rfl, ?_⟩
    rw [maximum]
    split_ifs <;> norm_num

/-- `on_process` with the plugin, as far as it concerns the event output, with the buffer that was
queued. The input is a zeroed atom buffer, of whose type nothing but 0 is ever written. -/
def onProcess (constants : Constants) (fuel : Nat) (s : InLph) (dequeued : Option Nat) :
    Option (InLph × Option PwBuffer) := do
  let port ← preRunAtomOutput constants s.out dequeued
  let synced := sync current.value controlPorts s.lastValue []
  let buffer ← send constants.midiMidiEvent 0 port.buffer synced.messages
  let port ← postRunAtomOutput constants fuel { port with buffer }
  some (⟨synced.lastValue, port⟩, port.pwbuffer.map port.pool)

/-- The cycles of a fresh instance, whose output port has the given PipeWire buffers. -/
def inLph (constants : Constants) (pool : Nat → PwBuffer) :
    Lts InLph (Option Nat × Option PwBuffer) where
  init s := s = ⟨instantiate, setupAtomOutput pool⟩
  step s label s' := ∃ fuel, onProcess constants fuel s label.1 = some (s', label.2)

/-! ## The walk behind the events -/

section Walk
variable {constants : Constants} {b : Block}

/-- Over zeros the walk meets no event. -/
theorem midiWalk_zeros {a payload : Nat} (hzero : ∀ i, a ≤ i → b.byte i = 0)
    (hmod : a % 8 = 0) (hpayload : payload % 8 = 0) (hsize : b.size % 8 = 0)
    (hbound : a + payload ≤ b.size + 8) : MidiWalk constants b payload a [] := by
  have hword : ∀ i, a ≤ i → i + 4 ≤ b.size → loadWordAt b 4 i = some 0 := by
    intro i hge hle
    rw [loadWordAt_natCast, ← Block.loadWord_zeroed hle]
    exact Block.loadWord_congr rfl fun j hj _ => hzero j (hge.trans hj)
  induction payload using Nat.strong_induction_on generalizing a with
  | h payload ih =>
      by_cases hle : payload ≤ 16
      · exact .stop (by omega)
      · have hstep : eventSize 0 = (16 : Nat) := by
          rw [eventSize_eq (by norm_num)]
          rfl
        have hrest : MidiWalk constants b (payload - 16 : Nat) (a + 16 : Nat) [] :=
          ih (payload - 16) (by omega) (fun i hi => hzero i (by omega)) (by omega) (by omega)
            (by omega) fun i hi => hword i (by omega)
        have hsize : loadWordAt b 4 (a + 8) = some 0 := hword (a + 8) (by omega) (by omega)
        refine .other (by omega) (hword (a + 12) (by omega) (by omega))
          constants.midiMidiEvent_pos.ne hsize ?_
        rw [hstep]
        convert hrest using 1
        · omega
        · push_cast
          ring

end Walk

/-! ## The messages of the plugin -/

/-- The settings at 0, as the plugin sends them. -/
def zeroSettings : List (List UInt8) := settingPorts.flatMap (writeMidiSignal current.value)

/-- The cache behind the first cycle. -/
def cached : Nat → ℚ := fun port => if port ∈ controlPorts then 0 else instantiate port

/-- With its settings at 0 the plugin is not asked for its configuration. -/
theorem not_sendsConfiguration (lastValue : Nat → ℚ) :
    ¬SendsConfiguration current.value lastValue :=
  fun h => h.2 rfl

/-- The first cycle sends the settings. -/
theorem sync_instantiate :
    sync current.value controlPorts instantiate [] = ⟨cached, zeroSettings, false⟩ := by
  have hchanged : (List.range' 3 42).filter
      (fun port => instantiate port ≠ current.value port) = settingPorts := by
    decide
  rw [sync_eq, if_neg (not_sendsConfiguration _), changes, hchanged]
  rfl

/-- A later cycle sends nothing. -/
theorem sync_cached : sync current.value controlPorts cached [] = ⟨cached, [], false⟩ := by
  have hunchanged : (List.range' 3 42).filter
      (fun port => cached port ≠ current.value port) = [] := by
    rw [List.filter_eq_nil_iff]
    intro port hport
    have hrange := List.mem_range'_1.1 hport
    have hmem : port ∈ controlPorts := mem_controlPorts.2 (by omega)
    simp [cached, hmem, current]
  rw [sync_eq, if_neg (not_sendsConfiguration _), changes, hunchanged]
  congr 1
  funext port
  by_cases hmem : port ∈ controlPorts
  · rw [if_pos hmem, cached, if_pos hmem]
    rfl
  · rw [if_neg hmem]

/-- There is some setting in the cycle. -/
theorem zeroSettings_ne_nil : zeroSettings ≠ [] := by
  have hmem : 7 ∈ settingPorts := mem_settingPorts.2 (by norm_num)
  intro hnil
  have hmessage := List.flatMap_eq_nil_iff.1 hnil 7 hmem
  rw [writeMidiSignal_setting hmem] at hmessage
  exact List.cons_ne_nil _ _ hmessage

/-- There are at most 42 of them. -/
theorem length_zeroSettings_le : zeroSettings.length ≤ 42 :=
  (length_flatMap_le _ _).trans (by decide)

/-- Each has three bytes at most. -/
theorem length_le_of_mem_zeroSettings : ∀ message ∈ zeroSettings, message.length ≤ 3 := by
  intro message hmem
  obtain ⟨port, -, hmem⟩ := List.mem_flatMap.1 hmem
  exact (length_writeMidiSignal_le _ port).2 message hmem

/-! ## One cycle -/

section Cycle
variable {constants : Constants} {pool : Nat → PwBuffer} {s s' : InLph} {dequeued : Option Nat}
  {q : Option PwBuffer}

/-- The events of the settings. -/
def zeroEvents (constants : Constants) : List AtomEvent :=
  zeroSettings.map (midiEvent constants.midiMidiEvent)

/-- Their events take 1008 bytes at most. -/
theorem spanAll_zeroEvents_le (constants : Constants) : spanAll (zeroEvents constants) ≤ 1008 := by
  have hspan := spanAll_midiEvent_le constants.midiMidiEvent length_le_of_mem_zeroSettings
  have hlength := length_zeroSettings_le
  rw [zeroEvents]
  omega

/-- Each event fits the size field of its header. -/
theorem fits_zeroEvents (constants : Constants) : ∀ ev ∈ zeroEvents constants, ev.Fits := by
  intro ev hev
  obtain ⟨message, hmem, rfl⟩ := List.mem_map.1 hev
  have := length_le_of_mem_zeroSettings message hmem
  exact ⟨by simp [midiEvent], constants.midiMidiEvent_lt, by simp only [midiEvent]; omega⟩

/-- All of the events are MIDI, with these bodies. -/
theorem midiBodies_zeroEvents (constants : Constants) :
    midiBodies constants (zeroEvents constants) = zeroSettings := by
  have hall : (zeroEvents constants).filter
      (fun ev => ev.type = constants.midiMidiEvent) = zeroEvents constants := by
    rw [List.filter_eq_self]
    intro ev hev
    obtain ⟨message, -, rfl⟩ := List.mem_map.1 hev
    exact decide_eq_true rfl
  rw [midiBodies, hall, zeroEvents, List.map_map]
  exact List.map_id _

/-- The settings lie in the atom buffer, and behind them zeros. -/
structure HoldsSettings (constants : Constants) (b : Block) : Prop where
  size : b.size = 8192
  events : HoldsEvents b 16 (zeroEvents constants)
  zeros : ∀ i, 16 + spanAll (zeroEvents constants) ≤ i → b.byte i = 0

/-- The chunk has the size of its block. -/
theorem size_chunk (constants : Constants) (b : Block) : (chunk constants b).size = b.size := by
  simp only [chunk, Block.size_put]

/-- The header of the chunk gives the capacity to the plugin. -/
theorem loadWord_chunk (constants : Constants) {b : Block} (hb : b.size = 8192) :
    (chunk constants b).loadWord 4 0 = some 8184 := by
  rw [chunk, Block.loadWord_put (by simp), Block.loadWord_put_self (by omega) (by norm_num)]

/-- The capacity is inside the block. -/
theorem chunk_bound (constants : Constants) {b : Block} (hb : b.size = 8192) :
    8184 + 8 ≤ (chunk constants b).size ∧ (chunk constants b).size < 2 ^ 32 := by
  rw [size_chunk, hb]
  norm_num

/-- The atom buffer as `pre_run_atom_output` prepares it has room for what the plugin sends. -/
def chunkBuffer (constants : Constants) (b : Block) (hb : b.size = 8192) : OutBuffer where
  block := chunk constants b
  capacity := 8184
  size := loadWord_chunk constants hb
  bound := (chunk_bound constants hb).1
  small := (chunk_bound constants hb).2
  room := Nat.le_of_ble_eq_true rfl

/-- What the plugin leaves is walked over the settings. -/
def WalksSettings (constants : Constants) (b : Block) : Prop :=
  ∃ size, b.loadWord 4 0 = some size ∧ 16 < size ∧ MidiWalk constants b size 16 zeroSettings

/-- In the first cycle the plugin writes the settings. -/
theorem send_first (constants : Constants) :
    ∃ b, send constants.midiMidiEvent 0 (chunk constants (Block.zeroed 8192)) zeroSettings =
      some b ∧ HoldsSettings constants b ∧ WalksSettings constants b := by
  have hspan := spanAll_zeroEvents_le constants
  have hin : 0 < 2 ^ 32 := by norm_num
  obtain ⟨b, hsend, hsize, hseq, -, hbyte⟩ := send_spec constants.midiMidiEvent_lt hin
    (chunkBuffer constants (Block.zeroed 8192) rfl)
    zeroSettings_ne_nil length_zeroSettings_le length_le_of_mem_zeroSettings
  have hzeros : ∀ i, 16 + spanAll (zeroEvents constants) ≤ i → b.byte i = 0 := by
    intro i hi
    rw [hbyte i hi]
    show (chunk constants (Block.zeroed 8192)).byte i = 0
    rw [chunk, Block.byte_put (.inr (by simp; omega)), Block.byte_put (.inr (by simp; omega))]
    rfl
  refine ⟨b, hsend, ⟨hsize, hseq.events, hzeros⟩, _, hseq.size, ?_, ?_⟩
  · obtain ⟨message, messages, hcons⟩ := List.exists_cons_of_ne_nil zeroSettings_ne_nil
    have hevent := (midiEvent constants.midiMidiEvent message).sixteen_le_span
    rw [hcons, List.map_cons, spanAll_cons]
    omega
  · have hwalk : MidiWalk constants b (8 + spanAll (zeroEvents constants) : Nat) (16 : Nat)
        (midiBodies constants (zeroEvents constants)) :=
      Lph.HoldsEvents.midiWalk hseq.fits hseq.events (hspan.trans (by norm_num))
    rwa [midiBodies_zeroEvents] at hwalk

/-- Behind it the plugin writes nothing, and they are still there. -/
theorem HoldsSettings.chunk {b : Block} (h : HoldsSettings constants b) :
    HoldsSettings constants (Lph.chunk constants b) ∧
      WalksSettings constants (Lph.chunk constants b) := by
  have hspan := spanAll_zeroEvents_le constants
  have hmod := spanAll_mod (zeroEvents constants)
  have hholds : HoldsSettings constants (Lph.chunk constants b) := by
    refine ⟨h.size, (h.events.put (.inr (by simp))).put (.inr (by simp)), fun i hi => ?_⟩
    rw [Lph.chunk, Block.byte_put (.inr (by simp; omega)), Block.byte_put (.inr (by simp; omega)),
      h.zeros i hi]
  have hzeros : MidiWalk constants (Lph.chunk constants b)
      (8184 - spanAll (zeroEvents constants) : Nat) (16 + spanAll (zeroEvents constants) : Nat)
      [] := by
    have hsize := hholds.size
    exact midiWalk_zeros hholds.zeros (by omega) (by omega) (by omega) (by omega)
  have hwalk := Lph.HoldsEvents.midiWalk_append (fits_zeroEvents constants) hholds.events (by omega)
    (by omega) hzeros
  rw [midiBodies_zeroEvents, List.append_nil] at hwalk
  refine ⟨hholds, 8184, (chunkBuffer constants b h.size).size, by norm_num, ?_⟩
  rwa [Nat.add_sub_cancel' (by omega)] at hwalk

/-- The PipeWire buffers when one has been queued with a pod. -/
def queue (pool : Nat → PwBuffer) (dequeued : Option Nat) (bodies : List (List UInt8)) :
    Nat → PwBuffer :=
  match dequeued with
  | none => pool
  | some id => Function.update pool id (podBuffer (pool id).maxsize bodies)

/-- A buffer keeps its size. -/
theorem maxsize_queue (pool : Nat → PwBuffer) (dequeued : Option Nat) (bodies : List (List UInt8))
    (id : Nat) : (queue pool dequeued bodies id).maxsize = (pool id).maxsize := by
  cases dequeued with
  | none => rfl
  | some id' =>
      by_cases hid : id = id'
      · subst hid
        rw [queue, Function.update_self]
        rfl
      · rw [queue, Function.update_of_ne hid]

/-- A walk over the settings queues them in the buffer of the cycle, if it has one. -/
theorem postRunAtomOutput_iff {b : Block} (h : WalksSettings constants b) {port : AtomOutputPort} :
    (∃ fuel, postRunAtomOutput constants fuel ⟨b, dequeued, pool⟩ = some port) ↔
      port = ⟨b, dequeued, queue pool dequeued zeroSettings⟩ := by
  obtain ⟨size, hsize, hlt, hwalk⟩ := h
  cases dequeued with
  | none =>
      simp only [postRunAtomOutput, Option.some.injEq, exists_const]
      exact eq_comm
  | some id =>
      simp only [postRunAtomOutput_walk hsize hlt, Option.map_eq_some_iff]
      constructor
      · rintro ⟨fuel, builder, hloop, rfl⟩
        obtain ⟨bodies, hwalk', rfl⟩ := midiWalk_of_postRunLoop hloop
        obtain rfl := hwalk.unique hwalk'
        rfl
      · rintro rfl
        obtain ⟨fuel, hloop⟩ := hwalk.postRunLoop Builder.pushSequence
        exact ⟨fuel, _, hloop, rfl⟩

/-- A cycle in which the plugin leaves something to walk over the settings. -/
theorem step_inLph {b : Block} (hb : s.out.buffer.size = 8192)
    (hsend : send constants.midiMidiEvent 0 (chunk constants s.out.buffer)
      (sync current.value controlPorts s.lastValue []).messages = some b)
    (hwalks : WalksSettings constants b) :
    (inLph constants pool).step s (dequeued, q) s' ↔
      s' = ⟨(sync current.value controlPorts s.lastValue []).lastValue,
        ⟨b, dequeued, queue s.out.pool dequeued zeroSettings⟩⟩ ∧
      q = dequeued.map fun id => podBuffer (s.out.pool id).maxsize zeroSettings := by
  have hqueued : dequeued.map (queue s.out.pool dequeued zeroSettings) =
      dequeued.map fun id => podBuffer (s.out.pool id).maxsize zeroSettings := by
    cases dequeued with
    | none => rfl
    | some id => rw [Option.map_some, Option.map_some, queue, Function.update_self]
  have hcycle : ∀ fuel, onProcess constants fuel s dequeued =
      (postRunAtomOutput constants fuel ⟨b, dequeued, s.out.pool⟩).map fun port =>
        (⟨(sync current.value controlPorts s.lastValue []).lastValue, port⟩,
          port.pwbuffer.map port.pool) := by
    intro fuel
    simp only [onProcess, preRunAtomOutput_eq hb, Option.bind_eq_bind, Option.bind_some, hsend,
      Option.map_eq_bind]
    rfl
  simp only [inLph, hcycle, Option.map_eq_some_iff]
  constructor
  · rintro ⟨fuel, port, hpost, heq⟩
    obtain rfl := (postRunAtomOutput_iff hwalks).1 ⟨fuel, hpost⟩
    obtain ⟨rfl, rfl⟩ := Prod.mk.inj heq
    exact ⟨rfl, hqueued⟩
  · rintro ⟨rfl, rfl⟩
    obtain ⟨fuel, hpost⟩ : ∃ fuel, postRunAtomOutput constants fuel ⟨_, dequeued, s.out.pool⟩ =
      some _ := (postRunAtomOutput_iff hwalks).2 rfl
    exact ⟨fuel, _, hpost, by rw [← hqueued]⟩

end Cycle

/-! ## Runs -/

/-- The host has set up the port, or the plugin has run and its settings are in the atom buffer. The
PipeWire buffers keep their sizes. -/
structure SendsSettings (constants : Constants) (pool : Nat → PwBuffer) (s : InLph) : Prop where
  buffer : s.lastValue = instantiate ∧ s.out.buffer = Block.zeroed 8192 ∨
    s.lastValue = cached ∧ HoldsSettings constants s.out.buffer
  maxsize : ∀ id, (s.out.pool id).maxsize = (pool id).maxsize

section Runs
variable {constants : Constants} {pool : Nat → PwBuffer} {s s' : InLph} {dequeued : Option Nat}
  {q : Option PwBuffer}

/-- In each cycle the plugin leaves a buffer that holds the settings and is walked over them. -/
theorem SendsSettings.exists_send (h : SendsSettings constants pool s) :
    s.out.buffer.size = 8192 ∧
      (sync current.value controlPorts s.lastValue []).lastValue = cached ∧
      ∃ b, send constants.midiMidiEvent 0 (chunk constants s.out.buffer)
        (sync current.value controlPorts s.lastValue []).messages = some b ∧
        HoldsSettings constants b ∧ WalksSettings constants b := by
  rcases h.buffer with ⟨hcache, hbuffer⟩ | ⟨hcache, hholds⟩
  · rw [hcache, hbuffer, sync_instantiate]
    exact ⟨rfl, rfl, send_first constants⟩
  · rw [hcache, sync_cached]
    exact ⟨hholds.size, rfl, _, rfl, hholds.chunk⟩

/-- What the cycle does, whatever buffer it has. -/
theorem SendsSettings.step_iff (h : SendsSettings constants pool s) : ∃ b,
    HoldsSettings constants b ∧ ∀ dequeued q s',
      (inLph constants pool).step s (dequeued, q) s' ↔
        s' = ⟨cached, ⟨b, dequeued, queue s.out.pool dequeued zeroSettings⟩⟩ ∧
        q = dequeued.map fun id => podBuffer (pool id).maxsize zeroSettings := by
  obtain ⟨hb, hcached, b, hsend, hholds, hwalks⟩ := h.exists_send
  refine ⟨b, hholds, fun dequeued q s' => ?_⟩
  rw [step_inLph hb hsend hwalks, hcached]
  simp only [h.maxsize]

/-- The settings are sent again in the next cycle. -/
theorem SendsSettings.step (h : SendsSettings constants pool s)
    (hstep : (inLph constants pool).step s (dequeued, q) s') :
    SendsSettings constants pool s' ∧
      q = dequeued.map fun id => podBuffer (pool id).maxsize zeroSettings := by
  obtain ⟨b, hholds, hiff⟩ := h.step_iff
  obtain ⟨rfl, rfl⟩ := (hiff dequeued q s').1 hstep
  refine ⟨⟨.inr ⟨rfl, hholds⟩, fun id => ?_⟩, rfl⟩
  rw [maxsize_queue, h.maxsize]

/-- Every cycle of a run sends the settings again. -/
theorem sendsSettings_of_run {tr : List (Option Nat × Option PwBuffer)}
    (h : (inLph constants pool).Run tr s) :
    SendsSettings constants pool s ∧ ∀ label ∈ tr,
      label.2 = label.1.map fun id => podBuffer (pool id).maxsize zeroSettings := by
  refine h.invariant (I := fun tr s => SendsSettings constants pool s ∧ ∀ label ∈ tr,
    label.2 = label.1.map fun id => podBuffer (pool id).maxsize zeroSettings) ?_ ?_
  · rintro s rfl
    exact ⟨⟨.inl ⟨rfl, rfl⟩, fun id => rfl⟩, by simp⟩
  · rintro tr s label s' - ⟨hs, hlabels⟩ hstep
    obtain ⟨hs', hq⟩ := hs.step hstep
    exact ⟨hs', List.forall_mem_append.2 ⟨hlabels, List.forall_mem_singleton.2 hq⟩⟩

/-- In lv2-pw-host every sequence of cycles can be run, and each cycle that gets a buffer from
PipeWire queues it with all settings of setbfreecontrol at 0, again and again; a reader finds them
if the buffer has room for their pod. -/
theorem settings_queued_again (constants : Constants) (pool : Nat → PwBuffer) :
    (∀ dequeued, ∃ tr s, (inLph constants pool).Run tr s ∧ tr.map Prod.fst = dequeued) ∧
    ∀ tr s, (inLph constants pool).Run tr s → ∀ label ∈ tr,
      label.2.map PwBuffer.midi = label.1.map fun id =>
        if podSize zeroSettings ≤ (pool id).maxsize then zeroSettings else [] := by
  constructor
  · intro dequeued
    induction dequeued using List.reverseRecOn with
    | nil => exact ⟨[], _, .init rfl, rfl⟩
    | append_singleton before dequeued ih =>
        obtain ⟨tr, s, hrun, hmap⟩ := ih
        obtain ⟨b, -, hiff⟩ := (sendsSettings_of_run hrun).1.step_iff
        refine ⟨tr ++ [(dequeued, _)], _, hrun.step ((hiff dequeued _ _).2 ⟨rfl, rfl⟩), ?_⟩
        rw [List.map_append, hmap]
        rfl
  · intro tr s hrun label hmem
    rw [(sendsSettings_of_run hrun).2 label hmem, Option.map_map]
    congr 1
    funext id
    exact midi_pushSequence _ _

end Runs

end Soundcan.Setbfree
