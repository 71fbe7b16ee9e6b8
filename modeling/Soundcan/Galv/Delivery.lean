import Soundcan.Galv.Process
import Soundcan.Lib.Transition

/-!
# Delivery of events across pauses

An event or a state request that `apply_ui_events` consumes goes to an event buffer, and the plugin
gets it when it runs next. A silent cycle consumes messages too, but does not run the plugin, and
the next running cycle begins with a reset of the input buffers. So what a silent cycle consumes is
lost, among it the state request that `jalv_apply_state` sends behind a restore. Where running
cycles consume all events, and these are for event inputs, every one that fitted is in its buffer
when the plugin runs (`delivered_of_run`).
-/

namespace Soundcan.Galv

open Lv2 Framing

/-! ## Buffers ready for the plugin -/

/-- A requested size is a positive `int`. -/
theorem ProcessPort.bufSize_lt (port : ProcessPort) : port.bufSize.toNat < 2 ^ 31 := by
  rw [bufSize]
  split
  next n _ =>
    split
    next hpos =>
      rw [Int32.toNat_toUInt32_of_le (Int32.le_of_lt hpos)]
      have := n.toInt_lt
      rw [Int32.toNatClampNeg]
      omega
    next => norm_num
  next => norm_num

/-- The event buffer of a new input is allocated. -/
theorem Layout.allocated_newEvbuf {L : Layout} {settings : JalvSettings} {port : ProcessPort}
    (hinput : port.isEventInput = true) {b : Evbuf} (h : L.newEvbuf settings port = some b) :
    b.Allocated := by
  have hflow : port.flow = .input := by
    simp only [ProcessPort.isEventInput, decide_eq_true_eq] at hinput
    exact hinput.2
  have hbuf := port.bufSize_lt
  have hmidi := settings.midiBufSize_le
  simp only [newEvbuf, hflow, decide_true] at h
  refine (Evbuf.Allocated.of_reset (Evbuf.allocated_new ?_
    L.urids.atomSequence.toNat_lt) h).allocated
  split <;> omega

/-- A prepared input is a sequence of those of the events that fit. -/
theorem preparePort_hasEvents {port : ProcessPort} (hinput : port.isEventInput = true)
    {events : List AtomEvent} (hf : ∀ ev ∈ events, ev.Fits) {b b' : Evbuf} (hb : b.Allocated)
    (h : preparePort port events b = some b') : ∃ evs, evs.Sublist events ∧ b'.HasEvents evs := by
  rw [preparePort, if_pos hinput] at h
  obtain ⟨b₁, hreset, hwrite⟩ := Option.bind_eq_some_iff.1 h
  exact (hb.of_reset hreset).writeAll hf hwrite

/-- The loop over the ports does not touch the buffers before it. -/
theorem preparePorts_of_lt {prepared : Prepared} {ports : List ProcessPort} {p q : Nat}
    {evbufs evbufs' : Nat → Evbuf} (h : preparePorts prepared ports p evbufs = some evbufs')
    (hq : q < p) : evbufs' q = evbufs q := by
  induction ports generalizing p evbufs with
  | nil =>
      obtain rfl := Option.some.inj h
      rfl
  | cons port ports ih =>
      obtain ⟨b, -, hrest⟩ := Option.bind_eq_some_iff.1 h
      rw [ih hrest (by omega), Function.update_of_ne (by omega)]

/-- Behind the loop every event input is a sequence of those of its events that fit. -/
theorem preparePorts_hasEvents {prepared : Prepared} {ports : List ProcessPort} {p : Nat}
    {evbufs evbufs' : Nat → Evbuf} (h : preparePorts prepared ports p evbufs = some evbufs')
    (halloc : ∀ i port, ports[i]? = some port → port.isEventInput = true →
      (evbufs (p + i)).Allocated)
    {i : Nat} {port : ProcessPort} (hport : ports[i]? = some port)
    (hinput : port.isEventInput = true) :
    ∃ evs, evs.Sublist (prepared.events (p + i)) ∧ (evbufs' (p + i)).HasEvents evs := by
  induction ports generalizing p evbufs i with
  | nil => simp at hport
  | cons first ports ih =>
      obtain ⟨b, hfirst, hrest⟩ := Option.bind_eq_some_iff.1 h
      cases i with
      | zero =>
          obtain rfl : first = port := by simpa using hport
          rw [Nat.add_zero, preparePorts_of_lt hrest (by omega), Function.update_self]
          exact preparePort_hasEvents hinput (prepared.fits p) (halloc 0 first rfl hinput) hfirst
      | succ i =>
          have hrestAlloc : ∀ j (port : ProcessPort), ports[j]? = some port →
              port.isEventInput = true → (Function.update evbufs p b (p + 1 + j)).Allocated := by
            intro j port hj hin
            rw [Function.update_of_ne (by omega), Nat.add_right_comm]
            exact halloc (j + 1) port (by simpa using hj) hin
          have hnext := ih hrest hrestAlloc (by simpa using hport)
          rwa [Nat.add_right_comm] at hnext

/-! ## The runs -/

/-- The steps: writes of the UI thread, of any messages and in any order, and the process thread. -/
inductive DeliveryStep where
  | begin (m : JalvMessage)
  | finish
  | process (a : ProcessStep)

/-- One step. -/
def deliveryStep (L : Layout) (s : Process) : DeliveryStep → Option Process
  | .begin m => do
    let uiToPlugin ← Channel.step (L.framing .uiToPlugin) s.uiToPlugin (.begin m)
    some { s with uiToPlugin }
  | .finish => do
    let uiToPlugin ← Channel.step (L.framing .uiToPlugin) s.uiToPlugin .finish
    some { s with uiToPlugin }
  | .process a => s.step L a

/-- The runs from the state behind `jalv_activate`. -/
def delivery (L : Layout) (settings : JalvSettings) (ringSize : UInt32) :
    Lts Process DeliveryStep where
  init := Process.Initial L settings ringSize
  step s a s' := deliveryStep L s a = some s'

/-- What is about to be applied reaches the plugin: an event or a state request is applied in a
cycle that runs it, and an event is for an event input. -/
def Applicable (L : Layout) : ProcessPc → Bool
  | .apply running (.eventTransfer portIndex _ _) =>
    running && (L.ports[portIndex.toNat]?).any ProcessPort.isEventInput
  | .apply running .stateRequest => running
  | _ => true

/-- The steps that deliver: what is applied is applicable, and what the UI thread writes fits
`process_msg`. -/
def Delivers (L : Layout) (s : Process) : DeliveryStep → Prop
  | .begin m => Ring.uiToPlugin.Receivable L.processMsgSize m
  | .finish => True
  | .process .apply => Applicable L s.pc = true
  | .process _ => True

instance (L : Layout) (s : Process) (a : DeliveryStep) : Decidable (Delivers L s a) :=
  match a with
  | .begin _ => inferInstanceAs (Decidable (Ring.Receivable _ _ _))
  | .process .apply => inferInstanceAs (Decidable (_ = true))
  | .finish | .process (.cycle _ _) | .process .enter | .process .read | .process .post
  | .process .runPlugin | .process (.endRun _) => inferInstanceAs (Decidable True)

/-! ## The invariant -/

/-- The buffers are prepared for the plugin, and it has not run. -/
def ProcessPc.prepared : ProcessPc → Bool
  | .cycle r | .applying r | .apply r _ | .post r => r
  | .run => true
  | .idle | .running => false

/-- An event input: once it is prepared, what is due is among its events; otherwise nothing is
due. -/
structure InputInv (prepared : Bool) (b : Evbuf) (due : List AtomEvent) : Prop where
  allocated : b.Allocated
  has_due : prepared = true → ∃ evs, b.HasEvents evs ∧ due.Sublist evs
  due_eq_nil : prepared = false → due = []

/-- The invariant of the process thread. -/
structure DeliveryInv (L : Layout) (s : Process) : Prop where
  channel : (L.framing .uiToPlugin).ChannelInv s.uiToPlugin
  inputs : ∀ p (port : ProcessPort), L.ports[p]? = some port → port.isEventInput = true →
    InputInv s.pc.prepared (s.evbufs p) (s.due p)

variable {L : Layout} {s s' : Process}

/-- An event that is written to a prepared input is due if it fitted, and then in the buffer. -/
theorem InputInv.write {b b' : Evbuf} {due : List AtomEvent} (h : InputInv true b due)
    {ev : AtomEvent} (hframes : ev.frames < 2 ^ 64) (htype : ev.type < 2 ^ 32) {offset next : Nat}
    {written : Bool} (hoffset : b.endOffset = some offset)
    (hwrite : b.write offset ev = some (written, b', next)) :
    InputInv true b' (if written then due ++ [ev] else due) := by
  obtain ⟨evs, hevs, hdue⟩ := h.has_due rfl
  obtain rfl := Option.some.inj (hevs.endOffset.symm.trans hoffset)
  rcases hevs.write hframes htype hwrite with ⟨rfl, rfl, -⟩ | ⟨rfl, hevs', -⟩
  · exact h
  · exact ⟨hevs'.allocated, fun _ => ⟨_, hevs', hdue.append_right [ev]⟩, nofun⟩

/-- The port of an applicable event is an event input, and its cycle runs the plugin. -/
theorem Applicable.writeEvent {r : Bool} {m : JalvMessage} (h : Applicable L (.apply r m) = true)
    {p : Nat} {type : UInt32} {body : List UInt8}
    (haction : L.uiAction m = some (.writeEvent p type body)) :
    r = true ∧ ∃ port, L.ports[p]? = some port ∧ port.isEventInput = true := by
  cases m with
  | controlPortChange portIndex value =>
      simp only [Layout.uiAction] at haction
      split at haction <;> cases haction
  | eventTransfer portIndex type' body' =>
      obtain ⟨hr, hany⟩ := Bool.and_eq_true_iff.1 h
      obtain ⟨port, hport, hinput⟩ := (Option.any_eq_true _ _).1 hany
      obtain ⟨port', -, haction⟩ := Option.bind_eq_some_iff.1 haction
      split at haction
      · obtain ⟨rfl, -, -⟩ := UiAction.writeEvent.inj (Option.some.inj haction)
        exact ⟨hr, port, hport, hinput⟩
      · cases haction
  | latencyChange => cases haction
  | stateRequest =>
      obtain ⟨port, hport, haction⟩ := Option.bind_eq_some_iff.1 haction
      split at haction
      next hinput =>
        obtain ⟨rfl, -, -⟩ := UiAction.writeEvent.inj (Option.some.inj haction)
        exact ⟨h, port, hport, hinput⟩
      next => cases haction
  | runStateChange => cases haction

/-- Applying an applicable message keeps the inputs in order. -/
theorem DeliveryInv.apply (h : DeliveryInv L s) {r : Bool} {m : JalvMessage}
    (hpc : s.pc = .apply r m) (happlicable : Applicable L s.pc = true) {action : UiAction}
    (haction : L.uiAction m = some action) (hperform : s.perform r action = some s') :
    ∀ p (port : ProcessPort), L.ports[p]? = some port → port.isEventInput = true →
      InputInv s'.pc.prepared (s'.evbufs p) (s'.due p) := by
  intro p port hport hinput
  have hinv := h.inputs p port hport hinput
  rw [hpc] at hinv
  cases action with
  | setControl i value =>
      obtain rfl := Option.some.inj hperform
      exact hinv
  | setRunState state =>
      cases state <;> obtain rfl := Option.some.inj hperform <;> exact hinv
  | writeEvent q type body =>
      obtain ⟨rfl, -⟩ := Applicable.writeEvent (hpc ▸ happlicable) haction
      obtain ⟨offset, written, b, next, hoffset, hwrite, rfl⟩ := Process.perform_writeEvent hperform
      by_cases hpq : p = q
      · subst hpq
        have hframes : s.nframes.toNat < 2 ^ 64 := s.nframes.toNat_lt.trans (by norm_num)
        have hinv' := InputInv.write hinv hframes type.toNat_lt hoffset hwrite
        cases written <;> simpa [ProcessPc.prepared] using hinv'
      · cases written <;> simpa [ProcessPc.prepared, Function.update_of_ne hpq] using hinv

/-- Every delivering step of the process thread keeps the invariant. -/
theorem DeliveryInv.step (h : DeliveryInv L s) {a : ProcessStep}
    (ha : Delivers L s (.process a)) (hstep : s.step L a = some s') : DeliveryInv L s' := by
  refine ⟨(Process.step_channel hstep h.channel).1, fun p port hport hinput => ?_⟩
  have hinv := h.inputs p port hport hinput
  cases a with
  | cycle nframes prepared =>
      obtain ⟨hpc, ⟨-, rfl⟩ | ⟨-, evbufs, hevbufs, rfl⟩⟩ := Process.step_cycle hstep
      · rw [hpc] at hinv
        exact hinv
      · have halloc : ∀ i (port : ProcessPort), L.ports[i]? = some port →
            port.isEventInput = true → (s.evbufs (0 + i)).Allocated := by
          intro i port hi hin
          rw [Nat.zero_add]
          exact (h.inputs i port hi hin).allocated
        obtain ⟨evs, -, hevs⟩ := preparePorts_hasEvents hevbufs halloc hport hinput
        rw [Nat.zero_add] at hevs
        have hdue : s.due p = [] := hinv.due_eq_nil (by rw [hpc]; rfl)
        exact ⟨hevs.allocated, fun _ => ⟨evs, hevs, by simp [hdue]⟩, nofun⟩
  | enter =>
      obtain ⟨r, uiToPlugin, hpc, -, rfl⟩ := Process.step_enter hstep
      rw [hpc] at hinv
      exact hinv
  | read =>
      obtain ⟨r, uiToPlugin, msg, pc, hpc, -, rfl, hcases⟩ := Process.step_read hstep
      have hprepared : pc.prepared = r := by
        rcases hcases with ⟨rfl, -⟩ | ⟨m, rfl, -⟩ | ⟨rfl, -⟩
        · rfl
        · rfl
        · cases r <;> rfl
      rw [hpc] at hinv
      rw [hprepared]
      exact hinv
  | apply =>
      obtain ⟨r, m, action, hpc, haction, hperform⟩ := Process.step_apply hstep
      exact h.apply hpc ha haction hperform p port hport hinput
  | post =>
      obtain ⟨r, hpc, rfl⟩ := Process.step_post hstep
      rw [hpc] at hinv
      exact hinv
  | runPlugin =>
      obtain ⟨-, rfl⟩ := Process.step_runPlugin hstep
      exact ⟨hinv.allocated, nofun, fun _ => rfl⟩
  | endRun out =>
      obtain ⟨hpc, evbufs, controls, rfl, heq⟩ := Process.step_endRun hstep
      rw [hpc, ← heq p port hport hinput] at hinv
      exact hinv

/-- The invariant holds in every run whose steps deliver. -/
theorem deliveryInv_of_run {settings : JalvSettings} {ringSize : UInt32}
    {tr : List DeliveryStep}
    (h : ((delivery L settings ringSize).guard (Delivers L)).Run tr s) : DeliveryInv L s := by
  refine h.guard_invariant (I := fun _ s => DeliveryInv L s) ?_ ?_
  · intro s hinit
    refine ⟨?_, fun p port hport hinput => ?_⟩
    · rw [hinit.uiToPlugin]
      exact channelInv_empty _
    · have hevbuf : port.hasEvbuf = true := by
        simp only [ProcessPort.isEventInput, decide_eq_true_eq] at hinput
        simp [ProcessPort.hasEvbuf, hinput.1]
      have hnew := hinit.evbufs p port hport hevbuf
      refine ⟨Layout.allocated_newEvbuf hinput hnew, fun hpc => ?_, fun _ => by rw [hinit.due]⟩
      simp [hinit.pc, ProcessPc.prepared] at hpc
  · intro _ s a s' hinv ha hstep
    cases a with
    | begin m =>
        obtain ⟨uiToPlugin, hbegin, hs'⟩ := Option.bind_eq_some_iff.1 hstep
        obtain rfl := Option.some.inj hs'
        exact ⟨hinv.channel.step (a := .begin m) ha hbegin, hinv.inputs⟩
    | finish =>
        obtain ⟨uiToPlugin, hfinish, hs'⟩ := Option.bind_eq_some_iff.1 hstep
        obtain rfl := Option.some.inj hs'
        exact ⟨hinv.channel.step (a := .finish) trivial hfinish, hinv.inputs⟩
    | process a => exact hinv.step ha hstep

/-- In every run whose steps deliver, when the plugin is about to run, every event and state request
that was consumed since it last ran and fitted the buffer of its port is among the events that the
plugin reads there, in order. -/
theorem delivered_of_run {settings : JalvSettings} {ringSize : UInt32} {tr : List DeliveryStep}
    (h : ((delivery L settings ringSize).guard (Delivers L)).Run tr s) (hpc : s.pc = .run)
    {p : Nat} {port : ProcessPort} (hport : L.ports[p]? = some port)
    (hinput : port.isEventInput = true) :
    ∃ evs, sequenceEvents (s.evbufs p).buf = some evs ∧ (s.due p).Sublist evs := by
  have hinv := (deliveryInv_of_run h).inputs p port hport hinput
  obtain ⟨evs, hevs, hdue⟩ := hinv.has_due (by rw [hpc]; rfl)
  exact ⟨evs, hevs.sequenceEvents, hdue⟩

/-! ## Two runs -/

/-- The UI thread writes a message. -/
def writeMessage (m : JalvMessage) : List DeliveryStep := [.begin m, .finish]

/-- A cycle begins, and sees what is in the ring. -/
def beginCycle : List DeliveryStep := [.process (.cycle 64 nothingPrepared), .process .enter]

/-- A read of a header and one of a payload, and the effect of the message. -/
def consume : List DeliveryStep := [.process .read, .process .read, .process .apply]

/-- A note-on for the input, consumed in a running cycle. -/
def noteOnRun : List DeliveryStep :=
  writeMessage (.eventTransfer 0 7 [0x90, 60, 100]) ++ beginCycle ++ consume ++ [.process .read]

/-- A pause; then a message and the end of the pause, consumed in a silent cycle; and the next
cycle. -/
def pausedRun (m : JalvMessage) : List DeliveryStep :=
  writeMessage (.runStateChange .paused) ++ beginCycle ++ consume ++
    [.process .post, .process .read, .process .runPlugin,
      .process (.endRun ⟨fun _ _ => 0, fun _ => 0⟩)] ++
    writeMessage m ++ writeMessage (.runStateChange .running) ++
    beginCycle ++ consume ++ consume ++ [.process .read] ++ beginCycle ++ [.process .read]

/-- What `jalv_apply_state` writes behind its restore is consumed in a silent cycle. -/
def stateRequestRun : List DeliveryStep := pausedRun .stateRequest

/-- The note-on reaches the plugin. -/
theorem noteOn_delivered :
    ∃ s, (delivery oneInput midi4096 4096).Run noteOnRun s ∧
      s.due 0 = [⟨64, 7, [0x90, 60, 100]⟩] ∧
      ∃ evs, sequenceEvents (s.evbufs 0).buf = some evs ∧ (s.due 0).Sublist evs := by
  have hfold : (noteOnRun.foldlM
      (fun s a => if Delivers oneInput s a then deliveryStep oneInput s a else none)
      oneInputProcess).map (fun s => (s.pc, s.due 0)) =
      some (.run, [⟨64, 7, [0x90, 60, 100]⟩]) := by rfl
  obtain ⟨s, hs, heq⟩ := Option.map_eq_some_iff.1 hfold
  obtain ⟨hpc, hdue⟩ := Prod.mk.inj heq
  have hrun := Lts.run_guard_of_foldlM (M := delivery oneInput midi4096 4096) (fun _ _ _ h => h)
    initial_oneInputProcess hs
  have hport : oneInput.ports[0]? = some eventInput := rfl
  exact ⟨s, hrun.of_guard, hdue, delivered_of_run hrun hpc hport rfl⟩

/-- The state request is due, and the plugin does not get it; and so is an event. -/
theorem stateRequest_lost :
    (∃ s, (delivery oneInput midi4096 4096).Run stateRequestRun s ∧ s.pc = .run ∧
      s.due 0 = [⟨64, 3, oneInput.getMsgBody⟩] ∧ sequenceEvents (s.evbufs 0).buf = some []) ∧
    ∃ s, (delivery oneInput midi4096 4096).Run
        (pausedRun (.eventTransfer 0 7 [0x90, 60, 100])) s ∧ s.pc = .run ∧
      s.due 0 = [⟨64, 7, [0x90, 60, 100]⟩] ∧ sequenceEvents (s.evbufs 0).buf = some [] := by
  have hrequest : (stateRequestRun.foldlM (deliveryStep oneInput) oneInputProcess).map
      (fun s => (s.pc, s.due 0, sequenceEvents (s.evbufs 0).buf)) =
      some (.run, [⟨64, 3, oneInput.getMsgBody⟩], some []) := by rfl
  have hevent : ((pausedRun (.eventTransfer 0 7 [0x90, 60, 100])).foldlM (deliveryStep oneInput)
      oneInputProcess).map (fun s => (s.pc, s.due 0, sequenceEvents (s.evbufs 0).buf)) =
      some (.run, [⟨64, 7, [0x90, 60, 100]⟩], some []) := by rfl
  constructor
  · obtain ⟨s, hs, heq⟩ := Option.map_eq_some_iff.1 hrequest
    simp only [Prod.mk.injEq] at heq
    exact ⟨s, Lts.run_of_foldlM (fun _ _ _ h => h) initial_oneInputProcess hs, heq⟩
  · obtain ⟨s, hs, heq⟩ := Option.map_eq_some_iff.1 hevent
    simp only [Prod.mk.injEq] at heq
    exact ⟨s, Lts.run_of_foldlM (fun _ _ _ h => h) initial_oneInputProcess hs, heq⟩

end Soundcan.Galv
