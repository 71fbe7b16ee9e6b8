import Soundcan.Ui.MidiMq

/-!
# Who creates the queue

The web UI sends MIDI messages to the queue `/<port>` that `pw-midimq <port>` receives from.
`entrypoint.sh` starts the two side by side, and both open the queue with `O_CREAT`, so either may
create it: `pw-midimq` with messages of at most 256 bytes, `serveMqMidiCC` and
`serveMqDrawbarMidiCC` with the attributes of the system. A queue of the UI has messages larger
than the receive buffer of `pw-midimq`, which never gets one (`startOrder_iff`).
-/

namespace Soundcan.Ui

/-! ## The handlers of the web UI -/

/-- `strconv.Atoi`, where an error is ignored: 0 for what is no number, the nearest `int` for one
that is too large. -/
def atoi (s : String) : Int :=
  match s.toList with
  | '-' :: ds => max (-(2 : Int) ^ 63) (-digits ds)
  | '+' :: ds => min (2 ^ 63 - 1) (digits ds)
  | ds => min (2 ^ 63 - 1) (digits ds)
where
  /-- The value of the digits, 0 where there is another character. -/
  digits (ds : List Char) : Int :=
    if ds.all Char.isDigit then ds.foldl (fun n d => 10 * n + (d.toNat - '0'.toNat)) 0 else 0

/-- `byte(x)` of an `int`. -/
def byte (x : Int) : UInt8 := UInt8.ofNat (x % 256).toNat

/-- A request of one of the two routes. `ccvalue` is the form's value, `none` where the form does
not parse. -/
structure Request where
  drawbar : Bool
  port : String
  channel : String
  control : String
  ccvalue : Option String
  deriving DecidableEq

section
-- `strconv.ParseFloat` with its error ignored, and `int(x)`, which Go leaves to the platform for an
-- `x` that is no `int`
variable (parseFloat : String → Float) (int : Float → Int)

/-- The `mididata` of `serveMqMidiCC`. -/
def serveMqMidiCC (channel control ccvalue : String) : List UInt8 :=
  let value := parseFloat ccvalue
  [0xb0 ||| (0x0f &&& byte (atoi channel)), byte (atoi control), byte (int value.round)]

/-- The `mididata` of `serveMqDrawbarMidiCC`. -/
def serveMqDrawbarMidiCC (channel control ccvalue : String) : List UInt8 :=
  let value := parseFloat ccvalue
  [0xb0 ||| (0x0f &&& byte (atoi channel)), byte (atoi control),
    byte (int (127.0 * (1.0 - value / 8.0)).round)]

/-- What the handler of a request sends. -/
def Request.mididata (r : Request) : Option (List UInt8) :=
  r.ccvalue.map fun ccvalue =>
    if r.drawbar then serveMqDrawbarMidiCC parseFloat int r.channel r.control ccvalue
    else serveMqMidiCC parseFloat int r.channel r.control ccvalue

/-! ## The two programs and the queues -/

/-- A name that `mq_open` takes behind its `/`. -/
def QueueName (name : String) : Prop :=
  name ≠ "" ∧ '/' ∉ name.toList ∧ '\x00' ∉ name.toList ∧ name.utf8ByteSize ≤ 255

instance (name : String) : Decidable (QueueName name) := inferInstanceAs (Decidable (_ ∧ _))

/-- The queues of the system and the two programs. `ui` are the handlers that have opened their
queue and not sent yet, `none` behind a `log.Fatal`; `midiMq` is the process `pw-midimq` with the
name it was started with. -/
structure Desk where
  queues : String → Option MessageQueue
  ui : Option (List Request)
  midiMq : Option (String × MidiMq)

namespace Desk

/-- Nothing is started but the UI. -/
def init : Desk := ⟨fun _ => none, some [], none⟩

/-- `mq_open` with `O_CREAT`: the attributes are those of a queue that exists already. -/
def mqOpen (d : Desk) (name : String) (new : MessageQueue) : Desk :=
  match d.queues name with
  | some _ => d
  | none => { d with queues := Function.update d.queues name (some new) }

/-- What `pw-midimq` has received. -/
def received (d : Desk) : List (List UInt8) := d.midiMq.elim [] fun m => m.2.received

/-- The step of `on_process` that is next. -/
def next : Place → Option Nat → MidiMq.Step
  | .idle, _ => .process
  | .received _, maxsize => .dequeue maxsize
  | .draining _ _, _ => .drain

/-- What can happen. `start` is `main` of `pw-midimq`, whose name must fit `q_name`; `posixmqOpen`
and `posixmqSend` are the two calls of a handler; `onProcess` is the next receive or dequeue of
`on_process`. -/
inductive Step where
  | start (name : String)
  | posixmqOpen (r : Request)
  | posixmqSend (r : Request)
  | onProcess (maxsize : Option Nat)

/-- One step, where the system creates queues of `defaultMaxMsg` messages. -/
def step (defaultMaxMsg : Nat) (d : Desk) : Step → Option Desk
  | .start name =>
    if d.midiMq = none ∧ QueueName name ∧ name.utf8ByteSize + 2 ≤ 100 then
      some { d.mqOpen name (.new 10 256) with midiMq := some (name, .init) }
    else none
  | .posixmqOpen r =>
    match d.ui, r.ccvalue with
    | some handlers, some _ =>
      if QueueName r.port then
        some { d.mqOpen r.port (.new defaultMaxMsg 8192) with ui := some (handlers ++ [r]) }
      else
        -- the process ends, and with it the handlers that wait for room
        some { d with
          queues := fun name => (d.queues name).map fun q => { q with blocked := [] }
          ui := none }
    | _, _ => none
  | .posixmqSend r =>
    match d.ui, d.queues r.port, r.mididata parseFloat int with
    | some handlers, some q, some mididata =>
      if r ∈ handlers then
        some { d with
          queues := Function.update d.queues r.port (some (q.send mididata))
          ui := some (handlers.erase r) }
      else none
    | _, _, _ => none
  | .onProcess maxsize =>
    match d.midiMq with
    | some (name, m) =>
      match d.queues name with
      | some q =>
        (m.step q (next m.place maxsize)).map fun (m, q) =>
          { d with
            queues := Function.update d.queues name (some q)
            midiMq := some (name, m) }
      | none => none
    | none => none

end Desk

variable (defaultMaxMsg : Nat)

/-- The runs of the two programs. -/
def desk : Lts Desk Desk.Step where
  init d := d = .init
  step d a d' := d.step parseFloat int defaultMaxMsg a = some d'

/-! ## What a step does -/

namespace Desk

variable {parseFloat int defaultMaxMsg} {d d' : Desk} {name : String} {r : Request}
  {maxsize : Option Nat}

@[simp] theorem midiMq_mqOpen {new : MessageQueue} : (d.mqOpen name new).midiMq = d.midiMq := by
  rw [mqOpen]
  cases d.queues name <;> rfl

@[simp] theorem ui_mqOpen {new : MessageQueue} : (d.mqOpen name new).ui = d.ui := by
  rw [mqOpen]
  cases d.queues name <;> rfl

/-- Afterwards there is a queue of the name: the one there was, or the new one. -/
theorem queues_mqOpen_self {new : MessageQueue} :
    (d.mqOpen name new).queues name = some ((d.queues name).getD new) := by
  rw [mqOpen]
  cases hq : d.queues name with
  | none => exact Function.update_self _ _ _
  | some q => exact hq

/-- The queues that there are stay as they are. -/
theorem queues_mqOpen_of_some {new q : MessageQueue} {n : String} (h : d.queues n = some q) :
    (d.mqOpen name new).queues n = some q := by
  rw [mqOpen]
  cases hq : d.queues name with
  | none =>
      have hne : n ≠ name := by
        rintro rfl
        cases hq.symm.trans h
      exact (Function.update_of_ne hne _ _).trans h
  | some _ => exact h

/-- A queue that is set is there, and so are those from before. -/
theorem update_some_ne_none {queues : String → Option MessageQueue} {q : MessageQueue}
    {n : String} :
    Function.update queues name (some q) n ≠ none ↔ n = name ∨ queues n ≠ none := by
  rcases eq_or_ne n name with rfl | hne
  · simp
  · simp [hne]

/-- Opening a queue makes it if it is not there. -/
theorem queues_mqOpen_ne_none {new : MessageQueue} {n : String} :
    (d.mqOpen name new).queues n ≠ none ↔ n = name ∨ d.queues n ≠ none := by
  rw [mqOpen]
  cases hq : d.queues name with
  | none => exact update_some_ne_none
  | some q =>
      refine ⟨.inr, ?_⟩
      rintro (rfl | h)
      · simp [hq]
      · exact h

/-- Opening a queue does not touch the others. -/
theorem queues_mqOpen_of_ne {new : MessageQueue} {n : String} (h : n ≠ name) :
    (d.mqOpen name new).queues n = d.queues n := by
  rw [mqOpen]
  cases d.queues name with
  | none => exact Function.update_of_ne h _ _
  | some _ => rfl

/-- What the start of the bridge does. -/
theorem step_start : d.step parseFloat int defaultMaxMsg (.start name) = some d' ↔
    d.midiMq = none ∧ QueueName name ∧ name.utf8ByteSize + 2 ≤ 100 ∧
      d' = { d.mqOpen name (.new 10 256) with midiMq := some (name, .init) } := by
  rw [step, Option.ite_none_right_eq_some, Option.some.injEq, and_assoc, and_assoc,
    eq_comm (b := d')]

/-- What the page of a request does. -/
theorem step_posixmqOpen : d.step parseFloat int defaultMaxMsg (.posixmqOpen r) = some d' ↔
    ∃ handlers, d.ui = some handlers ∧ r.ccvalue.isSome ∧
      d' = if QueueName r.port then
        { d.mqOpen r.port (.new defaultMaxMsg 8192) with ui := some (handlers ++ [r]) }
      else
        { d with
          queues := fun name => (d.queues name).map fun q => { q with blocked := [] }
          ui := none } := by
  rw [step]
  cases d.ui with
  | none => simp
  | some handlers =>
      cases r.ccvalue with
      | none => simp
      | some ccvalue => by_cases hname : QueueName r.port <;> simp [hname, eq_comm]

/-- What a request does. -/
theorem step_posixmqSend : d.step parseFloat int defaultMaxMsg (.posixmqSend r) = some d' ↔
    ∃ handlers q mididata, d.ui = some handlers ∧ d.queues r.port = some q ∧
      r.mididata parseFloat int = some mididata ∧ r ∈ handlers ∧
      d' = { d with
        queues := Function.update d.queues r.port (some (q.send mididata))
        ui := some (handlers.erase r) } := by
  rw [step]
  cases d.ui <;> cases d.queues r.port <;> cases r.mididata parseFloat int <;>
    simp [eq_comm]

/-- What a cycle of the bridge does. -/
theorem step_onProcess : d.step parseFloat int defaultMaxMsg (.onProcess maxsize) = some d' ↔
    ∃ name m q m' q', d.midiMq = some (name, m) ∧ d.queues name = some q ∧
      m.step q (next m.place maxsize) = some (m', q') ∧
      d' = { d with
        queues := Function.update d.queues name (some q')
        midiMq := some (name, m') } := by
  rw [step]
  cases hmidi : d.midiMq with
  | none => simp
  | some p =>
      obtain ⟨name, m⟩ := p
      cases hq : d.queues name with
      | none => simp [hq]
      | some q => simp [hq, Prod.exists, eq_comm]

/-- A step of `on_process` is always possible. -/
theorem exists_step_next (m : MidiMq) (q : MessageQueue) (maxsize : Option Nat) :
    ∃ m' q', m.step q (next m.place maxsize) = some (m', q') := by
  cases hplace : m.place with
  | idle | draining =>
      simp only [next, MidiMq.step, hplace]
      cases q.receive msgBufferSize <;> exact ⟨_, _, rfl⟩
  | received message =>
      simp only [next, MidiMq.step, hplace]
      cases maxsize <;> exact ⟨_, _, rfl⟩

/-- What a step of `on_process` does to the queue and to what has been received. -/
theorem receives_step {m m' : MidiMq} {q q' : MessageQueue} {step : MidiMq.Step}
    (h : m.step q step = some (m', q')) :
    (q' = q ∧ m'.received = m.received) ∨
      ∃ message, q.receive msgBufferSize = some (message, q') ∧
        m'.received = m.received ++ [message] := by
  cases step with
  | process | drain =>
      simp only [MidiMq.step] at h
      split at h
      · split at h
        next message _ hreceive =>
          obtain ⟨rfl, rfl⟩ := Prod.mk.inj (Option.some.inj h)
          exact .inr ⟨message, hreceive, rfl⟩
        next =>
          obtain ⟨rfl, rfl⟩ := Prod.mk.inj (Option.some.inj h)
          exact .inl ⟨rfl, rfl⟩
      · cases h
  | dequeue maxsize =>
      simp only [MidiMq.step] at h
      split at h
      · obtain ⟨rfl, rfl⟩ := Prod.mk.inj (Option.some.inj h)
        exact .inl ⟨rfl, rfl⟩
      · obtain ⟨rfl, rfl⟩ := Prod.mk.inj (Option.some.inj h)
        exact .inl ⟨rfl, rfl⟩
      · cases h

/-- The process `pw-midimq` does not go away. -/
theorem midiMq_ne_none {a : Step} (h : d.step parseFloat int defaultMaxMsg a = some d')
    (hm : d.midiMq ≠ none) : d'.midiMq ≠ none := by
  cases a with
  | start name => exact absurd (step_start.1 h).1 hm
  | posixmqOpen r =>
      obtain ⟨handlers, -, -, rfl⟩ := step_posixmqOpen.1 h
      split
      · exact midiMq_mqOpen.trans_ne hm
      · exact hm
  | posixmqSend r =>
      obtain ⟨handlers, q, mididata, -, -, -, -, rfl⟩ := step_posixmqSend.1 h
      exact hm
  | onProcess maxsize =>
      obtain ⟨name, m, q, m', q', -, -, -, rfl⟩ := step_onProcess.1 h
      exact Option.some_ne_none _

/-- Queues do not go away either, and keep their message size. -/
theorem exists_queue_step {a : Step} {q : MessageQueue}
    (h : d.step parseFloat int defaultMaxMsg a = some d') (hq : d.queues name = some q) :
    ∃ q', d'.queues name = some q' ∧ q'.msgSize = q.msgSize := by
  cases a with
  | start n =>
      obtain ⟨-, -, -, rfl⟩ := step_start.1 h
      exact ⟨q, queues_mqOpen_of_some hq, rfl⟩
  | posixmqOpen r =>
      obtain ⟨handlers, -, -, rfl⟩ := step_posixmqOpen.1 h
      split
      · exact ⟨q, queues_mqOpen_of_some hq, rfl⟩
      · exact ⟨{ q with blocked := [] }, congrArg (Option.map _) hq, rfl⟩
  | posixmqSend r =>
      obtain ⟨handlers, q₀, mididata, -, hq₀, -, -, rfl⟩ := step_posixmqSend.1 h
      rcases eq_or_ne name r.port with rfl | hne
      · obtain rfl := Option.some.inj (hq₀.symm.trans hq)
        exact ⟨_, Function.update_self _ _ _, MessageQueue.msgSize_send⟩
      · exact ⟨q, (Function.update_of_ne hne _ _).trans hq, rfl⟩
  | onProcess maxsize =>
      obtain ⟨n, m, q₀, m', q', -, hq₀, hstep, rfl⟩ := step_onProcess.1 h
      rcases eq_or_ne name n with rfl | hne
      · obtain rfl := Option.some.inj (hq₀.symm.trans hq)
        refine ⟨q', Function.update_self _ _ _, ?_⟩
        rcases receives_step hstep with ⟨rfl, -⟩ | ⟨message, hreceive, -⟩
        · rfl
        · exact MessageQueue.msgSize_receive hreceive
      · exact ⟨q, (Function.update_of_ne hne _ _).trans hq, rfl⟩

/-- While `pw-midimq` is not started a new queue is the UI's. -/
theorem queue_created {a : Step} {q' : MessageQueue}
    (h : d.step parseFloat int defaultMaxMsg a = some d') (hmidi : d'.midiMq = none)
    (hnone : d.queues name = none) (hq' : d'.queues name = some q') : q'.msgSize = 8192 := by
  cases a with
  | start n =>
      obtain ⟨-, -, -, rfl⟩ := step_start.1 h
      cases hmidi
  | posixmqOpen r =>
      obtain ⟨handlers, -, -, rfl⟩ := step_posixmqOpen.1 h
      split at hq'
      · rcases eq_or_ne name r.port with rfl | hne
        · rw [queues_mqOpen_self, hnone] at hq'
          obtain rfl := Option.some.inj hq'
          rfl
        · rw [queues_mqOpen_of_ne hne, hnone] at hq'
          cases hq'
      · cases (congrArg (Option.map _) hnone).symm.trans hq'
  | posixmqSend r =>
      obtain ⟨handlers, q, mididata, -, hq, -, -, rfl⟩ := step_posixmqSend.1 h
      have hne : name ≠ r.port := by
        rintro rfl
        cases hq.symm.trans hnone
      cases ((Function.update_of_ne hne _ _).trans hnone).symm.trans hq'
  | onProcess maxsize =>
      obtain ⟨n, m, q, m', q', -, -, -, rfl⟩ := step_onProcess.1 h
      cases hmidi

end Desk

/-! ## The UI creates the queue -/

variable {parseFloat int defaultMaxMsg}

/-- The queue of a port that the UI has opened first has the message size of the system. -/
theorem ui_queue {tr : List Desk.Step} {d : Desk} {r : Request}
    (h : (desk parseFloat int defaultMaxMsg).Run tr d) (hmidi : d.midiMq = none)
    (hopen : .posixmqOpen r ∈ tr) (hname : QueueName r.port) :
    ∃ q, d.queues r.port = some q ∧ q.msgSize = 8192 := by
  have hinv : d.midiMq = none → (∀ q, d.queues r.port = some q → q.msgSize = 8192) ∧
      (.posixmqOpen r ∈ tr → d.queues r.port ≠ none) := by
    refine h.invariant (I := fun tr d => d.midiMq = none →
      (∀ q, d.queues r.port = some q → q.msgSize = 8192) ∧
        (.posixmqOpen r ∈ tr → d.queues r.port ≠ none)) ?_ ?_
    · rintro d rfl -
      exact ⟨nofun, nofun⟩
    · rintro tr d a d' - hi hstep hmidi'
      have hmidi : d.midiMq = none := by
        by_contra hm
        exact Desk.midiMq_ne_none hstep hm hmidi'
      obtain ⟨hsize, hexists⟩ := hi hmidi
      cases hq : d.queues r.port with
      | some q =>
          obtain ⟨q', hq', hkeep⟩ := Desk.exists_queue_step hstep hq
          refine ⟨fun q'' hq'' => ?_, fun _ => by simp [hq']⟩
          obtain rfl := Option.some.inj (hq'.symm.trans hq'')
          exact hkeep.trans (hsize q hq)
      | none =>
          refine ⟨fun q' hq' => Desk.queue_created hstep hmidi' hq hq', fun hmem => ?_⟩
          rcases List.mem_append.1 hmem with hmem | hmem
          · exact absurd hq (hexists hmem)
          · obtain rfl := List.mem_singleton.1 hmem
            obtain ⟨handlers, -, -, rfl⟩ := Desk.step_posixmqOpen.1 hstep
            rw [if_pos hname]
            simp [Desk.queues_mqOpen_self]
  obtain ⟨hsize, hexists⟩ := hinv hmidi
  obtain ⟨q, hq⟩ := Option.ne_none_iff_exists'.1 (hexists hopen)
  exact ⟨q, hq, hsize q hq⟩

/-- From a queue of the UI `pw-midimq` receives nothing. -/
theorem received_of_ui_queue {d₀ d : Desk} {name : String} {q : MessageQueue}
    {post : List Desk.Step}
    (h : ((desk parseFloat int defaultMaxMsg).after d₀).Run (.start name :: post) d)
    (hq : d₀.queues name = some q) (hsize : q.msgSize = 8192) : d.received = [] := by
  have hinv : ∃ q, d.queues name = some q ∧ q.msgSize = 8192 ∧
      d.midiMq = some (name, .init) := by
    refine h.invariant_cons (I := fun _ d => ∃ q, d.queues name = some q ∧ q.msgSize = 8192 ∧
      d.midiMq = some (name, .init)) ?_ ?_
    · rintro d d' rfl hstep
      obtain ⟨-, -, -, rfl⟩ := Desk.step_start.1 hstep
      exact ⟨q, Desk.queues_mqOpen_of_some hq, hsize, rfl⟩
    · rintro - d a d' ⟨q, hq, hsize, hmidi⟩ hstep
      obtain ⟨q', hq', hkeep⟩ := Desk.exists_queue_step hstep hq
      refine ⟨q', hq', hkeep.trans hsize, ?_⟩
      cases a with
      | start n =>
          obtain ⟨hnone, -⟩ := Desk.step_start.1 hstep
          cases hmidi.symm.trans hnone
      | posixmqOpen r =>
          obtain ⟨handlers, -, -, rfl⟩ := Desk.step_posixmqOpen.1 hstep
          split
          · exact Desk.midiMq_mqOpen.trans hmidi
          · exact hmidi
      | posixmqSend r =>
          obtain ⟨handlers, q, mididata, -, -, -, -, rfl⟩ := Desk.step_posixmqSend.1 hstep
          exact hmidi
      | onProcess maxsize =>
          obtain ⟨n, m, q₁, m', q₂, hmidi₁, hq₁, hreceive, rfl⟩ := Desk.step_onProcess.1 hstep
          obtain ⟨rfl, rfl⟩ := Prod.mk.inj (Option.some.inj (hmidi.symm.trans hmidi₁))
          obtain rfl := Option.some.inj (hq.symm.trans hq₁)
          have hnone : q.receive msgBufferSize = none :=
            MessageQueue.receive_eq_none_of_lt (by rw [hsize]; decide)
          simp only [Desk.next, MidiMq.init, MidiMq.step, hnone] at hreceive
          obtain ⟨rfl, -⟩ := Prod.mk.inj (Option.some.inj hreceive)
          rfl
  obtain ⟨q, -, -, hmidi⟩ := hinv
  rw [Desk.received, hmidi]
  rfl

/-! ## `pw-midimq` creates the queue -/

/-- Nothing has been sent to the queue. -/
def NotSent (name : String) (tr : List Desk.Step) : Prop :=
  ∀ r, .posixmqSend r ∈ tr → r.port ≠ name

/-- A step of `on_process` comes before anything is sent to the queue. -/
def BeforeSend (name : String) (before : List Desk.Step) : Desk.Step → Prop
  | .onProcess _ => NotSent name before
  | _ => True

/-- The start of `pw-midimq` with its own queue: while it has received nothing, the queue holds
something if something was sent. -/
def OwnQueue (name : String) (tr : List Desk.Step) (d : Desk) : Prop :=
  ∃ m q, d.midiMq = some (name, m) ∧ d.queues name = some q ∧
    (m.received = [] ↔ Lts.EachStep (BeforeSend name) tr) ∧
    (m.received = [] → m.place = .idle ∧ q.msgSize = 256 ∧ q.maxMsg = 10 ∧
      (NotSent name tr ∧ q.messages = [] ∧ q.blocked = [] ∨
        ¬NotSent name tr ∧ q.messages ≠ []))

/-- One step more without a message for the queue. -/
theorem notSent_concat {name : String} {tr : List Desk.Step} {a : Desk.Step} :
    NotSent name (tr ++ [a]) ↔ NotSent name tr ∧ ∀ r, a = .posixmqSend r → r.port ≠ name := by
  simp only [NotSent, List.mem_append, List.mem_singleton, or_imp, forall_and, eq_comm]

/-- A message is three bytes. -/
theorem length_mididata {r : Request} {mididata : List UInt8}
    (h : r.mididata parseFloat int = some mididata) : mididata.length = 3 := by
  obtain ⟨ccvalue, -, rfl⟩ := Option.map_eq_some_iff.1 h
  split <;> rfl

/-- A step that leaves `pw-midimq` and the queue's messages, and sends nothing to it. -/
theorem OwnQueue.frame {name : String} {tr : List Desk.Step} {d d' : Desk} {a : Desk.Step}
    (h : OwnQueue name tr d) (hsend : ∀ r, a = .posixmqSend r → r.port ≠ name)
    (hreceive : BeforeSend name tr a) (hmidi : d'.midiMq = d.midiMq)
    (hq : ∀ q, d.queues name = some q →
      d'.queues name = some q ∨ d'.queues name = some { q with blocked := [] }) :
    OwnQueue name (tr ++ [a]) d' := by
  obtain ⟨m, q, hm, hq₀, hreceived, hempty⟩ := h
  have hnot : NotSent name (tr ++ [a]) ↔ NotSent name tr :=
    notSent_concat.trans (and_iff_left hsend)
  have heach : Lts.EachStep (BeforeSend name) (tr ++ [a]) ↔ Lts.EachStep (BeforeSend name) tr :=
    Lts.eachStep_concat.trans (and_iff_left hreceive)
  rw [OwnQueue, heach, hnot]
  rcases hq q hq₀ with hq | hq
  · exact ⟨m, q, hmidi.trans hm, hq, hreceived, hempty⟩
  · refine ⟨m, _, hmidi.trans hm, hq, hreceived, fun hnil => ?_⟩
    obtain ⟨hplace, hsize, hmax, hmessages⟩ := hempty hnil
    exact ⟨hplace, hsize, hmax,
      hmessages.imp (fun h => ⟨h.1, h.2.1, rfl⟩) fun h => h⟩

/-- A message is sent to the queue. -/
theorem OwnQueue.send {tr : List Desk.Step} {d : Desk} {r : Request} {q : MessageQueue}
    {mididata : List UInt8} {ui : Option (List Request)} (h : OwnQueue r.port tr d)
    (hq : d.queues r.port = some q) (hlength : mididata.length = 3) :
    OwnQueue r.port (tr ++ [.posixmqSend r])
      { d with queues := Function.update d.queues r.port (some (q.send mididata)), ui := ui } := by
  obtain ⟨m, q₀, hm, hq₀, hreceived, hempty⟩ := h
  obtain rfl := Option.some.inj (hq.symm.trans hq₀)
  have hnot : ¬NotSent r.port (tr ++ [.posixmqSend r]) := fun h => h r (by simp) rfl
  refine ⟨m, _, hm, Function.update_self _ _ _, ?_, fun hnil => ?_⟩
  · rw [hreceived, Lts.eachStep_concat]
    exact (and_iff_left trivial).symm
  · obtain ⟨hplace, hsize, hmax, ⟨-, hnil, hblocked⟩ | ⟨-, hne⟩⟩ := hempty hnil
    · refine ⟨hplace, ?_, ?_, .inr ⟨hnot, ?_⟩⟩
      · rw [MessageQueue.msgSize_send, hsize]
      · rw [MessageQueue.maxMsg_send, hmax]
      · rw [MessageQueue.messages_send_of_room (by omega) (by simp [hnil, hmax]) hblocked]
        simp
    · refine ⟨hplace, ?_, ?_, .inr ⟨hnot, MessageQueue.messages_send_ne_nil hne⟩⟩
      · rw [MessageQueue.msgSize_send, hsize]
      · rw [MessageQueue.maxMsg_send, hmax]

/-- A step of `on_process` finds what was sent. -/
theorem OwnQueue.onProcess {name : String} {tr : List Desk.Step} {d : Desk} {m m' : MidiMq}
    {q q' : MessageQueue} {maxsize : Option Nat} (h : OwnQueue name tr d)
    (hm : d.midiMq = some (name, m)) (hq : d.queues name = some q)
    (hstep : m.step q (Desk.next m.place maxsize) = some (m', q')) :
    OwnQueue name (tr ++ [.onProcess maxsize])
      { d with
        queues := Function.update d.queues name (some q')
        midiMq := some (name, m') } := by
  obtain ⟨m₀, q₀, hm₀, hq₀, hreceived, hempty⟩ := h
  obtain ⟨-, rfl⟩ := Prod.mk.inj (Option.some.inj (hm.symm.trans hm₀))
  obtain rfl := Option.some.inj (hq.symm.trans hq₀)
  have hnot : NotSent name (tr ++ [.onProcess maxsize]) ↔ NotSent name tr :=
    notSent_concat.trans (and_iff_left nofun)
  refine ⟨m', q', rfl, Function.update_self _ _ _, ?_⟩
  rw [Lts.eachStep_concat, ← hreceived, hnot]
  by_cases hnil : m.received = []
  · obtain ⟨hplace, hsize, hmax, ⟨hsent, hmessages, hblocked⟩ | ⟨hsent, hne⟩⟩ := hempty hnil
    · -- nothing was sent: the receive fails
      have hnone : q.receive msgBufferSize = none := MessageQueue.receive_eq_none_of_nil hmessages
      simp only [hplace, Desk.next, MidiMq.step, hnone] at hstep
      obtain ⟨rfl, rfl⟩ := Prod.mk.inj (Option.some.inj hstep)
      exact ⟨iff_of_true hnil ⟨hnil, hsent⟩,
        fun _ => ⟨hplace, hsize, hmax, .inl ⟨hsent, hmessages, hblocked⟩⟩⟩
    · -- the receive gets the oldest message
      obtain ⟨message, q₁, hsome⟩ :=
        MessageQueue.exists_receive (n := msgBufferSize) (by rw [hsize]; decide) hne
      simp only [hplace, Desk.next, MidiMq.step, hsome] at hstep
      obtain ⟨rfl, rfl⟩ := Prod.mk.inj (Option.some.inj hstep)
      have hsome : m.received ++ [message] ≠ [] := by simp
      exact ⟨iff_of_false hsome fun h => hsent h.2, fun h => absurd h hsome⟩
  · have hsome : m'.received ≠ [] := by
      rcases Desk.receives_step hstep with ⟨-, heq⟩ | ⟨message, -, heq⟩
      · rwa [heq]
      · simp [heq]
    exact ⟨iff_of_false hsome fun h => hnil h.1, fun h => absurd h hsome⟩

/-- From its own queue `pw-midimq` receives something once it looks for it behind a send. -/
theorem ownQueue {name : String} {tr : List Desk.Step} {d : Desk}
    (h : (desk parseFloat int defaultMaxMsg).Run (.start name :: tr) d) : OwnQueue name tr d := by
  refine h.invariant_cons (I := fun tr d => OwnQueue name tr d) ?_ ?_
  · rintro d d' rfl hstep
    obtain ⟨-, -, -, rfl⟩ := Desk.step_start.1 hstep
    refine ⟨.init, .new 10 256, rfl, Desk.queues_mqOpen_self (d := .init), ?_,
      fun _ => ⟨rfl, rfl, rfl, ?_⟩⟩
    · exact iff_of_true rfl Lts.eachStep_nil
    · exact .inl ⟨nofun, rfl, rfl⟩
  · intro tr d a d' hi hstep
    have ⟨m, q₀, hm, hq₀, _⟩ := hi
    cases a with
    | start n =>
        obtain ⟨hnone, -⟩ := Desk.step_start.1 hstep
        cases hm.symm.trans hnone
    | posixmqOpen r =>
        obtain ⟨handlers, -, -, rfl⟩ := Desk.step_posixmqOpen.1 hstep
        refine hi.frame nofun trivial ?_ fun q hq => ?_
        · split
          · exact Desk.midiMq_mqOpen
          · rfl
        · split
          · exact .inl (Desk.queues_mqOpen_of_some hq)
          · exact .inr (congrArg (Option.map _) hq)
    | posixmqSend r =>
        obtain ⟨handlers, q, mididata, -, hq, hmididata, -, rfl⟩ := Desk.step_posixmqSend.1 hstep
        rcases eq_or_ne r.port name with rfl | hne
        · exact hi.send hq (length_mididata hmididata)
        · refine hi.frame (fun r' heq => ?_) trivial rfl fun q hq => ?_
          · obtain rfl := Desk.Step.posixmqSend.inj heq
            exact hne
          · exact .inl ((Function.update_of_ne hne.symm _ _).trans hq)
    | onProcess maxsize =>
        obtain ⟨n, m', q', m'', q'', hm', hq', hreceive, rfl⟩ := Desk.step_onProcess.1 hstep
        obtain ⟨rfl, rfl⟩ := Prod.mk.inj (Option.some.inj (hm.symm.trans hm'))
        exact hi.onProcess hm hq' hreceive

/-! ## The start moved to the front -/

/-- A desk on which `pw-midimq` was started first, beside one that differs in that only. -/
def StartedFirst (name : String) (d e : Desk) : Prop :=
  d.ui = e.ui ∧ (∀ n, d.queues n ≠ none → e.queues n ≠ none) ∧
    ∃ m, e.midiMq = some (name, m) ∧ e.queues name ≠ none

/-- What can happen on the one can happen on the other. -/
theorem StartedFirst.step {name : String} {d d' e : Desk} {a : Desk.Step}
    (h : StartedFirst name d e) (hstep : d.step parseFloat int defaultMaxMsg a = some d')
    (hstart : d.midiMq = none → d'.midiMq = none) :
    ∃ e', e.step parseFloat int defaultMaxMsg a = some e' ∧ StartedFirst name d' e' := by
  obtain ⟨hui, hqueues, m, hm, hname⟩ := h
  cases a with
  | start n =>
      obtain ⟨hnone, -, -, rfl⟩ := Desk.step_start.1 hstep
      cases hstart hnone
  | posixmqOpen r =>
      obtain ⟨handlers, hhandlers, hccvalue, rfl⟩ := Desk.step_posixmqOpen.1 hstep
      refine ⟨_, Desk.step_posixmqOpen.2 ⟨handlers, hui ▸ hhandlers, hccvalue, rfl⟩, ?_⟩
      split
      · refine ⟨rfl, fun n => ?_, m, Desk.midiMq_mqOpen.trans hm, ?_⟩
        · exact fun h =>
            Desk.queues_mqOpen_ne_none.2 ((Desk.queues_mqOpen_ne_none.1 h).imp_right (hqueues n))
        · exact Desk.queues_mqOpen_ne_none.2 (.inr hname)
      · refine ⟨rfl, fun n => ?_, m, hm, ?_⟩
        · exact fun h => Option.map_eq_none_iff.not.2 (hqueues n (Option.map_eq_none_iff.not.1 h))
        · exact Option.map_eq_none_iff.not.2 hname
  | posixmqSend r =>
      obtain ⟨handlers, q, mididata, hhandlers, hq, hmididata, hmem, rfl⟩ :=
        Desk.step_posixmqSend.1 hstep
      obtain ⟨q', hq'⟩ := Option.ne_none_iff_exists'.1 (hqueues r.port (by simp [hq]))
      refine ⟨_, Desk.step_posixmqSend.2
        ⟨handlers, q', mididata, hui ▸ hhandlers, hq', hmididata, hmem, rfl⟩, rfl, fun n => ?_, m,
        hm, Desk.update_some_ne_none.2 (.inr hname)⟩
      exact fun h =>
        Desk.update_some_ne_none.2 ((Desk.update_some_ne_none.1 h).imp_right (hqueues n))
  | onProcess maxsize =>
      obtain ⟨n, m₁, q₁, m₁', q₁', -, hq₁, -, rfl⟩ := Desk.step_onProcess.1 hstep
      obtain ⟨q, hq⟩ := Option.ne_none_iff_exists'.1 hname
      obtain ⟨m', q', hm'⟩ := Desk.exists_step_next m q maxsize
      refine ⟨_, Desk.step_onProcess.2 ⟨name, m, q, m', q', hm, hq, hm', rfl⟩, hui, fun k => ?_, m',
        rfl, Desk.update_some_ne_none.2 (.inl rfl)⟩
      intro h
      rcases Desk.update_some_ne_none.1 h with rfl | h
      · exact Desk.update_some_ne_none.2 (.inr (hqueues _ (by simp [hq₁])))
      · exact Desk.update_some_ne_none.2 (.inr (hqueues k h))

/-- A run behind which `pw-midimq` is started can be made with the start before it. -/
theorem run_start_cons {name : String} {pre : List Desk.Step} {d : Desk}
    (h : (desk parseFloat int defaultMaxMsg).Run pre d) (hmidi : d.midiMq = none)
    (hname : QueueName name) (hfits : name.utf8ByteSize + 2 ≤ 100) :
    ∃ e, (desk parseFloat int defaultMaxMsg).Run (.start name :: pre) e ∧
      StartedFirst name d e := by
  refine h.invariant (I := fun pre d => d.midiMq = none →
    ∃ e, (desk parseFloat int defaultMaxMsg).Run (.start name :: pre) e ∧
      StartedFirst name d e) ?_ ?_ hmidi
  · rintro d rfl -
    have hstep : Desk.init.step parseFloat int defaultMaxMsg (.start name) = some _ :=
      Desk.step_start.2 ⟨rfl, hname, hfits, rfl⟩
    have hrun : (desk parseFloat int defaultMaxMsg).Run [.start name] _ := .step (.init rfl) hstep
    refine ⟨_, hrun, rfl, fun n h => absurd rfl h, .init, rfl, ?_⟩
    exact (Desk.queues_mqOpen_ne_none (d := .init)).2 (.inl rfl)
  · intro pre d a d' _ hi hstep hmidi'
    have hmidi : d.midiMq = none := by
      by_contra hm
      exact Desk.midiMq_ne_none hstep hm hmidi'
    obtain ⟨e, hrun, hfirst⟩ := hi hmidi
    obtain ⟨e', hstep', hfirst'⟩ := hfirst.step hstep fun _ => hmidi'
    exact ⟨e', hrun.step hstep', hfirst'⟩

/-- What follows the start follows the earlier one too. -/
theorem run_of_startedFirst {name : String} {tr post : List Desk.Step} {d₀ d e₀ : Desk}
    (hrun : (desk parseFloat int defaultMaxMsg).Run tr e₀) (hfirst : StartedFirst name d₀ e₀)
    (hstarted : d₀.midiMq ≠ none)
    (h : ((desk parseFloat int defaultMaxMsg).after d₀).Run post d) :
    ∃ e, (desk parseFloat int defaultMaxMsg).Run (tr ++ post) e := by
  have hinv : d.midiMq ≠ none ∧ ∃ e, (desk parseFloat int defaultMaxMsg).Run (tr ++ post) e ∧
      StartedFirst name d e := by
    refine h.invariant (I := fun post d => d.midiMq ≠ none ∧
      ∃ e, (desk parseFloat int defaultMaxMsg).Run (tr ++ post) e ∧ StartedFirst name d e) ?_ ?_
    · rintro d rfl
      exact ⟨hstarted, e₀, by rwa [List.append_nil], hfirst⟩
    · rintro post d a d' - ⟨hm, e, hrun, hfirst⟩ hstep
      obtain ⟨e', hstep', hfirst'⟩ := hfirst.step hstep fun hnone => absurd hnone hm
      refine ⟨Desk.midiMq_ne_none hstep hm, e', ?_, hfirst'⟩
      rw [← List.append_assoc]
      exact hrun.step hstep'
  obtain ⟨-, e, hrun, -⟩ := hinv
  exact ⟨e, hrun⟩

/-- The order of the starts does not matter: where the UI has opened the port before `pw-midimq` was
started, it receives what it receives had it been started at first, exactly when it never looks at
the queue behind a send to it. -/
theorem startOrder_iff {name : String} {pre post : List Desk.Step} {d : Desk} {r : Request}
    (h : (desk parseFloat int defaultMaxMsg).Run (pre ++ .start name :: post) d)
    (hopen : .posixmqOpen r ∈ pre) (hport : r.port = name) :
    ∃ e, (desk parseFloat int defaultMaxMsg).Run (.start name :: (pre ++ post)) e ∧
      (d.received = e.received ↔ Lts.EachStep (BeforeSend name) (pre ++ post)) := by
  subst hport
  obtain ⟨d₀, hpre, hpost⟩ := Lts.run_append.1 h
  obtain ⟨d₁, d₂, rfl, hstart, hrest⟩ := Lts.run_cons.1 hpost
  obtain ⟨hmidi, hname, hfits, -⟩ := Desk.step_start.1 hstart
  obtain ⟨e₁, hrun, hfirst⟩ := run_start_cons hpre hmidi hname hfits
  -- the start changes nothing that the desk with the earlier one does not have
  have hfirst₂ : StartedFirst r.port d₂ e₁ := by
    obtain ⟨hui, hqueues, m, hm, hqueue⟩ := hfirst
    obtain ⟨-, -, -, rfl⟩ := Desk.step_start.1 hstart
    refine ⟨Desk.ui_mqOpen.trans hui, fun n h => ?_, m, hm, hqueue⟩
    rcases Desk.queues_mqOpen_ne_none.1 h with rfl | h
    · exact hqueue
    · exact hqueues n h
  have hstarted : d₂.midiMq ≠ none := by
    obtain ⟨-, -, -, rfl⟩ := Desk.step_start.1 hstart
    exact Option.some_ne_none _
  obtain ⟨e, hrun⟩ := run_of_startedFirst hrun hfirst₂ hstarted hrest
  refine ⟨e, hrun, ?_⟩
  obtain ⟨q, hq, hsize⟩ := ui_queue hpre hmidi hopen hname
  rw [received_of_ui_queue hpost hq hsize]
  obtain ⟨m, q', hm, -, hreceived, -⟩ := ownQueue hrun
  rw [Desk.received, hm]
  exact eq_comm.trans hreceived

/-- A volume of the organ. -/
def volume : Request := ⟨false, "setbfree", "0", "7", some "100"⟩

/-- The UI opens the queue, and `pw-midimq` is started before it sends. -/
theorem volume_run :
    ∃ d, (desk (fun _ => 100) (fun _ => 100) 10).Run
        ([.posixmqOpen volume] ++ .start "setbfree" :: [.posixmqSend volume, .onProcess none]) d ∧
      d.received = [] := by
  refine ⟨_, Lts.run_of_foldlM (fun _ _ _ h => h) rfl rfl, ?_⟩
  rfl

/-- For the run of the volume it comes down to whether the queue is read before the send. -/
theorem volume_startOrder :
    ∃ d e, (desk (fun _ => 100) (fun _ => 100) 10).Run
        ([.posixmqOpen volume] ++ .start "setbfree" :: [.posixmqSend volume, .onProcess none]) d ∧
      (desk (fun _ => 100) (fun _ => 100) 10).Run (.start "setbfree" ::
        ([.posixmqOpen volume] ++ [.posixmqSend volume, .onProcess none])) e ∧
      (d.received = e.received ↔ Lts.EachStep (BeforeSend "setbfree")
        ([.posixmqOpen volume] ++ [.posixmqSend volume, .onProcess none])) := by
  obtain ⟨d, hrun, -⟩ := volume_run
  obtain ⟨e, hrun', hiff⟩ := startOrder_iff hrun (List.mem_singleton_self _) rfl
  exact ⟨d, e, hrun, hrun', hiff⟩

/-- Started first, `pw-midimq` receives the volume; started behind the open of the UI it does
not. -/
theorem volume_lost :
    ∃ d e, (desk (fun _ => 100) (fun _ => 100) 10).Run
        ([.posixmqOpen volume] ++ .start "setbfree" :: [.posixmqSend volume, .onProcess none]) d ∧
      (desk (fun _ => 100) (fun _ => 100) 10).Run (.start "setbfree" ::
        ([.posixmqOpen volume] ++ [.posixmqSend volume, .onProcess none])) e ∧
      d.received = [] ∧ e.received = [[0xb0, 7, 100]] := by
  obtain ⟨d, hrun, hnil⟩ := volume_run
  exact ⟨d, _, hrun, Lts.run_of_foldlM (fun _ _ _ h => h) rfl rfl, hnil, rfl⟩

end

end Soundcan.Ui
