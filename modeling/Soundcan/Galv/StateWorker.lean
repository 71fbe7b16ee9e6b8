import Soundcan.Lib.Transition
import Soundcan.Galv.Relaunch

/-!
# Work while a state is restored

`jalv_apply_state` gives the plugin a `worker:schedule` of its own, that of the state worker, which
works at once in the restoring thread, so that `jalv_worker_schedule` hands each request to `work`
before it returns and the next `jalv_run` emits the responses (`Wired.restoreWorks_of_run`). But
`jalv_open` creates the state worker only for a plugin with thread-safe restore, before it has asked
for that, and `jalv_process_init` forgets the workers besides. The handle of the feature stays
`NULL`, and `jalv_worker_schedule` refuses every request (`restoreWorks_iff`).

The functions here run as a whole. What the threads of a worker can do between each other is in
`Soundcan.Galv.Worker`; the lock of `work` only delays. `jalv_worker_launch` is left out: it is
called for the other worker.
-/

namespace Soundcan.Galv

/-! ## A worker -/

/-- `WorkerState`, for both kinds of workers. -/
inductive WorkerMode where
  | singleThreaded
  | threaded (state : WorkerState)
  deriving DecidableEq

/-- `LV2_Worker_Status`. -/
inductive WorkerStatus where
  | success
  | errUnknown
  | errNoSpace
  deriving DecidableEq

/-- `JalvWorkerImpl`; `iface` says that it is attached. -/
structure WorkerImpl where
  requests : PacketRing
  responses : PacketRing
  sem : Nat
  mode : WorkerMode
  iface : Bool

/-- A request, with the responses and the status of the plugin's `work` for it. -/
structure WorkRequest where
  data : List UInt8
  responses : List (List UInt8)
  status : WorkerStatus

/-- `jalv_worker_new`. -/
def WorkerImpl.new (threaded : Bool) : WorkerImpl where
  requests := .new
  responses := .new
  sem := 0
  mode := if threaded then .threaded .stopped else .singleThreaded
  iface := false

/-- `jalv_worker_write_packet`, and whether it succeeds. -/
def PacketRing.write (p : PacketRing) (data : List UInt8) : Option (PacketRing × Bool) :=
  (p.begin data).bind finish

/-- `jalv_worker_respond`. -/
def WorkerImpl.respond (w : WorkerImpl) (response : List UInt8) : Option WorkerImpl := do
  let (responses, _) ← w.responses.write response
  some { w with responses }

/-- The loop of `jalv_worker_emit_responses`, given the rounds it may take, with what it passes to
`work_response`. A response must fit its buffer. -/
def PacketRing.emit : Nat → PacketRing → Option (PacketRing × List (List UInt8))
  | 0, _ => none
  | rounds + 1, p =>
    match p.readSize with
    | none => some (p, [])
    | some p =>
      match p.readData with
      | none => emit rounds { p with head := none }
      | some (response, p) => do
        if response.length ≤ maxPacketSize then
          let (p, responses) ← emit rounds p
          some (p, response :: responses)
        else none

/-! ## The workers of the host -/

/-- The workers and what refers to them: `worker` and `stateWorker` of the process thread, `sched`
and `ssched` of the features. The rest is history: the non-empty requests that the plugin has
scheduled with the feature of the state, those passed to `work` in the thread of
`jalv_worker_schedule`, the responses of the state worker passed to `work_response`, and whether
`jalv_run` was the last to be called. -/
structure WorkerHost where
  heap : List WorkerImpl
  worker : Option Nat
  stateWorker : Option Nat
  sched : Option Nat
  ssched : Option Nat
  safeRestore : Bool
  scheduled : List (List UInt8)
  worked : List (List UInt8)
  emitted : List (List UInt8)
  hasRun : Bool

/-- What `jalv_open` meets: the plugin's `work:interface` and `state:threadSafeRestore`, and whether
each `jalv_worker_new` gets its memory. -/
structure WorkerSetup where
  workInterface : Bool
  threadSafeRestore : Bool
  workerNew : Bool
  stateWorkerNew : Bool

/-- The calls in the order in which they return: `jalv_apply_state`, with what the plugin schedules
in it with the feature of the state, and `jalv_run`. -/
inductive WorkStep where
  | applyState (requests : List WorkRequest)
  | run

namespace WorkerHost

/-- The zeroed `Jalv`. -/
def zeroed : WorkerHost := ⟨[], none, none, none, none, false, [], [], [], false⟩

/-- `jalv_worker_new` of the host: the worker, or `NULL`. -/
def newWorker (granted threaded : Bool) (h : WorkerHost) : Option Nat × WorkerHost :=
  if granted then (some h.heap.length, { h with heap := h.heap ++ [.new threaded] }) else (none, h)

/-- `jalv_open`: "Create workers if necessary". -/
def createWorkers (setup : WorkerSetup) (h : WorkerHost) : WorkerHost :=
  if setup.workInterface then
    let (worker, h) := h.newWorker setup.workerNew true
    let h := { h with worker, sched := worker }
    if h.safeRestore then
      let (stateWorker, h) := h.newWorker setup.stateWorkerNew false
      { h with stateWorker, ssched := stateWorker }
    else h
  else h

/-- `jalv_open`: "Check for thread-safe state restore() method". -/
def checkSafeRestore (setup : WorkerSetup) (h : WorkerHost) : WorkerHost :=
  { h with safeRestore := setup.threadSafeRestore }

/-- `jalv_process_init`. -/
def processInit (h : WorkerHost) : WorkerHost := { h with worker := none, stateWorker := none }

/-- `jalv_worker_attach`. -/
def attach (worker : Option Nat) (h : WorkerHost) : WorkerHost :=
  match worker with
  | none => h
  | some p => { h with heap := h.heap.modify p fun w => { w with iface := true } }

/-- `jalv_open`, in front of the state. -/
def opened (setup : WorkerSetup) : WorkerHost :=
  let h := ((zeroed.createWorkers setup).checkSafeRestore setup).processInit
  let h := h.attach h.worker
  h.attach h.stateWorker

/-- `jalv_worker_schedule`. It is undefined where the worker is not there, or `work` is not. -/
def jalvWorkerSchedule (worker : Option Nat) (request : WorkRequest) (h : WorkerHost) :
    Option (WorkerStatus × WorkerHost) :=
  match worker with
  | none => some (.errUnknown, h)
  | some p => do
    let w ← h.heap[p]?
    if request.data = [] ∨ w.mode = .threaded .stopped then some (.errUnknown, h)
    else
      match w.mode with
      | .threaded .launched => do
        let (requests, ok) ← w.requests.write request.data
        let sem := if ok then w.sem + 1 else w.sem
        some (if ok then .success else .errNoSpace,
          { h with heap := h.heap.set p { w with requests, sem } })
      | .singleThreaded =>
        if w.iface then do
          let w ← request.responses.foldlM WorkerImpl.respond w
          some (request.status,
            { h with heap := h.heap.set p w, worked := h.worked ++ [request.data] })
        else none
      | .threaded _ => some (.success, h)

/-- One request that the plugin schedules with the feature of the state. -/
def scheduleState (h : WorkerHost) (request : WorkRequest) : Option WorkerHost := do
  let (_, h) ← h.jalvWorkerSchedule h.ssched request
  some (if request.data = [] then h else { h with scheduled := h.scheduled ++ [request.data] })

/-- `jalv_apply_state`, whose pause is left to `Soundcan.Galv.Restore`. -/
def jalvApplyState (requests : List WorkRequest) (h : WorkerHost) : Option WorkerHost :=
  requests.foldlM scheduleState { h with hasRun := false }

/-- `jalv_worker_emit_responses`, with what it passes to `work_response`. Each round of its loop
takes bytes from the ring. -/
def emitResponses (worker : Option Nat) (h : WorkerHost) :
    Option (List (List UInt8) × WorkerHost) :=
  match worker with
  | none => some ([], h)
  | some p => do
    let w ← h.heap[p]?
    let (responses, emitted) ← w.responses.emit (w.responses.ring.readSpace + 1)
    if emitted = [] ∨ w.iface then
      some (emitted, { h with heap := h.heap.set p { w with responses } })
    else none

/-- `jalv_run`: the responses. -/
def jalvRun (h : WorkerHost) : Option WorkerHost := do
  let (emitted, h) ← h.emitResponses h.stateWorker
  let (_, h) ← h.emitResponses h.worker
  some { h with emitted := h.emitted ++ emitted, hasRun := true }

/-- One call. -/
def step (h : WorkerHost) : WorkStep → Option WorkerHost
  | .applyState requests => h.jalvApplyState requests
  | .run => h.jalvRun

/-- What is asked for while a state is restored is done: the requests have been worked on, each
once, in order, and behind `jalv_run` the responses that the state worker has accepted have been
emitted. -/
structure RestoreWorks (h : WorkerHost) : Prop where
  worked : h.worked = h.scheduled
  emitted : h.hasRun → ∀ p w, h.stateWorker = some p → h.heap[p]? = some w →
    h.emitted = w.responses.accepted

end WorkerHost

/-- The runs of the host behind `jalv_open`. -/
def restoring (setup : WorkerSetup) : Lts WorkerHost WorkStep where
  init h := h = .opened setup
  step h a h' := h.step a = some h'

/-! ## A worker in its place -/

section
variable {p p' : PacketRing} {pending : List (List UInt8)} {data : List UInt8}

/-- A packet is written behind the others, or not at all. -/
theorem PacketRing.Inv.write (hp : p.Inv pending) {ok : Bool}
    (hwrite : p.write data = some (p', ok)) :
    ∃ pending', p'.Inv pending' ∧ p'.head = p.head ∧ p'.taken = p.taken ∧ p'.writing = none := by
  obtain ⟨p₁, hbegin, hfinish⟩ := Option.bind_eq_some_iff.1 hwrite
  obtain ⟨hp₁, hhead₁, -, htaken₁, -⟩ := hp.begin hbegin
  obtain ⟨hhead, htaken, hok⟩ := hp₁.finish hfinish
  cases ok with
  | true =>
      obtain ⟨data', tx, -, -, hp', hidle⟩ := hok
      exact ⟨_, hp', hhead.trans hhead₁, htaken.trans htaken₁, hidle⟩
  | false =>
      obtain ⟨-, -, hp', hidle⟩ := hok
      exact ⟨_, hp', hhead.trans hhead₁, htaken.trans htaken₁, hidle⟩

/-- The loop of `jalv_worker_emit_responses` takes all that is in the ring. -/
theorem PacketRing.Inv.emit (hp : p.Inv pending) (hhead : p.head = none) {rounds : Nat}
    (hrounds : pending.length < rounds) :
    ∃ p', p.emit rounds = some (p', pending) ∧ p'.Inv [] ∧ p'.head = none ∧
      p'.taken = p.taken ++ pending ∧ p'.writing = p.writing := by
  induction pending generalizing p rounds with
  | nil =>
      obtain ⟨rounds, rfl⟩ := Nat.exists_eq_succ_of_ne_zero (Nat.ne_zero_of_lt hrounds)
      have hnone : p.readSize = none := hp.readSize hhead
      refine ⟨p, ?_, hp, hhead, (List.append_nil _).symm, rfl⟩
      rw [PacketRing.emit, hnone]
  | cons response pending ih =>
      rw [List.length_cons] at hrounds
      obtain ⟨rounds, rfl⟩ := Nat.exists_eq_succ_of_ne_zero (Nat.ne_zero_of_lt hrounds)
      obtain ⟨p₁, hsize, hp₁, hhead₁, -, htaken₁, hwriting₁⟩ := hp.readSize hhead
      obtain ⟨response', rest, p₂, heq, -, hlt, hdata, hp₂, hhead₂, -, htaken₂, hwriting₂⟩ :=
        hp₁.readData hhead₁
      obtain ⟨rfl, rfl⟩ := List.cons.inj heq
      obtain ⟨p₃, hrest, hp₃, hhead₃, htaken₃, hwriting₃⟩ :=
        ih hp₂ hhead₂ (Nat.lt_of_succ_lt_succ hrounds)
      refine ⟨p₃, ?_, hp₃, hhead₃, ?_, ?_⟩
      · have hfits : response.length ≤ maxPacketSize := by omega
        simp only [PacketRing.emit, hsize, hdata, if_pos hfits, hrest]
        rfl
      · rw [htaken₃, htaken₂, htaken₁, List.append_assoc, List.singleton_append]
      · rw [hwriting₃, hwriting₂, hwriting₁]

end

/-- An attached worker that works at once, between two calls. -/
structure WorkerImpl.Sync (w : WorkerImpl) (pending : List (List UInt8)) : Prop where
  mode : w.mode = .singleThreaded
  iface : w.iface = true
  responses : w.responses.Inv pending
  head : w.responses.head = none
  writing : w.responses.writing = none

/-- The responses to one request become pending, and none is taken. -/
theorem WorkerImpl.Sync.respond {w w' : WorkerImpl} {pending : List (List UInt8)}
    (hw : w.Sync pending) {responses : List (List UInt8)}
    (hrespond : responses.foldlM respond w = some w') :
    ∃ pending', w'.Sync pending' ∧ w'.responses.taken = w.responses.taken := by
  refine Lts.invariant_of_foldlM (I := fun _ w' => ∃ pending', w'.Sync pending' ∧
    w'.responses.taken = w.responses.taken) hrespond ⟨pending, hw, rfl⟩ ?_
  rintro - w₁ response w₂ ⟨pending₁, hw₁, htaken₁⟩ hstep
  obtain ⟨⟨p, ok⟩, hwrite, hstep⟩ := Option.bind_eq_some_iff.1 hstep
  obtain rfl := Option.some.inj hstep
  obtain ⟨pending₂, hp, hhead, htaken, hidle⟩ := hw₁.responses.write hwrite
  exact ⟨pending₂, ⟨hw₁.mode, hw₁.iface, hp, hhead.trans hw₁.head, hidle⟩, htaken.trans htaken₁⟩

namespace WorkerHost

/-- The state worker is there, and the feature of the state refers to it. -/
structure Wired (p : Nat) (h : WorkerHost) : Prop where
  ssched : h.ssched = some p
  stateWorker : h.stateWorker = some p
  worker : h.worker ≠ some p
  worked : h.worked = h.scheduled
  impl : ∃ w pending, h.heap[p]? = some w ∧ w.Sync pending ∧ h.emitted = w.responses.taken ∧
    (h.hasRun → pending = [])

section
variable {p : Nat} {h h' : WorkerHost}

/-- The responses of a worker are emitted from its ring. -/
theorem emitResponses_eq {worker : Option Nat} {emitted : List (List UInt8)}
    (hstep : h.emitResponses worker = some (emitted, h')) :
    ∃ heap, h' = { h with heap } ∧ ∀ q, worker ≠ some q → heap[q]? = h.heap[q]? := by
  unfold emitResponses at hstep
  cases worker with
  | none =>
      obtain ⟨-, rfl⟩ := Prod.mk.inj (Option.some.inj hstep)
      exact ⟨h.heap, rfl, fun _ _ => rfl⟩
  | some q =>
      obtain ⟨w, -, hstep⟩ := Option.bind_eq_some_iff.1 hstep
      obtain ⟨⟨responses, emitted'⟩, -, hstep⟩ := Option.bind_eq_some_iff.1 hstep
      dsimp only at hstep
      split at hstep
      · obtain ⟨-, rfl⟩ := Prod.mk.inj (Option.some.inj hstep)
        refine ⟨_, rfl, fun q' hne => List.getElem?_set_ne ?_⟩
        exact fun heq => hne (congrArg some heq)
      · cases hstep

/-- A host that is wired has done what was asked for while the state was restored. -/
theorem Wired.restoreWorks (hwired : h.Wired p) : h.RestoreWorks := by
  refine ⟨hwired.worked, fun hrun q w hq hw => ?_⟩
  obtain ⟨w', pending, hw', hsync, hemitted, hpending⟩ := hwired.impl
  obtain rfl := Option.some.inj (hwired.stateWorker.symm.trans hq)
  obtain rfl := Option.some.inj (hw'.symm.trans hw)
  rw [hemitted, hsync.responses.accepted_eq, hpending hrun, List.append_nil]

/-- A request is worked on when it is scheduled. -/
theorem Wired.scheduleState (hwired : h.Wired p) (hrun : h.hasRun = false) {request : WorkRequest}
    (hstep : h.scheduleState request = some h') : h'.Wired p ∧ h'.hasRun = false := by
  obtain ⟨w, pending, hw, hsync, hemitted, -⟩ := hwired.impl
  obtain ⟨⟨status, h₁⟩, hschedule, hstep⟩ := Option.bind_eq_some_iff.1 hstep
  obtain rfl := Option.some.inj hstep
  rw [hwired.ssched, jalvWorkerSchedule] at hschedule
  obtain ⟨w₁, hw₁, hschedule⟩ := Option.bind_eq_some_iff.1 hschedule
  obtain rfl := Option.some.inj (hw.symm.trans hw₁)
  by_cases hdata : request.data = []
  · rw [if_pos (.inl hdata)] at hschedule
    obtain ⟨-, rfl⟩ := Prod.mk.inj (Option.some.inj hschedule)
    simp only [if_pos hdata]
    exact ⟨hwired, hrun⟩
  · have hgoes : ¬(request.data = [] ∨ w.mode = .threaded .stopped) := by
      rw [hsync.mode]
      simp [hdata]
    rw [if_neg hgoes] at hschedule
    simp only [hsync.mode, hsync.iface, if_true] at hschedule
    obtain ⟨w', hrespond, hschedule⟩ := Option.bind_eq_some_iff.1 hschedule
    obtain ⟨-, rfl⟩ := Prod.mk.inj (Option.some.inj hschedule)
    obtain ⟨pending', hsync', htaken⟩ := hsync.respond hrespond
    simp only [if_neg hdata]
    refine ⟨⟨hwired.ssched, hwired.stateWorker, hwired.worker, ?_, w', pending', ?_, hsync',
      hemitted.trans htaken.symm, ?_⟩, hrun⟩
    · exact congrArg (· ++ [request.data]) hwired.worked
    · exact List.getElem?_set_self (List.getElem?_eq_some_iff.1 hw).1
    · intro hran
      cases hrun.symm.trans hran

/-- Applying a state leaves the host wired. -/
theorem Wired.jalvApplyState (hwired : h.Wired p) {requests : List WorkRequest}
    (hstep : h.jalvApplyState requests = some h') : h'.Wired p := by
  have hbegin : { h with hasRun := false }.Wired p := by
    obtain ⟨w, pending, hw, hsync, hemitted, -⟩ := hwired.impl
    exact ⟨hwired.ssched, hwired.stateWorker, hwired.worker, hwired.worked,
      w, pending, hw, hsync, hemitted, fun hran => absurd hran Bool.false_ne_true⟩
  have hinv : h'.Wired p ∧ h'.hasRun = false := by
    refine Lts.invariant_of_foldlM (I := fun _ h => h.Wired p ∧ h.hasRun = false) hstep
      ⟨hbegin, rfl⟩ ?_
    rintro - h₁ request h₂ ⟨hwired₁, hrun₁⟩ hfirst
    exact hwired₁.scheduleState hrun₁ hfirst
  exact hinv.1

/-- The responses in the ring of the state worker are emitted by `jalv_run`. -/
theorem Wired.jalvRun (hwired : h.Wired p) (hstep : h.jalvRun = some h') : h'.Wired p := by
  obtain ⟨w, pending, hw, hsync, hemitted, -⟩ := hwired.impl
  have hrounds : pending.length < w.responses.ring.readSpace + 1 := by
    have hholds := hsync.responses.holds
    rw [PacketRing.Holds, hsync.head] at hholds
    dsimp only at hholds
    rw [ByteRing.readSpace, hholds]
    exact Nat.lt_succ_of_le (packets.length_le_encodeAll pending)
  obtain ⟨responses, hemit, hinv, hhead, htaken, hwriting⟩ :=
    hsync.responses.emit hsync.head hrounds
  have hstate : h.emitResponses (some p) =
      some (pending, { h with heap := h.heap.set p { w with responses } }) := by
    simp only [emitResponses, hw, Option.bind_eq_bind, Option.bind_some, hemit, hsync.iface,
      or_true, if_true]
  rw [WorkerHost.jalvRun, hwired.stateWorker, hstate, Option.bind_eq_bind, Option.bind_some]
    at hstep
  obtain ⟨⟨emitted, h₂⟩, hworker, hstep⟩ := Option.bind_eq_some_iff.1 hstep
  obtain ⟨heap, rfl, hframe⟩ := emitResponses_eq hworker
  obtain rfl := Option.some.inj hstep
  have hlt : p < h.heap.length := (List.getElem?_eq_some_iff.1 hw).1
  refine ⟨hwired.ssched, hwired.stateWorker, hwired.worker, hwired.worked,
    { w with responses }, [], ?_, ⟨hsync.mode, hsync.iface, hinv, hhead, ?_⟩, ?_, fun _ => rfl⟩
  · exact (hframe p hwired.worker).trans (List.getElem?_set_self hlt)
  · exact hwriting.trans hsync.writing
  · exact (congrArg (· ++ pending) hemitted).trans htaken.symm

end

end WorkerHost

/-- With the worker in its place, all that is asked for while a state is restored is done. -/
theorem WorkerHost.Wired.restoreWorks_of_run {setup : WorkerSetup} {p : Nat} {h₀ h : WorkerHost}
    (hwired : h₀.Wired p) {tr : List WorkStep} (hrun : ((restoring setup).after h₀).Run tr h) :
    h.RestoreWorks := by
  have hinv : h.Wired p := by
    refine hrun.invariant (I := fun _ h => h.Wired p) ?_ ?_
    · rintro h rfl
      exact hwired
    · rintro tr h a h' - hwired hstep
      cases a with
      | applyState requests => exact hwired.jalvApplyState hstep
      | run => exact hwired.jalvRun hstep
  exact hinv.restoreWorks

/-! ## The handle of the feature -/

namespace WorkerHost

/-- No worker is behind the feature of the state. -/
structure Unwired (h : WorkerHost) : Prop where
  ssched : h.ssched = none
  worker : h.worker = none
  stateWorker : h.stateWorker = none
  worked : h.worked = []

variable {h h' : WorkerHost}

/-- The workers are created before `safe_restore` is set. -/
theorem unwired_opened (setup : WorkerSetup) : (opened setup).Unwired := by
  obtain ⟨_ | _, _, _ | _, _⟩ := setup <;> exact ⟨rfl, rfl, rfl, rfl⟩

/-- Without the state worker, all that is asked for is worked on exactly if nothing is. -/
theorem Unwired.restoreWorks_iff_nothing_scheduled (hun : h.Unwired) :
    h.RestoreWorks ↔ h.scheduled = [] := by
  constructor
  · intro hworks
    rw [← hworks.worked, hun.worked]
  · intro hnone
    refine ⟨hun.worked.trans hnone.symm, fun _ p w hp => ?_⟩
    cases hun.stateWorker.symm.trans hp

/-- The feature refuses a request. -/
theorem Unwired.scheduleState (hun : h.Unwired) {request : WorkRequest}
    (hstep : h.scheduleState request = some h') :
    h'.Unwired ∧ (h'.scheduled = [] ↔ h.scheduled = [] ∧ request.data = []) := by
  have hrefused : h.jalvWorkerSchedule h.ssched request = some (.errUnknown, h) := by
    rw [hun.ssched, jalvWorkerSchedule]
  rw [WorkerHost.scheduleState, hrefused] at hstep
  obtain rfl := Option.some.inj hstep
  split
  · next hdata => exact ⟨hun, by simp [hdata]⟩
  · next hdata => exact ⟨⟨hun.ssched, hun.worker, hun.stateWorker, hun.worked⟩, by simp [hdata]⟩

/-- Applying a state leaves the host unwired, and schedules the requests that are not empty. -/
theorem Unwired.jalvApplyState (hun : h.Unwired) {requests : List WorkRequest}
    (hstep : h.jalvApplyState requests = some h') :
    h'.Unwired ∧ (h'.scheduled = [] ↔
      h.scheduled = [] ∧ ∀ request ∈ requests, request.data = []) := by
  refine Lts.invariant_of_foldlM (I := fun taken h' => h'.Unwired ∧ (h'.scheduled = [] ↔
    h.scheduled = [] ∧ ∀ request ∈ taken, request.data = [])) hstep
    ⟨⟨hun.ssched, hun.worker, hun.stateWorker, hun.worked⟩, by simp⟩ ?_
  rintro taken h₁ request h₂ ⟨hun₁, hiff⟩ hfirst
  obtain ⟨hun₂, hone⟩ := hun₁.scheduleState hfirst
  refine ⟨hun₂, ?_⟩
  rw [hone, hiff, List.forall_mem_append, List.forall_mem_singleton, and_assoc]

/-- The requests are refused, and the restore goes on. -/
theorem Unwired.exists_foldlM_scheduleState (hun : h.Unwired) (requests : List WorkRequest) :
    ∃ h', requests.foldlM WorkerHost.scheduleState h = some h' := by
  induction requests generalizing h with
  | nil => exact ⟨h, rfl⟩
  | cons request requests ih =>
      have hfirst : ∃ h₁, h.scheduleState request = some h₁ := by
        rw [WorkerHost.scheduleState, hun.ssched, jalvWorkerSchedule]
        exact ⟨_, rfl⟩
      obtain ⟨h₁, hfirst⟩ := hfirst
      rw [List.foldlM_cons, hfirst]
      exact ih (hun.scheduleState hfirst).1

/-- Both calls return: one refuses the requests, the other finds no worker. -/
theorem Unwired.exists_step (hun : h.Unwired) (a : WorkStep) : ∃ h', h.step a = some h' := by
  cases a with
  | applyState requests =>
      have hbegin : { h with hasRun := false }.Unwired :=
        ⟨hun.ssched, hun.worker, hun.stateWorker, hun.worked⟩
      exact hbegin.exists_foldlM_scheduleState requests
  | run =>
      have hstate : h.emitResponses h.stateWorker = some ([], h) := by
        rw [hun.stateWorker, emitResponses]
      have hworker : h.emitResponses h.worker = some ([], h) := by
        rw [hun.worker, emitResponses]
      simp only [WorkerHost.step, WorkerHost.jalvRun, hstate, hworker, Option.bind_eq_bind,
        Option.bind_some]
      exact ⟨_, rfl⟩

/-- `jalv_run` emits what it emits for the state worker, and schedules nothing. -/
theorem jalvRun_eq (hstep : h.jalvRun = some h') :
    ∃ emitted heap, h' = { h with heap, emitted, hasRun := true } := by
  obtain ⟨⟨emitted, h₁⟩, hstate, hstep⟩ := Option.bind_eq_some_iff.1 hstep
  obtain ⟨⟨_, h₂⟩, hworker, hstep⟩ := Option.bind_eq_some_iff.1 hstep
  obtain ⟨heap₁, rfl, -⟩ := emitResponses_eq hstate
  obtain ⟨heap₂, rfl, -⟩ := emitResponses_eq hworker
  obtain rfl := Option.some.inj hstep
  exact ⟨_, heap₂, rfl⟩

end WorkerHost

/-- In every run, what is asked for while a state is restored is done exactly if nothing is asked
for. -/
theorem restoreWorks_iff (setup : WorkerSetup) {tr : List WorkStep} {h : WorkerHost}
    (hrun : (restoring setup).Run tr h) :
    h.RestoreWorks ↔
      ∀ requests, .applyState requests ∈ tr → ∀ request ∈ requests, request.data = [] := by
  have hinv : h.Unwired ∧ (h.scheduled = [] ↔
      ∀ requests, .applyState requests ∈ tr → ∀ request ∈ requests, request.data = []) := by
    refine hrun.invariant (I := fun tr h => h.Unwired ∧ (h.scheduled = [] ↔
      ∀ requests, .applyState requests ∈ tr → ∀ request ∈ requests, request.data = [])) ?_ ?_
    · rintro h rfl
      have hnone : (WorkerHost.opened setup).scheduled = [] := by
        obtain ⟨_ | _, _, _ | _, _⟩ := setup <;> rfl
      exact ⟨WorkerHost.unwired_opened setup, by simp [hnone]⟩
    · rintro tr h a h' - ⟨hun, hscheduled⟩ hstep
      cases a with
      | applyState requests =>
          obtain ⟨hun', hiff⟩ := hun.jalvApplyState hstep
          refine ⟨hun', ?_⟩
          rw [hiff, hscheduled]
          simp only [List.mem_append, List.mem_singleton, WorkStep.applyState.injEq]
          grind
      | run =>
          obtain ⟨emitted, heap, rfl⟩ := WorkerHost.jalvRun_eq hstep
          refine ⟨⟨hun.ssched, hun.worker, hun.stateWorker, hun.worked⟩, hscheduled.trans ?_⟩
          simp
  rw [hinv.1.restoreWorks_iff_nothing_scheduled]
  exact hinv.2

/-- A plugin with a worker and thread-safe restore, and memory for both workers. -/
def bothWorkers : WorkerSetup := ⟨true, true, true, true⟩

/-- A request of no bytes. -/
def emptyRequest : WorkRequest := ⟨[], [], .success⟩

/-- Behind restores without requests, or with one of no bytes, nothing is left to do. -/
theorem restoreWorks_without_requests : ∃ h,
    (restoring bothWorkers).Run
      [.applyState [], .run, .applyState [emptyRequest], .run] h ∧ h.RestoreWorks := by
  have hrun : (restoring bothWorkers).Run
      [.applyState [], .run, .applyState [emptyRequest], .run] _ :=
    Lts.run_of_foldlM (f := WorkerHost.step) (fun _ _ _ h => h) rfl rfl
  refine ⟨_, hrun, (restoreWorks_iff bothWorkers hrun).2 ?_⟩
  intro requests hmem request hrequest
  simp only [List.mem_cons, WorkStep.applyState.injEq, reduceCtorEq, List.not_mem_nil,
    or_false, false_or] at hmem
  rcases hmem with rfl | rfl
  · cases hrequest
  · obtain rfl := List.mem_singleton.1 hrequest
    rfl

/-- A request of one byte is refused. -/
theorem restoreWorks_refused : ∃ h,
    (restoring bothWorkers).Run [.applyState [⟨[1], [], .success⟩]] h ∧ ¬h.RestoreWorks := by
  refine ⟨_, Lts.run_of_foldlM (f := WorkerHost.step) (fun _ _ _ h => h) rfl rfl, ?_⟩
  intro hworks
  cases hworks.worked

/-- The state worker would be in its place if the workers were created behind the check and behind
`jalv_process_init`. -/
theorem wired_in_order :
    let h := (WorkerHost.zeroed.checkSafeRestore bothWorkers).processInit
    let h := h.createWorkers bothWorkers
    ((h.attach h.worker).attach h.stateWorker).Wired 1 :=
  ⟨rfl, rfl, by decide, rfl, _, [], rfl, ⟨rfl, rfl, PacketRing.inv_new, rfl, rfl⟩, rfl,
    fun _ => rfl⟩

end Soundcan.Galv
