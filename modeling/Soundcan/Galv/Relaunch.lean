import Soundcan.Lib.Transition
import Soundcan.Galv.Worker

/-!
# The worker over several launches

`jalv_activate` launches the worker thread and `jalv_deactivate` makes it exit, any number of times
over one ring of requests. Within a launch the semaphore counts the requests in the ring. An exit
uses the same semaphore, the thread leaves its loop at whichever wait comes first, and
`jalv_worker_launch` sets the semaphore to 0 again but leaves the ring as it is: what an exit left
in the ring, `leftover`, is never counted again (`RestartInv`), and each later request stays queued
behind it. The responses, which these functions do not touch, are left to `Soundcan.Galv.Worker`.
-/

namespace Soundcan.Galv

open Bytes ByteRing

/-- `WorkerState` of a threaded worker. -/
inductive WorkerState where
  | stopped
  | launched
  | mustExit
  deriving DecidableEq

/-- Where the worker thread is: not running, before its wait, behind it, behind its test of the
state, between the two reads of a request, behind them, or in the plugin's `work`. -/
inductive ThreadPlace where
  | none
  | waiting
  | woken
  | checked
  | sized
  | loaded (request : List UInt8)
  | working

/-- Where the calls of the host are, which come one after the other: between calls, in
`jalv_worker_schedule` before the packet is committed or before its post, or in `jalv_worker_exit`
before its post or its join. -/
inductive ClientPlace where
  | idle
  | writing
  | posting
  | exiting
  | joining
  deriving DecidableEq

/-- `JalvWorkerImpl` of a threaded worker, with its thread and the host. `handled` is history: the
requests passed to `work`. -/
structure ThreadedWorker where
  requests : PacketRing
  sem : Nat
  state : WorkerState
  thread : ThreadPlace
  client : ClientPlace
  handled : List (List UInt8)

/-- The steps of the host and of the thread. A call is made with `launch` (and whether
`zix_sem_init` and `zix_thread_create` succeed), `schedule` or `exit`; `write` and `post` are the
rest of a `jalv_worker_schedule`, `exitPost` and `join` of a `jalv_worker_exit`. `thread` is the
next step of `worker_func`, with the outcome of its `realloc`. -/
inductive RestartStep where
  | launch (semInit threadCreate : Bool)
  | schedule (data : List UInt8)
  | write
  | post
  | exit
  | exitPost
  | join
  | thread (realloc : Bool)
  deriving DecidableEq

namespace ThreadedWorker

/-- `jalv_worker_new`. -/
def new : ThreadedWorker where
  requests := .new
  sem := 0
  state := .stopped
  thread := .none
  client := .idle
  handled := []

/-- `jalv_worker_launch`. Until the state is set the thread can do nothing: its semaphore is 0. -/
def jalvWorkerLaunch (w : ThreadedWorker) (semInit threadCreate : Bool) : ThreadedWorker :=
  if w.state = .stopped then
    if semInit then
      if threadCreate then { w with sem := 0, state := .launched, thread := .waiting }
      else { w with sem := 0 }
    else w
  else w

/-- The beginning of `jalv_worker_schedule`, which does nothing for an empty request or when the
worker is not launched. -/
def jalvWorkerSchedule (w : ThreadedWorker) (data : List UInt8) : Option ThreadedWorker :=
  if data = [] ∨ w.state ≠ .launched then some w
  else (w.requests.begin data).map fun requests => { w with requests, client := .writing }

/-- The beginning of `jalv_worker_exit`. -/
def jalvWorkerExit (w : ThreadedWorker) : ThreadedWorker :=
  if w.state = .launched then { w with state := .mustExit, client := .exiting } else w

/-- The next step of `worker_func`. When `realloc` fails, the request is skipped. It is undefined
where the ring has no packet for it. -/
def workerFunc (w : ThreadedWorker) (realloc : Bool) : Option ThreadedWorker :=
  match w.thread with
  | .none => none
  | .waiting => if 0 < w.sem then some { w with sem := w.sem - 1, thread := .woken } else none
  | .woken =>
    if w.state = .mustExit then some { w with state := .stopped, thread := .none }
    else some { w with thread := .checked }
  | .checked => w.requests.readSize.map fun requests => { w with requests, thread := .sized }
  | .sized =>
    w.requests.readData.map fun (request, requests) =>
      if realloc then { w with requests, thread := .loaded request }
      else { w with requests, thread := .waiting }
  | .loaded request => some { w with thread := .working, handled := w.handled ++ [request] }
  | .working => some { w with thread := .waiting }

/-- One step. -/
def step (w : ThreadedWorker) : RestartStep → Option ThreadedWorker
  | .launch semInit threadCreate =>
    if w.client = .idle then some (w.jalvWorkerLaunch semInit threadCreate) else none
  | .schedule data => if w.client = .idle then w.jalvWorkerSchedule data else none
  | .write =>
    w.requests.finish.map fun (requests, ok) =>
      { w with requests, client := if ok then .posting else .idle }
  | .post =>
    if w.client = .posting then some { w with sem := w.sem + 1, client := .idle } else none
  | .exit => if w.client = .idle then some w.jalvWorkerExit else none
  | .exitPost =>
    if w.client = .exiting then some { w with sem := w.sem + 1, client := .joining } else none
  | .join =>
    match w.client, w.thread with
    | .joining, .none => some { w with client := .idle }
    | _, _ => none
  | .thread realloc => w.workerFunc realloc

end ThreadedWorker

/-- The runs of a threaded worker, over any number of launches. -/
def restarts : Lts ThreadedWorker RestartStep where
  init w := w = .new
  step w a w' := w.step a = some w'

/-! ## The bookkeeping -/

/-- Whenever the worker is launched and both the host and the thread are between operations, the
complete packets in the ring are the requests that were accepted and not taken, and there are as
many as the semaphore counts. So none is left when the thread sleeps. -/
def Bookkeeping (w : ThreadedWorker) : Prop :=
  w.state = .launched → w.client = .idle → w.thread = .waiting →
    ∃ pending, w.requests.Holds pending ∧ w.requests.accepted = w.requests.taken ++ pending ∧
      pending.length = w.sem

/-- The thread is launched over an empty ring. -/
def LaunchesEmpty (w : ThreadedWorker) (a : RestartStep) : Prop :=
  a = .launch true true → w.state = .stopped → w.requests.ring.bytes = []

instance (w : ThreadedWorker) (a : RestartStep) : Decidable (LaunchesEmpty w a) :=
  inferInstanceAs (Decidable (_ → _ → _))

/-! ## The invariant -/

/-- The waits whose packet is still to be read. -/
def ThreadPlace.waited : ThreadPlace → Nat
  | .woken | .checked | .sized => 1
  | _ => 0

/-- The packets whose post is still to come. -/
def ClientPlace.posts : ClientPlace → Nat
  | .posting => 1
  | _ => 0

/-- The posts that stand for no packet. -/
def ClientPlace.exits : ClientPlace → Nat
  | .joining => 1
  | _ => 0

/-- The invariant: `pending` are the packets in the ring, and as long as the thread runs, `leftover`
of them, those that were in it at the last launch, are not counted. -/
structure RestartInv (w : ThreadedWorker) (pending : List (List UInt8)) (leftover : Nat) :
    Prop where
  requests : w.requests.Inv pending
  sized : w.requests.head ≠ none ↔ w.thread = .sized
  writing : w.requests.writing ≠ none → w.client = .writing
  running : w.state = .stopped ↔ w.thread = .none
  launched : w.client = .writing ∨ w.client = .posting → w.state = .launched
  exiting : w.client = .exiting ∨ w.client = .joining → w.state ≠ .launched
  count : w.state ≠ .stopped →
    pending.length + w.client.exits = leftover + w.sem + w.client.posts + w.thread.waited
  claimed : w.thread = .checked → 0 < pending.length

/-- A worker that has not been launched has nothing pending. -/
theorem restartInv_new : RestartInv .new [] 0 where
  requests := PacketRing.inv_new
  sized := by simp [ThreadedWorker.new, PacketRing.new]
  writing h := absurd rfl h
  running := by simp [ThreadedWorker.new]
  launched := by simp [ThreadedWorker.new]
  exiting := by simp [ThreadedWorker.new]
  count h := absurd rfl h
  claimed := by simp [ThreadedWorker.new]

variable {w w' : ThreadedWorker} {pending : List (List UInt8)} {leftover : Nat}

/-- A ring between packets is empty exactly when it holds none. -/
theorem PacketRing.Holds.nil_iff {p : PacketRing} (h : p.Holds pending) (hhead : p.head = none) :
    p.ring.bytes = [] ↔ pending = [] := by
  rw [PacketRing.Holds, hhead] at h
  rw [h]
  constructor
  · intro hnil
    have hle := packets.length_le_encodeAll pending
    rw [hnil] at hle
    exact List.length_eq_zero_iff.1 (Nat.le_zero.1 hle)
  · rintro rfl
    rfl

/-- The thread holds the size of a packet only behind the read of it. -/
theorem RestartInv.head_eq_none (h : RestartInv w pending leftover) (hthread : w.thread ≠ .sized) :
    w.requests.head = none :=
  not_ne_iff.1 (h.sized.not.2 hthread)

/-- The launch of the thread forgets what is in the ring. -/
theorem RestartInv.launch (h : RestartInv w pending leftover) {semInit threadCreate : Bool}
    (hstep : w.step (.launch semInit threadCreate) = some w') :
    ∃ leftover', RestartInv w' pending leftover' ∧
      (LaunchesEmpty w (.launch semInit threadCreate) → leftover = 0 → leftover' = 0) := by
  rw [ThreadedWorker.step] at hstep
  split at hstep
  next hidle =>
    obtain rfl := Option.some.inj hstep
    rw [ThreadedWorker.jalvWorkerLaunch]
    split
    next hstopped =>
      have hnone : w.thread = .none := h.running.1 hstopped
      cases semInit with
      | false => exact ⟨leftover, h, fun _ h0 => h0⟩
      | true =>
          cases threadCreate with
          | false =>
              exact ⟨leftover, { h with count := fun hne => absurd hstopped hne }, fun _ h0 => h0⟩
          | true =>
              refine ⟨pending.length, { h with
                sized := ?_
                running := by simp
                launched := fun _ => rfl
                exiting := by simp [hidle]
                count := ?_
                claimed := by simp }, fun hempty _ => ?_⟩
              · exact h.sized.trans (by simp [hnone])
              · intro _
                simp [hidle, ClientPlace.exits, ClientPlace.posts, ThreadPlace.waited]
              · have hhead : w.requests.head = none := h.head_eq_none (by simp [hnone])
                rw [(h.requests.holds.nil_iff hhead).1 (hempty rfl hstopped), List.length_nil]
    next => exact ⟨leftover, h, fun _ h0 => h0⟩
  next => cases hstep

/-- Scheduling begins the write of a request, which is not pending yet. -/
theorem RestartInv.schedule (h : RestartInv w pending leftover) {data : List UInt8}
    (hstep : w.step (.schedule data) = some w') : RestartInv w' pending leftover := by
  rw [ThreadedWorker.step] at hstep
  split at hstep
  next hidle =>
    rw [ThreadedWorker.jalvWorkerSchedule] at hstep
    split at hstep
    next =>
      obtain rfl := Option.some.inj hstep
      exact h
    next hsome =>
      obtain ⟨requests, hbegin, rfl⟩ := Option.map_eq_some_iff.1 hstep
      obtain ⟨hinv, hhead, -, -, -⟩ := h.requests.begin hbegin
      have hlaunched : w.state = .launched := not_not.1 (not_or.1 hsome).2
      refine { h with
        requests := hinv
        sized := hhead ▸ h.sized
        writing := fun _ => rfl
        launched := fun _ => hlaunched
        exiting := by simp
        count := fun hne => ?_ }
      have hcount := h.count hne
      rw [hidle] at hcount
      exact hcount
  next => cases hstep

/-- A packet that is accepted is still to be posted. -/
theorem RestartInv.write (h : RestartInv w pending leftover) (hstep : w.step .write = some w') :
    ∃ pending', RestartInv w' pending' leftover := by
  obtain ⟨⟨requests, ok⟩, hfinish, rfl⟩ := Option.map_eq_some_iff.1 hstep
  have hclient : w.client = .writing := by
    refine h.writing fun hnone => ?_
    rw [PacketRing.finish, hnone] at hfinish
    cases hfinish
  have hlaunched := h.launched (.inl hclient)
  obtain ⟨hhead, -, hok⟩ := h.requests.finish hfinish
  have hcount : w.state ≠ .stopped →
      pending.length + 0 = leftover + w.sem + 0 + w.thread.waited := by
    have := h.count
    rwa [hclient] at this
  cases ok with
  | true =>
      rw [if_pos rfl] at hok
      obtain ⟨data, tx, -, -, hinv, hwriting⟩ := hok
      refine ⟨pending ++ [data], { h with
        requests := hinv
        sized := hhead ▸ h.sized
        writing := fun hne => absurd hwriting hne
        launched := fun _ => hlaunched
        exiting := by simp
        count := fun hne => ?_
        claimed := fun _ => by simp }⟩
      have := hcount hne
      simp only [List.length_append, List.length_singleton, if_true, ClientPlace.exits,
        ClientPlace.posts]
      omega
  | false =>
      rw [if_neg Bool.false_ne_true] at hok
      obtain ⟨-, -, hinv, hwriting⟩ := hok
      exact ⟨pending, { h with
        requests := hinv
        sized := hhead ▸ h.sized
        writing := fun hne => absurd hwriting hne
        launched := fun _ => hlaunched
        exiting := by simp
        count := hcount }⟩

/-- The post of a client is counted on the semaphore. -/
theorem RestartInv.post (h : RestartInv w pending leftover) (hstep : w.step .post = some w') :
    RestartInv w' pending leftover := by
  rw [ThreadedWorker.step] at hstep
  split at hstep
  next hposting =>
    obtain rfl := Option.some.inj hstep
    refine { h with
      writing := fun hne => absurd ((h.writing hne).symm.trans hposting) (by simp)
      launched := by simp
      exiting := by simp
      count := fun hne => ?_ }
    have hcount := h.count hne
    rw [hposting] at hcount
    simp only [ClientPlace.exits, ClientPlace.posts] at hcount ⊢
    omega
  next => cases hstep

/-- The exit has a post of its own still to make. -/
theorem RestartInv.exit (h : RestartInv w pending leftover) (hstep : w.step .exit = some w') :
    RestartInv w' pending leftover := by
  rw [ThreadedWorker.step] at hstep
  split at hstep
  next hidle =>
    obtain rfl := Option.some.inj hstep
    rw [ThreadedWorker.jalvWorkerExit]
    split
    next hlaunched =>
      have hne : w.state ≠ .stopped := by simp [hlaunched]
      have hcount := h.count hne
      rw [hidle] at hcount
      exact { h with
        writing := fun hne => absurd ((h.writing hne).symm.trans hidle) (by simp)
        running := iff_of_false (by simp) (mt h.running.2 hne)
        launched := by simp
        exiting := by simp
        count := fun _ => hcount }
    next => exact h
  next => cases hstep

/-- The post of an exit stands for no packet. -/
theorem RestartInv.exitPost (h : RestartInv w pending leftover)
    (hstep : w.step .exitPost = some w') : RestartInv w' pending leftover := by
  rw [ThreadedWorker.step] at hstep
  split at hstep
  next hexiting =>
    obtain rfl := Option.some.inj hstep
    refine { h with
      writing := fun hne => absurd ((h.writing hne).symm.trans hexiting) (by simp)
      launched := by simp
      exiting := fun _ => h.exiting (.inl hexiting)
      count := fun hne => ?_ }
    have hcount := h.count hne
    rw [hexiting] at hcount
    simp only [ClientPlace.exits, ClientPlace.posts] at hcount ⊢
    omega
  next => cases hstep

/-- A thread that is joined is stopped, and nothing is counted any more. -/
theorem RestartInv.join (h : RestartInv w pending leftover) (hstep : w.step .join = some w') :
    RestartInv w' pending leftover := by
  rw [ThreadedWorker.step] at hstep
  split at hstep
  next hjoining hnone =>
    obtain rfl := Option.some.inj hstep
    exact { h with
      writing := fun hne => absurd ((h.writing hne).symm.trans hjoining) (by simp)
      launched := by simp
      exiting := by simp
      count := fun hne => absurd (h.running.2 hnone) hne }
  next => cases hstep

/-- A place of the thread that holds no size and stands for no wait. -/
theorem RestartInv.idleThread (h : RestartInv w pending leftover) {requests : PacketRing}
    {place : ThreadPlace} {handled pending' : List (List UInt8)} (hinv : requests.Inv pending')
    (hwriting : requests.writing = w.requests.writing) (hhead : requests.head = none)
    (hplace : place.waited = 0) (hrunning : place ≠ .none) (hstate : w.state ≠ .stopped)
    (hcount : pending'.length + w.client.exits = leftover + w.sem + w.client.posts) :
    RestartInv { w with requests, thread := place, handled } pending' leftover where
  requests := hinv
  sized := by
    refine iff_of_false (not_not_intro hhead) fun hsized => ?_
    rw [show place = .sized from hsized] at hplace
    cases hplace
  writing hne := h.writing (hwriting ▸ hne)
  running := iff_of_false hstate hrunning
  launched := h.launched
  exiting := h.exiting
  count _ := by
    simp only [hplace]
    exact hcount
  claimed hchecked := by
    rw [show place = .checked from hchecked] at hplace
    cases hplace

/-- The wait takes a post. -/
theorem RestartInv.wait (h : RestartInv w pending leftover) (hthread : w.thread = .waiting)
    (hsem : 0 < w.sem) :
    RestartInv { w with sem := w.sem - 1, thread := .woken } pending leftover := by
  have hcount := h.count (h.running.not.2 (by simp [hthread]))
  rw [hthread] at hcount
  refine { h with
    sized := h.sized.trans (iff_of_false (by simp [hthread]) (by simp))
    running := h.running.trans (iff_of_false (by simp [hthread]) (by simp))
    count := fun _ => ?_
    claimed := by simp }
  simp only [ThreadPlace.waited] at hcount ⊢
  omega

/-- The thread finds that it must exit. -/
theorem RestartInv.stop (h : RestartInv w pending leftover) (hthread : w.thread = .woken)
    (hexit : w.state = .mustExit) :
    RestartInv { w with state := .stopped, thread := .none } pending leftover where
  requests := h.requests
  sized := h.sized.trans (iff_of_false (by simp [hthread]) (by simp))
  writing := h.writing
  running := iff_of_true rfl rfl
  launched hclient := absurd ((h.launched hclient).symm.trans hexit) (by simp)
  exiting := by simp
  count hne := absurd rfl hne
  claimed := by simp

/-- The thread goes on; as the state is launched, the wait was not for the post of an exit, and
there is a packet for it. -/
theorem RestartInv.check (h : RestartInv w pending leftover) (hthread : w.thread = .woken)
    (hexit : w.state ≠ .mustExit) :
    RestartInv { w with thread := .checked } pending leftover := by
  have hrunning : w.state ≠ .stopped := h.running.not.2 (by simp [hthread])
  have hlaunched : w.state = .launched := by
    cases hstate : w.state with
    | stopped => exact absurd hstate hrunning
    | launched => rfl
    | mustExit => exact absurd hstate hexit
  have hexits : w.client.exits = 0 := by
    cases hclient : w.client with
    | joining => exact absurd hlaunched (h.exiting (.inr hclient))
    | idle | writing | posting | exiting => rfl
  have hcount := h.count hrunning
  rw [hthread] at hcount
  refine { h with
    sized := h.sized.trans (iff_of_false (by simp [hthread]) (by simp))
    running := h.running.trans (iff_of_false (by simp [hthread]) (by simp))
    count := fun _ => hcount
    claimed := fun _ => ?_ }
  simp only [ThreadPlace.waited] at hcount
  omega

/-- The size of the packet is read. -/
theorem RestartInv.readSize (h : RestartInv w pending leftover) (hthread : w.thread = .checked) :
    ∃ requests, w.requests.readSize = some requests ∧
      RestartInv { w with requests, thread := .sized } pending leftover := by
  have hread := h.requests.readSize (h.head_eq_none (by simp [hthread]))
  cases pending with
  | nil => exact absurd (h.claimed hthread) (Nat.lt_irrefl 0)
  | cons data rest =>
      obtain ⟨requests, hread, hinv, hhead, -, -, hwriting⟩ := hread
      refine ⟨requests, hread, { h with
        requests := hinv
        sized := by simp [hhead]
        writing := hwriting ▸ h.writing
        running := h.running.trans (iff_of_false (by simp [hthread]) (by simp))
        count := fun hrunning => ?_
        claimed := by simp }⟩
      have hcount := h.count hrunning
      rw [hthread] at hcount
      exact hcount

/-- The packet is read, and its request is worked on or, if `realloc` fails, skipped. -/
theorem RestartInv.readData (h : RestartInv w pending leftover) (hthread : w.thread = .sized) :
    ∃ request requests pending', w.requests.readData = some (request, requests) ∧
      ∀ place : ThreadPlace, place.waited = 0 → place ≠ .none →
        RestartInv { w with requests, thread := place } pending' leftover := by
  have hrunning : w.state ≠ .stopped := h.running.not.2 (by simp [hthread])
  have hcount := h.count hrunning
  obtain ⟨size, hhead⟩ := Option.ne_none_iff_exists'.1 (h.sized.2 hthread)
  obtain ⟨data, rest, requests, rfl, -, -, hread, hinv, hhead', -, -, hwriting⟩ :=
    h.requests.readData hhead
  refine ⟨data, requests, rest, hread, fun place hplace hne => ?_⟩
  refine h.idleThread hinv hwriting hhead' hplace hne hrunning ?_
  rw [hthread, List.length_cons] at hcount
  simp only [ThreadPlace.waited] at hcount
  omega

/-- The thread goes on outside of the ring. -/
theorem RestartInv.pass (h : RestartInv w pending leftover) {place : ThreadPlace}
    {handled : List (List UInt8)} (hrunning : w.thread ≠ .none) (hsized : w.thread ≠ .sized)
    (hwaited : w.thread.waited = 0) (hplace : place.waited = 0) (hne : place ≠ .none) :
    RestartInv { w with thread := place, handled } pending leftover := by
  have hstate := h.running.not.2 hrunning
  refine h.idleThread h.requests rfl (h.head_eq_none hsized) hplace hne hstate ?_
  have hcount := h.count hstate
  rwa [hwaited] at hcount

/-- A step of `worker_func`, which is possible everywhere but before a wait that is not posted. -/
theorem RestartInv.thread (h : RestartInv w pending leftover) (hrunning : w.state ≠ .stopped)
    (hready : w.thread = .waiting → 0 < w.sem) (realloc : Bool) :
    ∃ w' pending', w.step (.thread realloc) = some w' ∧ RestartInv w' pending' leftover := by
  rw [ThreadedWorker.step, ThreadedWorker.workerFunc]
  cases hthread : w.thread with
  | none => exact absurd (h.running.2 hthread) hrunning
  | waiting =>
      have hsem := hready hthread
      exact ⟨_, pending, if_pos hsem, h.wait hthread hsem⟩
  | woken =>
      by_cases hexit : w.state = .mustExit
      · exact ⟨_, pending, if_pos hexit, h.stop hthread hexit⟩
      · exact ⟨_, pending, if_neg hexit, h.check hthread hexit⟩
  | checked =>
      obtain ⟨requests, hread, h'⟩ := h.readSize hthread
      exact ⟨_, pending, congrArg (Option.map _) hread, h'⟩
  | sized =>
      obtain ⟨request, requests, pending', hread, h'⟩ := h.readData hthread
      refine ⟨_, pending', congrArg (Option.map _) hread, ?_⟩
      cases realloc with
      | true => exact h' (.loaded request) rfl (by simp)
      | false => exact h' .waiting rfl (by simp)
  | loaded request =>
      exact ⟨_, pending, rfl, h.pass (by simp [hthread]) (by simp [hthread])
        (by rw [hthread]; rfl) rfl (by simp)⟩
  | working =>
      exact ⟨_, pending, rfl, h.pass (by simp [hthread]) (by simp [hthread])
        (by rw [hthread]; rfl) rfl (by simp)⟩

/-- Every step keeps the invariant, and leaves nothing uncounted when it launches over an empty
ring. -/
theorem RestartInv.step (h : RestartInv w pending leftover) {a : RestartStep}
    (hstep : w.step a = some w') :
    ∃ pending' leftover', RestartInv w' pending' leftover' ∧
      (LaunchesEmpty w a → leftover = 0 → leftover' = 0) := by
  cases a with
  | launch semInit threadCreate =>
      obtain ⟨leftover', h', hempty⟩ := h.launch hstep
      exact ⟨pending, leftover', h', hempty⟩
  | schedule data => exact ⟨pending, leftover, h.schedule hstep, fun _ h0 => h0⟩
  | write =>
      obtain ⟨pending', h'⟩ := h.write hstep
      exact ⟨pending', leftover, h', fun _ h0 => h0⟩
  | post => exact ⟨pending, leftover, h.post hstep, fun _ h0 => h0⟩
  | exit => exact ⟨pending, leftover, h.exit hstep, fun _ h0 => h0⟩
  | exitPost => exact ⟨pending, leftover, h.exitPost hstep, fun _ h0 => h0⟩
  | join => exact ⟨pending, leftover, h.join hstep, fun _ h0 => h0⟩
  | thread realloc =>
      have hrunning : w.state ≠ .stopped := by
        intro hstopped
        rw [ThreadedWorker.step, ThreadedWorker.workerFunc, h.running.1 hstopped] at hstep
        cases hstep
      have hready : w.thread = .waiting → 0 < w.sem := by
        intro hwaiting
        simp only [ThreadedWorker.step, ThreadedWorker.workerFunc, hwaiting] at hstep
        split at hstep
        next hsem => exact hsem
        next => cases hstep
      obtain ⟨w'', pending', hstep', h'⟩ := h.thread hrunning hready realloc
      obtain rfl := Option.some.inj (hstep'.symm.trans hstep)
      exact ⟨pending', leftover, h', fun _ h0 => h0⟩

/-- With nothing uncounted the semaphore counts the ring. -/
theorem RestartInv.bookkeeping (h : RestartInv w pending 0) : Bookkeeping w := by
  intro hlaunched hidle hwaiting
  have hcount := h.count (by simp [hlaunched])
  rw [hidle, hwaiting] at hcount
  refine ⟨pending, h.requests.holds, h.requests.accepted_eq, ?_⟩
  simp only [ClientPlace.exits, ClientPlace.posts, ThreadPlace.waited] at hcount
  omega

/-- A launch that leads to a state with its books in order found an empty ring. -/
theorem launchesEmpty_of_bookkeeping {a : RestartStep} (hstep : w.step a = some w')
    (h : Bookkeeping w') : LaunchesEmpty w a := by
  rintro rfl hstopped
  rw [ThreadedWorker.step] at hstep
  split at hstep
  next hidle =>
    obtain rfl := Option.some.inj hstep
    rw [ThreadedWorker.jalvWorkerLaunch, if_pos hstopped] at h
    obtain ⟨pending, hholds, -, hlength⟩ := h rfl hidle rfl
    obtain rfl := List.length_eq_zero_iff.1 hlength
    rw [PacketRing.Holds] at hholds
    split at hholds
    next => exact hholds
    next =>
      obtain ⟨data, rest, hnil, -⟩ := hholds
      cases hnil
  next => cases hstep

/-! ## Every run -/

/-- Bookkeeping over restarts: in a run the semaphore counts the ring whenever the worker is
launched and both threads are between operations, exactly when each launch of the run finds the ring
empty. -/
theorem bookkeeping_iff_launchesEmpty {tr : List RestartStep} {w : ThreadedWorker}
    (h : restarts.Run tr w) :
    (∀ pre w', pre <+: tr → restarts.Run pre w' → Bookkeeping w') ↔
      (restarts.guard LaunchesEmpty).Run tr w := by
  refine h.forall_initialPart_iff_guard ?_ ?_ ?_ ?_
  · rintro w w' rfl rfl
    rfl
  · intro w a w' w'' hstep hstep'
    exact Option.some.inj (hstep.symm.trans hstep')
  · intro tr w hrun
    obtain ⟨pending, hinv⟩ : ∃ pending, RestartInv w pending 0 := by
      refine hrun.guard_invariant (I := fun _ w => ∃ pending, RestartInv w pending 0) ?_ ?_
      · rintro w rfl
        exact ⟨[], restartInv_new⟩
      · rintro tr w a w' ⟨pending, hinv⟩ hempty hstep
        obtain ⟨pending', leftover', hinv', h0⟩ := hinv.step hstep
        obtain rfl := h0 hempty rfl
        exact ⟨pending', hinv'⟩
    exact hinv.bookkeeping
  · exact fun w a w' hstep hbooks => launchesEmpty_of_bookkeeping hstep hbooks

/-- A request that is worked on, an exit, and a second launch. -/
def quietRestart : List RestartStep :=
  [.launch true true, .schedule [1], .write, .post] ++ List.replicate 6 (.thread true) ++
    [.exit, .exitPost, .thread true, .thread true, .join, .launch true true]

/-- A worker that is exited with nothing pending, and launched again. -/
theorem bookkeeping_quietRestart : ∃ w, restarts.Run quietRestart w ∧
    w.state = .launched ∧ w.handled = [[1]] ∧
    ∀ pre w', pre <+: quietRestart → restarts.Run pre w' → Bookkeeping w' := by
  have hrun : ∃ w, (restarts.guard LaunchesEmpty).Run quietRestart w ∧ w.state = .launched ∧
      w.handled = [[1]] :=
    ⟨_, Lts.run_guard_of_foldlM (fun _ _ _ h => h) rfl rfl, rfl, rfl⟩
  obtain ⟨w, hguard, hlaunched, hhandled⟩ := hrun
  exact ⟨w, hguard.of_guard, hlaunched, hhandled,
    (bookkeeping_iff_launchesEmpty hguard.of_guard).2 hguard⟩

/-- A request that is queued when the worker is made to exit is still there after the second launch,
and not counted. -/
theorem request_left_by_exit : ∃ w,
    restarts.Run [.launch true true, .schedule [1], .write, .post, .exit, .exitPost, .thread true,
      .thread true, .join, .launch true true] w ∧
    w.state = .launched ∧ w.client = .idle ∧ w.thread = .waiting ∧ w.sem = 0 ∧
    w.requests.ring.bytes = [1, 0, 0, 0, 1] ∧ ¬Bookkeeping w := by
  refine ⟨_, Lts.run_of_foldlM (fun _ _ _ h => h) rfl rfl, rfl, rfl, rfl, rfl, rfl, ?_⟩
  intro hbooks
  obtain ⟨pending, hholds, -, hlength⟩ := hbooks rfl rfl rfl
  obtain rfl := List.length_eq_zero_iff.1 hlength
  exact absurd ((hholds.nil_iff rfl).2 rfl) (by decide)

end Soundcan.Galv
