import Mathlib.Data.List.Perm.Basic
import Mathlib.Tactic
import Soundcan.Sfizz.LoadingJob

/-!
# The background of the file pool

The audio thread asks for a file with `getFilePromise`, the dispatching thread takes what is asked
for out of the queue and enqueues a `loadingJob`, `triggerGarbageCollection` goes through the last
used files, and `garbageJob` frees what it has thrown away. They run at once, on files that are
preloaded meanwhile, and removed again where nobody has a pointer to them. Every step of theirs is,
at each file, a step of the file (`seen_of_step`), so what the jobs rely on holds in every reachable
state, and with it what the pool promises.
-/

namespace Soundcan.Sfizz

universe u v

variable {ι : Type u} {σ : Type v}

/-- What stays the same: the files, the size of the chunks they are read in, and the capacities of
the queue and of the list of garbage. -/
structure Config (ι : Type u) (σ : Type v) where
  root : RootDirectory ι σ
  fileChunkSize : Nat
  queueCapacity : Nat
  garbageCapacity : Nat

/-- A call of `triggerGarbageCollection` that has the lock: the files that it has still to go
through, those that it keeps, and the one that it is at. -/
structure Pass (ι : Type u) where
  todo : List ι
  kept : List ι
  current : Option (ι × GcPc)

/-- Where a pass is behind a step of its predicate. -/
def Pass.next (pass : Pass ι) (fileId : ι) : Verdict → Pass ι
  | .goOn pc => { pass with current := some (fileId, pc) }
  | .keep => { pass with kept := pass.kept ++ [fileId], current := none }
  | .remove => { pass with current := none }

/-- The pool and its threads; `posting` counts the promises that have queued their file and not yet
posted it, `dispatching` says that the dispatching thread has waited and not yet popped. What is
queued is `none` where its file id has been nulled. -/
structure Background (ι : Type u) (σ : Type v) where
  pool : FilePool ι σ
  filesToLoad : List (Option ι)
  posting : Nat
  dispatchBarrier : Nat
  dispatching : Bool
  jobs : List (ι × JobPc σ)
  lastUsedFiles : List ι
  garbageToCollect : List (AudioBuffer σ)
  semGarbageBarrier : Nat
  pass : Option (Pass ι)

/-- What can happen next. -/
inductive Event (ι : Type u) (σ : Type v) where
  /-- A call of the pool. -/
  | call (call : FilePool.Call ι σ)
  /-- Readers of a file come or go. -/
  | readers (fileId : ι) (readerCount : Nat)
  | getFilePromise (fileId : ι)
  /-- The post at the end of `getFilePromise`. -/
  | post
  /-- The dispatching thread comes through its barrier. -/
  | wait
  | pop
  /-- The region of what is queued at `k` is deleted, and its file id nulled. -/
  | expire (k : Nat)
  /-- A job takes a step; `opened` and `numFramesRead` are what its file gives it. -/
  | job (k : Nat) (opened : Bool) (numFramesRead : Nat)
  /-- A job takes the lock at its end. -/
  | remember (k : Nat)
  | triggerGarbageCollection
  /-- The collection comes to a file; `idle` says that its last reader has left long ago. -/
  | visit (k : Nat) (idle : Bool)
  /-- The collection takes a step at its file. -/
  | collect (moved : AudioBuffer σ)
  /-- The collection gives the lock back, with the files that it has kept in some order. -/
  | endOfPass (order : List ι)
  | garbageJob
  /-- `clear`; `filesToLoad` is what `emptyFileLoadingQueues` leaves of the queue. -/
  | clear (filesToLoad : List (Option ι))

namespace Background

variable [Zero σ] [DecidableEq ι]

/-- The pool with other data for one of its files. -/
def store (b : Background ι σ) (fileId : ι) (fileData : FileData σ) : Background ι σ :=
  { b with
    pool := { b.pool with
      preloadedFiles := Function.update b.pool.preloadedFiles fileId (some fileData) } }

/-- `getFilePromise`, up to its post. -/
def getFilePromise (cfg : Config ι σ) (b : Background ι σ) (fileId : ι) : Background ι σ :=
  match b.pool.loadedFiles fileId with
  | some _ => b
  | none =>
      match b.pool.preloadedFiles fileId with
      | none => b
      | some fileData =>
          if fileData.fullyLoaded = false ∧ b.filesToLoad.length < cfg.queueCapacity then
            { b with filesToLoad := b.filesToLoad ++ [some fileId], posting := b.posting + 1 }
          else b

/-- `dispatchingJob`, between two waits. -/
def pop (b : Background ι σ) : Background ι σ :=
  match b.filesToLoad with
  | [] => { b with dispatching := false }
  | none :: filesToLoad => { b with filesToLoad, dispatching := false }
  | some fileId :: filesToLoad =>
      { b with
        filesToLoad
        dispatching := false
        jobs := b.jobs ++ [(fileId, .start)] }

/-- The files that the background has pointers to: those that are queued, those that jobs are at
work on, and the one that the collection is at. -/
def held (b : Background ι σ) : List ι :=
  b.filesToLoad.filterMap id ++ (b.jobs.filter fun job => job.2.Uses).map Prod.fst ++
    match b.pass with
    | some ⟨_, _, some (fileId, _)⟩ => [fileId]
    | _ => []

/-- `clear`, with the queue that is left. -/
def clear (b : Background ι σ) (filesToLoad : List (Option ι)) : Background ι σ :=
  { b with
    pool := { b.pool with preloadedFiles := fun _ => none, loadedFiles := fun _ => none }
    filesToLoad
    lastUsedFiles := []
    garbageToCollect := [] }

/-- What `triggerGarbageCollection` does when it comes to a file. -/
def visit (cfg : Config ι σ) (b : Background ι σ) (pass : Pass ι) (fileId : ι) (idle : Bool) :
    Pass ι :=
  if b.garbageToCollect.length = cfg.garbageCapacity then
    { pass with kept := pass.kept ++ [fileId] }
  else
    match b.pool.preloadedFiles fileId with
    | none => pass
    | some fileData =>
        if fileData.readerCount ≠ 0 ∨ idle = false then { pass with kept := pass.kept ++ [fileId] }
        else { pass with current := some (fileId, .load) }

/-- What a step of the predicate adds to the garbage. -/
def garbage (fileData : FileData σ) : GcPc → List (AudioBuffer σ)
  | .move => [fileData.fileData]
  | _ => []

/-- What happens next, where it can. -/
def step (cfg : Config ι σ) (b : Background ι σ) : Event ι σ → Option (Background ι σ)
  | .call call =>
      match b.pool.perform cfg.root call with
      -- `removeUnusedPreloadedData` is not called while it would take away what somebody points to
      | some pool =>
          if ∀ fileId ∈ b.held, (pool.preloadedFiles fileId).isSome then some { b with pool }
          else none
      | none => none
  | .readers fileId readerCount =>
      match b.pool.preloadedFiles fileId with
      | some fileData => some (b.store fileId { fileData with readerCount })
      | none => none
  | .getFilePromise fileId => some (b.getFilePromise cfg fileId)
  | .post =>
      if b.posting = 0 then none
      else some { b with posting := b.posting - 1, dispatchBarrier := b.dispatchBarrier + 1 }
  | .wait =>
      if b.dispatching ∨ b.dispatchBarrier = 0 then none
      else some { b with dispatchBarrier := b.dispatchBarrier - 1, dispatching := true }
  | .pop => if b.dispatching then some b.pop else none
  | .expire k =>
      if k < b.filesToLoad.length then some { b with filesToLoad := b.filesToLoad.set k none }
      else none
  | .job k opened numFramesRead =>
      match b.jobs[k]? with
      | none => none
      | some (fileId, pc) =>
          match b.pool.preloadedFiles fileId with
          | none => none
          | some fileData =>
              match pc.step (cfg.root.file fileId) cfg.fileChunkSize opened
                (fun _ n => min numFramesRead n) fileData with
              | some (pc', fileData') =>
                  some { b.store fileId fileData' with jobs := b.jobs.set k (fileId, pc') }
              | none => none
  | .remember k =>
      match b.pass, b.jobs[k]? with
      | none, some (fileId, .remember) =>
          some { b with
            jobs := b.jobs.set k (fileId, .left)
            lastUsedFiles :=
              if fileId ∈ b.lastUsedFiles then b.lastUsedFiles else b.lastUsedFiles ++ [fileId] }
      | _, _ => none
  | .triggerGarbageCollection =>
      match b.pass with
      | some _ => some b
      | none => some { b with pass := some ⟨b.lastUsedFiles, [], none⟩ }
  | .visit k idle =>
      match b.pass with
      | some ⟨todo, kept, none⟩ =>
          match todo[k]? with
          | some fileId =>
              some { b with
                pass := some (b.visit cfg ⟨todo.eraseIdx k, kept, none⟩ fileId idle) }
          | none => none
      | _ => none
  | .collect moved =>
      match b.pass with
      | some ⟨todo, kept, some (fileId, pc)⟩ =>
          match b.pool.preloadedFiles fileId with
          | some fileData =>
              some { b.store fileId (pc.step moved fileData).2 with
                pass := some (Pass.next ⟨todo, kept, none⟩ fileId (pc.step moved fileData).1)
                garbageToCollect := b.garbageToCollect ++ garbage fileData pc }
          | none => none
      | _ => none
  | .endOfPass order =>
      match b.pass with
      | some ⟨[], kept, none⟩ =>
          if order.isPerm kept then
            some { b with
              lastUsedFiles := order
              pass := none
              semGarbageBarrier := b.semGarbageBarrier + 1 }
          else none
      | _ => none
  | .garbageJob =>
      match b.pass with
      | some _ => none
      | none =>
          if b.semGarbageBarrier = 0 then none
          else some { b with
            garbageToCollect := []
            semGarbageBarrier := b.semGarbageBarrier - 1 }
  | .clear filesToLoad =>
      match b.pass with
      | some _ => none
      | none =>
          -- the regions are gone by now, and their jobs have been waited for
          if b.held = [] ∧ filesToLoad.Sublist b.filesToLoad then some (b.clear filesToLoad)
          else none

/-- The runs of the background, from a pool without files. -/
def system (cfg : Config ι σ) : Lts (Background ι σ) (Event ι σ) where
  init b :=
    (b.pool.preloadedFiles = (fun _ => none) ∧ b.pool.loadedFiles = fun _ => none) ∧
      b.filesToLoad = [] ∧ b.posting = 0 ∧ b.dispatchBarrier = 0 ∧ b.dispatching = false ∧
      b.jobs = [] ∧ b.lastUsedFiles = [] ∧ b.garbageToCollect = [] ∧ b.semGarbageBarrier = 0 ∧
      b.pass = none
  step b event b' := b.step cfg event = some b'

/-! ## What a step can do -/

/-- The steps, one by one. -/
inductive StepCases (cfg : Config ι σ) (b : Background ι σ) :
    Event ι σ → Background ι σ → Prop where
  | call (call : FilePool.Call ι σ) (pool : FilePool ι σ) :
      b.pool.perform cfg.root call = some pool →
      (∀ id ∈ b.held, (pool.preloadedFiles id).isSome) →
      StepCases cfg b (.call call) { b with pool }
  | readers (id : ι) (readerCount : Nat) (fileData : FileData σ) :
      b.pool.preloadedFiles id = some fileData →
      StepCases cfg b (.readers id readerCount) (b.store id { fileData with readerCount })
  | getFilePromise (id : ι) : StepCases cfg b (.getFilePromise id) (b.getFilePromise cfg id)
  | post : b.posting ≠ 0 → StepCases cfg b .post
      { b with posting := b.posting - 1, dispatchBarrier := b.dispatchBarrier + 1 }
  | wait : b.dispatching = false → b.dispatchBarrier ≠ 0 → StepCases cfg b .wait
      { b with dispatchBarrier := b.dispatchBarrier - 1, dispatching := true }
  | pop : b.dispatching = true → StepCases cfg b .pop b.pop
  | expire (k : Nat) : k < b.filesToLoad.length →
      StepCases cfg b (.expire k) { b with filesToLoad := b.filesToLoad.set k none }
  | job (k : Nat) (opened : Bool) (numFramesRead : Nat) (id : ι) (pc pc' : JobPc σ)
      (fileData fileData' : FileData σ) : b.jobs[k]? = some (id, pc) →
      b.pool.preloadedFiles id = some fileData →
      pc.step (cfg.root.file id) cfg.fileChunkSize opened (fun _ n => min numFramesRead n)
        fileData = some (pc', fileData') →
      StepCases cfg b (.job k opened numFramesRead)
        { b.store id fileData' with jobs := b.jobs.set k (id, pc') }
  | remember (k : Nat) (id : ι) : b.pass = none → b.jobs[k]? = some (id, .remember) →
      StepCases cfg b (.remember k) { b with
        jobs := b.jobs.set k (id, .left)
        lastUsedFiles :=
          if id ∈ b.lastUsedFiles then b.lastUsedFiles else b.lastUsedFiles ++ [id] }
  | locked : b.pass ≠ none → StepCases cfg b .triggerGarbageCollection b
  | trigger : b.pass = none → StepCases cfg b .triggerGarbageCollection
      { b with pass := some ⟨b.lastUsedFiles, [], none⟩ }
  | visit (k : Nat) (idle : Bool) (todo kept : List ι) (id : ι) :
      b.pass = some ⟨todo, kept, none⟩ → todo[k]? = some id → StepCases cfg b (.visit k idle)
        { b with pass := some (b.visit cfg ⟨todo.eraseIdx k, kept, none⟩ id idle) }
  | collect (moved : AudioBuffer σ) (todo kept : List ι) (id : ι) (pc : GcPc)
      (fileData : FileData σ) : b.pass = some ⟨todo, kept, some (id, pc)⟩ →
      b.pool.preloadedFiles id = some fileData → StepCases cfg b (.collect moved)
        { b.store id (pc.step moved fileData).2 with
          pass := some (Pass.next ⟨todo, kept, none⟩ id (pc.step moved fileData).1)
          garbageToCollect := b.garbageToCollect ++ garbage fileData pc }
  | endOfPass (order kept : List ι) : b.pass = some ⟨[], kept, none⟩ → order.Perm kept →
      StepCases cfg b (.endOfPass order)
        { b with
          lastUsedFiles := order
          pass := none
          semGarbageBarrier := b.semGarbageBarrier + 1 }
  | garbageJob : b.pass = none → b.semGarbageBarrier ≠ 0 → StepCases cfg b .garbageJob
      { b with garbageToCollect := [], semGarbageBarrier := b.semGarbageBarrier - 1 }
  | clear (filesToLoad : List (Option ι)) : b.pass = none → b.held = [] →
      filesToLoad.Sublist b.filesToLoad →
      StepCases cfg b (.clear filesToLoad) (b.clear filesToLoad)

/-- A step of the background is one of these. -/
theorem cases_of_step {cfg : Config ι σ} {b b' : Background ι σ} {event : Event ι σ}
    (h : b.step cfg event = some b') : StepCases cfg b event b' := by
  cases event with
  | call call =>
      simp only [step] at h
      split at h
      next pool hpool =>
        split at h
        next hheld =>
          obtain rfl := Option.some.inj h
          exact .call call pool hpool hheld
        next => cases h
      next => cases h
  | readers id readerCount =>
      simp only [step] at h
      split at h
      next fileData hdata =>
        obtain rfl := Option.some.inj h
        exact .readers id readerCount fileData hdata
      next => cases h
  | getFilePromise id =>
      obtain rfl := Option.some.inj h
      exact .getFilePromise id
  | post =>
      simp only [step] at h
      split at h
      next => cases h
      next hne =>
        obtain rfl := Option.some.inj h
        exact .post hne
  | wait =>
      simp only [step] at h
      split at h
      next => cases h
      next hready =>
        obtain rfl := Option.some.inj h
        obtain ⟨hidle, hne⟩ := not_or.1 hready
        exact .wait (Bool.eq_false_iff.2 hidle) hne
  | pop =>
      simp only [step] at h
      split at h
      next hdispatching =>
        obtain rfl := Option.some.inj h
        exact .pop hdispatching
      next => cases h
  | expire k =>
      simp only [step] at h
      split at h
      next hlt =>
        obtain rfl := Option.some.inj h
        exact .expire k hlt
      next => cases h
  | job k opened numFramesRead =>
      simp only [step] at h
      split at h
      next => cases h
      next id pc hjob =>
        split at h
        next => cases h
        next fileData hdata =>
          split at h
          next pc' fileData' hstep =>
            obtain rfl := Option.some.inj h
            exact .job k opened numFramesRead id pc pc' fileData fileData' hjob hdata hstep
          next => cases h
  | remember k =>
      simp only [step] at h
      split at h
      next id hpass hjob =>
        obtain rfl := Option.some.inj h
        exact .remember k id hpass hjob
      next => cases h
  | triggerGarbageCollection =>
      simp only [step] at h
      split at h
      next pass hpass =>
        obtain rfl := Option.some.inj h
        exact .locked (by rw [hpass]; exact Option.some_ne_none pass)
      next hpass =>
        obtain rfl := Option.some.inj h
        exact .trigger hpass
  | visit k idle =>
      simp only [step] at h
      split at h
      next todo kept hpass =>
        split at h
        next id hid =>
          obtain rfl := Option.some.inj h
          exact .visit k idle todo kept id hpass hid
        next => cases h
      next => cases h
  | collect moved =>
      simp only [step] at h
      split at h
      next todo kept id pc hpass =>
        split at h
        next fileData hdata =>
          obtain rfl := Option.some.inj h
          exact .collect moved todo kept id pc fileData hpass hdata
        next => cases h
      next => cases h
  | endOfPass order =>
      simp only [step] at h
      split at h
      next kept hpass =>
        split at h
        next horder =>
          obtain rfl := Option.some.inj h
          exact .endOfPass order kept hpass (List.isPerm_iff.1 horder)
        next => cases h
      next => cases h
  | garbageJob =>
      simp only [step] at h
      split at h
      next => cases h
      next hpass =>
        split at h
        next => cases h
        next hne =>
          obtain rfl := Option.some.inj h
          exact .garbageJob hpass hne
  | clear filesToLoad =>
      simp only [step] at h
      split at h
      next => cases h
      next hpass =>
        split at h
        next hidle =>
          obtain rfl := Option.some.inj h
          exact .clear filesToLoad hpass hidle.1 hidle.2
        next => cases h

/-! ## One file of it -/

/-- The last used files, also while a collection has them. -/
def known (pass : Option (Pass ι)) (lastUsedFiles : List ι) : List ι :=
  match pass with
  | none => lastUsedFiles
  | some pass => pass.todo ++ pass.kept ++ (pass.current.map Prod.fst).toList

/-- Where the collection is with a file. -/
def collecting (pass : Option (Pass ι)) (fileId : ι) : Option GcPc :=
  match pass with
  | some ⟨_, _, some (id, pc)⟩ => if id = fileId then some pc else none
  | _ => none

/-- The jobs for a file. -/
def jobsFor (jobs : List (ι × JobPc σ)) (fileId : ι) : List (JobPc σ) :=
  jobs.filterMap fun job => if job.1 = fileId then some job.2 else none

/-- The state of one file. -/
def view (b : Background ι σ) (fileId : ι) : FileState σ where
  data := b.pool.preloadedFiles fileId
  jobs := jobsFor b.jobs fileId
  remembered := (known b.pass b.lastUsedFiles).count fileId
  collecting := collecting b.pass fileId

/-! ## Every step is one of each file -/

variable {cfg : Config ι σ} {b b' : Background ι σ} {fileId : ι}

omit [Zero σ] in
/-- A job that is enqueued is the last of those for its file. -/
theorem jobsFor_append (jobs : List (ι × JobPc σ)) (job : ι × JobPc σ) (fileId : ι) :
    jobsFor (jobs ++ [job]) fileId =
      if job.1 = fileId then jobsFor jobs fileId ++ [job.2] else jobsFor jobs fileId := by
  rw [jobsFor, jobsFor, List.filterMap_append]
  split
  next heq => simp only [List.filterMap_cons, heq, if_true, List.filterMap_nil]
  next hne => simp only [List.filterMap_cons, hne, if_false, List.filterMap_nil, List.append_nil]

omit [Zero σ] in
/-- The jobs for a file are the background's jobs that have it. -/
theorem mem_jobsFor {jobs : List (ι × JobPc σ)} {pc : JobPc σ} :
    pc ∈ jobsFor jobs fileId ↔ (fileId, pc) ∈ jobs := by
  rw [jobsFor, List.mem_filterMap]
  constructor
  · rintro ⟨⟨id, pc'⟩, hmem, heq⟩
    split at heq
    next hid =>
      obtain rfl := Option.some.inj heq
      exact hid ▸ hmem
    next => cases heq
  · exact fun hmem => ⟨(fileId, pc), hmem, if_pos rfl⟩

omit [Zero σ] in
/-- A step of a job changes one of the jobs for its file, and none for another. -/
theorem jobsFor_set {jobs : List (ι × JobPc σ)} {k : Nat} {pc : JobPc σ}
    (h : jobs[k]? = some (fileId, pc)) (pc' : JobPc σ) :
    (∃ before after, jobsFor jobs fileId = before ++ pc :: after ∧
      jobsFor (jobs.set k (fileId, pc')) fileId = before ++ pc' :: after) ∧
    ∀ id ≠ fileId, jobsFor (jobs.set k (fileId, pc')) id = jobsFor jobs id := by
  obtain ⟨hlt, hget⟩ := List.getElem?_eq_some_iff.1 h
  have hjobs : jobs = jobs.take k ++ (fileId, pc) :: jobs.drop (k + 1) := by
    rw [← hget, List.getElem_cons_drop, List.take_append_drop]
  have hset : jobs.set k (fileId, pc') = jobs.take k ++ (fileId, pc') :: jobs.drop (k + 1) := by
    rw [List.set_eq_take_append_cons_drop, if_pos hlt]
  refine ⟨⟨jobsFor (jobs.take k) fileId, jobsFor (jobs.drop (k + 1)) fileId, ?_, ?_⟩, ?_⟩
  · conv_lhs => rw [hjobs]
    simp only [jobsFor, List.filterMap_append, List.filterMap_cons, if_true]
  · rw [hset]
    simp only [jobsFor, List.filterMap_append, List.filterMap_cons, if_true]
  · intro id hne
    conv_rhs => rw [hjobs]
    rw [hset]
    simp only [jobsFor, List.filterMap_append, List.filterMap_cons, if_neg hne.symm]

/-- What a call of the pool does with a file, but for `removeUnusedPreloadedData`. -/
inductive Called : Option (FileData σ) → Option (FileData σ) → Prop where
  | same (data : Option (FileData σ)) : Called data data
  | insert (fileData : FileData σ) : fileData.status = .preloaded →
      fileData.availableFrames = 0 → Called none (some fileData)
  | stream (fileData fileData' : FileData σ) : fileData.SameStream fileData' →
      Called (some fileData) (some fileData')

omit [Zero σ] in
/-- It takes no file away. -/
theorem Called.ne_none {data data' : Option (FileData σ)} (h : Called data data')
    (hne : data ≠ none) : data' ≠ none := by
  cases h with
  | same _ => exact hne
  | insert _ _ _ | stream _ _ _ => exact Option.some_ne_none _

omit [Zero σ] in
/-- Data that is changed where it is, its stream aside, counts as called. -/
theorem Called.map {f : FileData σ → FileData σ}
    (hf : ∀ fileData : FileData σ, fileData.SameStream (f fileData))
    (data : Option (FileData σ)) : Called data (data.map f) := by
  cases data with
  | none => exact .same none
  | some fileData => exact .stream _ _ (hf fileData)

/-- `preloadFile` leaves the stream of every file alone, also of the one that it preloads. -/
theorem called_preloadFile {root : RootDirectory ι σ} {pool pool' : FilePool ι σ} {id : ι}
    {maxOffset : Nat} (h : pool.preloadFile root id maxOffset = some pool') (fileId : ι) :
    Called (pool.preloadedFiles fileId) (pool'.preloadedFiles fileId) := by
  rcases FilePool.preloadFile_cases h with ⟨fileData, -, rfl⟩ | ⟨-, new, rfl, hnew⟩
  · exact .same _
  · rcases eq_or_ne fileId id with rfl | hne
    · simp only [Function.update_self]
      rcases hnew with ⟨existing, hexisting, rfl⟩ | ⟨hnone, information, -, -, rfl⟩
      · rw [hexisting]
        refine .stream _ _ ?_
        unfold FilePool.preloadExisting
        split <;> exact ⟨rfl, rfl, rfl⟩
      · rw [hnone]
        exact .insert _ rfl rfl
    · simp only [Function.update_of_ne hne]
      exact .same _

/-- A call of the pool, at one file. -/
theorem called_of_perform {root : RootDirectory ι σ} {pool pool' : FilePool ι σ}
    {call : FilePool.Call ι σ} (hcall : call ≠ .removeUnusedPreloadedData)
    (h : pool.perform root call = some pool') (fileId : ι) :
    Called (pool.preloadedFiles fileId) (pool'.preloadedFiles fileId) := by
  have hagain : ∀ preloadSize, Called (pool.preloadedFiles fileId)
      ((pool.preloadedFiles fileId).map
        (FilePool.preloadAgain (root.file fileId) preloadSize)) :=
    fun preloadSize => .map (f := FilePool.preloadAgain _ preloadSize) (fun _ => ⟨rfl, rfl, rfl⟩) _
  cases call with
  | preloadFile id maxOffset =>
      obtain rfl := Option.some.inj h
      cases hpreload : pool.preloadFile root id maxOffset with
      | none => exact .same _
      | some pool' => exact called_preloadFile hpreload fileId
  | loadFile id =>
      obtain rfl := Option.some.inj h
      rw [FilePool.samePreloaded_loadFile.preloadedFiles]
      exact .same _
  | loadFromRam id data =>
      rw [(FilePool.samePreloaded_loadFromRam h).preloadedFiles]
      exact .same _
  | setPreloadSize preloadSize =>
      obtain rfl := Option.some.inj h
      unfold FilePool.setPreloadSize
      split
      · exact .same _
      · exact hagain _
  | setRamLoading loadInRam =>
      obtain rfl := Option.some.inj h
      unfold FilePool.setRamLoading
      split
      · exact .same _
      · split
        · exact .map (f := FilePool.loadWhole _) (fun _ => ⟨rfl, rfl, rfl⟩) _
        · rw [FilePool.setPreloadSize]
          split
          · exact .same _
          · exact hagain _
  | resetPreloadCallCounts =>
      obtain rfl := Option.some.inj h
      exact .map (f := fun fileData => { fileData with preloadCallCount := 0 })
        (fun _ => ⟨rfl, rfl, rfl⟩) _
  | removeUnusedPreloadedData => exact absurd rfl hcall

/-- What a step is to one file. -/
def Seen (cfg : Config ι σ) (fileId : ι) (b b' : Background ι σ) : Prop :=
  b'.view fileId = b.view fileId ∨
    FileState.Step (cfg.root.file fileId) cfg.fileChunkSize (b.view fileId) (b'.view fileId)

omit [Zero σ] [DecidableEq ι] in
/-- Held is what is queued, what a job uses, and what the collection is at. -/
theorem mem_held : fileId ∈ b.held ↔ some fileId ∈ b.filesToLoad ∨
    (∃ pc, (fileId, pc) ∈ b.jobs ∧ pc.Uses = true) ∨
    ∃ todo kept pc, b.pass = some ⟨todo, kept, some (fileId, pc)⟩ := by
  rw [held, List.mem_append, List.mem_append, or_assoc]
  refine or_congr (by simp) (or_congr (by simp) ?_)
  split
  next todo kept id pc heq =>
    rw [List.mem_singleton, heq]
    constructor
    · rintro rfl
      exact ⟨todo, kept, pc, rfl⟩
    · rintro ⟨_, _, _, hpass⟩
      injection hpass with hpass
      injection hpass with _ _ hcurrent
      exact (Prod.mk.inj (Option.some.inj hcurrent)).1.symm
  next hnone =>
    refine iff_of_false List.not_mem_nil ?_
    rintro ⟨todo, kept, pc, hpass⟩
    exact hnone _ _ _ _ hpass

omit [Zero σ] in
/-- Nobody uses a file that is not held. -/
theorem unused_of_notMem_held (h : fileId ∉ b.held) :
    (∀ pc ∈ (b.view fileId).jobs, pc.Uses = false) ∧ (b.view fileId).collecting = none := by
  rw [mem_held, not_or, not_or] at h
  obtain ⟨-, hjobs, hpass⟩ := h
  refine ⟨fun pc hpc => ?_, ?_⟩
  · exact Bool.eq_false_iff.2 fun huses => hjobs ⟨pc, mem_jobsFor.1 hpc, huses⟩
  · show collecting b.pass fileId = none
    unfold collecting
    split
    next todo kept id pc heq =>
      refine if_neg fun hid => hpass ?_
      exact ⟨todo, kept, pc, hid ▸ heq⟩
    next => rfl

/-- A call of the pool that takes no file away, at one file. -/
theorem seen_of_called {pool : FilePool ι σ}
    (h : Called (b.pool.preloadedFiles fileId) (pool.preloadedFiles fileId)) :
    Seen cfg fileId b { b with pool } := by
  have hview : ({ b with pool } : Background ι σ).view fileId =
      { b.view fileId with data := pool.preloadedFiles fileId } := rfl
  rw [Seen, hview]
  generalize hdata : b.pool.preloadedFiles fileId = data at h
  generalize pool.preloadedFiles fileId = data' at h
  cases h with
  | same _ => exact .inl (by rw [← hdata]; rfl)
  | insert fileData hstatus hzero => exact .inr (.insert fileData hdata hstatus hzero)
  | stream fileData fileData' hsame => exact .inr (.call fileData fileData' hdata hsame)

/-- The removal of unused files is called where nobody uses those that it takes away. -/
theorem seen_removeUnusedPreloadedData
    (hheld : ∀ id ∈ b.held, (b.pool.removeUnusedPreloadedData.preloadedFiles id).isSome) :
    Seen cfg fileId b { b with pool := b.pool.removeUnusedPreloadedData } := by
  have hview : ({ b with pool := b.pool.removeUnusedPreloadedData } : Background ι σ).view fileId =
      { b.view fileId with
        data := b.pool.removeUnusedPreloadedData.preloadedFiles fileId } := rfl
  rw [Seen, hview]
  cases hleft : b.pool.removeUnusedPreloadedData.preloadedFiles fileId with
  | some fileData =>
      obtain ⟨hdata, -⟩ := Option.filter_eq_some_iff.1 hleft
      rw [← hdata]
      exact .inl rfl
  | none =>
      have hnot : fileId ∉ b.held := by
        intro hmem
        have hsome := hheld fileId hmem
        rw [hleft] at hsome
        cases hsome
      obtain ⟨huses, hnone⟩ := unused_of_notMem_held hnot
      exact .inr (.remove _ huses hnone le_rfl)

/-- `clear` takes every file away, and all that is known of it. -/
theorem seen_clear (hpass : b.pass = none) (hheld : b.held = []) (filesToLoad : List (Option ι)) :
    Seen cfg fileId b (b.clear filesToLoad) := by
  refine .inr ?_
  obtain ⟨huses, hnone⟩ : _ ∧ (b.view fileId).collecting = none :=
    unused_of_notMem_held (hheld ▸ List.not_mem_nil)
  have hview : (b.clear filesToLoad).view fileId =
      { b.view fileId with data := none, remembered := 0 } := by
    simp only [view, clear, hpass, known, List.count_nil]
  rw [hview]
  exact .remove 0 huses hnone (Nat.zero_le _)

omit [Zero σ] in
/-- The data that is stored is the data of the file. -/
theorem preloadedFiles_store (fileData : FileData σ) :
    (b.store fileId fileData).pool.preloadedFiles fileId = some fileData :=
  Function.update_self ..

omit [Zero σ] in
/-- No other file gets the data that is stored. -/
theorem preloadedFiles_store_of_ne {id : ι} (hne : fileId ≠ id) (fileData : FileData σ) :
    (b.store id fileData).pool.preloadedFiles fileId = b.pool.preloadedFiles fileId :=
  Function.update_of_ne hne ..

/-- Readers that come or go do not touch the stream. -/
theorem seen_readers {id : ι} {fileData : FileData σ}
    (hdata : b.pool.preloadedFiles id = some fileData) (readerCount : Nat) :
    Seen cfg fileId b (b.store id { fileData with readerCount }) := by
  rcases eq_or_ne fileId id with rfl | hne
  · refine .inr ?_
    have hview : (b.store fileId { fileData with readerCount }).view fileId =
        { b.view fileId with data := some { fileData with readerCount } } := by
      simp only [view, preloadedFiles_store]
      rfl
    rw [hview]
    exact .call fileData _ hdata ⟨rfl, rfl, rfl⟩
  · refine .inl ?_
    simp only [view, preloadedFiles_store_of_ne hne]
    rfl

/-- A promise at most queues its file. -/
theorem seen_getFilePromise (id : ι) : Seen cfg fileId b (b.getFilePromise cfg id) := by
  refine .inl ?_
  unfold getFilePromise
  split
  · rfl
  · split
    · rfl
    · split <;> rfl

/-- The file that is popped gets one more job, and the other files nothing. -/
theorem seen_pop : Seen cfg fileId b b.pop := by
  unfold pop
  split
  next => exact .inl rfl
  next => exact .inl rfl
  next id filesToLoad _ =>
    have hjobs := jobsFor_append b.jobs (id, .start) fileId
    by_cases heq : id = fileId
    · refine .inr ?_
      rw [if_pos heq] at hjobs
      have hview : ({ b with
          filesToLoad, dispatching := false
          jobs := b.jobs ++ [(id, .start)] } : Background ι σ).view fileId =
          { b.view fileId with jobs := (b.view fileId).jobs ++ [.start] } := by
        simp only [view, hjobs]
      exact hview ▸ .enqueue
    · refine .inl ?_
      rw [if_neg heq] at hjobs
      simp only [view, hjobs]

/-- The step of a job, at its own file and at another. -/
theorem seen_job {k : Nat} {id : ι} {pc pc' : JobPc σ} {fileData fileData' : FileData σ}
    {opened : Bool} {numFramesRead : Nat} (hjob : b.jobs[k]? = some (id, pc))
    (hdata : b.pool.preloadedFiles id = some fileData)
    (hstep : pc.step (cfg.root.file id) cfg.fileChunkSize opened
      (fun _ n => min numFramesRead n) fileData = some (pc', fileData')) :
    Seen cfg fileId b { b.store id fileData' with jobs := b.jobs.set k (id, pc') } := by
  obtain ⟨⟨before, after, hbefore, hafter⟩, hothers⟩ := jobsFor_set hjob pc'
  rcases eq_or_ne fileId id with rfl | hne
  · refine .inr ?_
    have hview : ({ b.store fileId fileData' with jobs := b.jobs.set k (fileId, pc') } :
        Background ι σ).view fileId =
        { b.view fileId with data := some fileData', jobs := before ++ pc' :: after } := by
      simp only [view, preloadedFiles_store, hafter]
      rfl
    rw [hview]
    exact .job fileData fileData' before after pc pc' opened _ hdata hbefore
      (fun _ n => min_le_right _ n) hstep
  · refine .inl ?_
    simp only [view, preloadedFiles_store_of_ne hne, hothers fileId hne]
    rfl

/-- The job that takes the lock at its end adds its file to the last used ones. -/
theorem seen_remember {k : Nat} {id : ι} (hpass : b.pass = none)
    (hjob : b.jobs[k]? = some (id, .remember)) :
    Seen cfg fileId b { b with
      jobs := b.jobs.set k (id, .left)
      lastUsedFiles :=
        if id ∈ b.lastUsedFiles then b.lastUsedFiles else b.lastUsedFiles ++ [id] } := by
  obtain ⟨⟨before, after, hbefore, hafter⟩, hothers⟩ := jobsFor_set hjob .left
  rcases eq_or_ne fileId id with rfl | hne
  · refine .inr ?_
    have hcount : (if fileId ∈ b.lastUsedFiles then b.lastUsedFiles
        else b.lastUsedFiles ++ [fileId]).count fileId =
        if b.lastUsedFiles.count fileId = 0 then 1 else b.lastUsedFiles.count fileId := by
      by_cases hmem : fileId ∈ b.lastUsedFiles
      · rw [if_pos hmem, if_neg fun hzero => List.count_eq_zero.1 hzero hmem]
      · rw [if_neg hmem, if_pos (List.count_eq_zero.2 hmem), List.count_append,
          List.count_eq_zero.2 hmem, List.count_singleton_self]
    have hview : ({ b with
        jobs := b.jobs.set k (fileId, .left)
        lastUsedFiles := if fileId ∈ b.lastUsedFiles then b.lastUsedFiles
          else b.lastUsedFiles ++ [fileId] } : Background ι σ).view fileId =
        { b.view fileId with
          jobs := before ++ .left :: after
          remembered := if (b.view fileId).remembered = 0 then 1
            else (b.view fileId).remembered } := by
      simp only [view, hafter, known, hpass, hcount]
    rw [hview]
    refine .remember before after hbefore ?_
    simp only [view, collecting, hpass]
  · refine .inl ?_
    simp only [view, hothers fileId hne, known, hpass]
    split
    · rfl
    · rw [List.count_append, List.count_cons_of_ne hne.symm, List.count_nil, Nat.add_zero]

/-- The pass starts with all the files that are known. -/
theorem seen_triggerGarbageCollection (hpass : b.pass = none) :
    Seen cfg fileId b { b with pass := some ⟨b.lastUsedFiles, [], none⟩ } := by
  refine .inl ?_
  simp only [view, hpass, known, collecting, List.append_nil, Option.map_none, Option.toList_none]

omit [Zero σ] [DecidableEq ι] in
/-- A pass knows what it has still to go through, what it keeps and what it is at. -/
theorem known_some (todo kept : List ι) (current : Option (ι × GcPc)) (lastUsedFiles : List ι) :
    known (some ⟨todo, kept, current⟩) lastUsedFiles =
      todo ++ kept ++ (current.map Prod.fst).toList :=
  rfl

omit [Zero σ] in
/-- The file that a collection comes to is one of those that it has to go through. -/
theorem count_eraseIdx {todo : List ι} {k : Nat} {id : ι} (hid : todo[k]? = some id) (fileId : ι) :
    todo.count fileId = (todo.eraseIdx k).count fileId + if id = fileId then 1 else 0 := by
  obtain ⟨hlt, rfl⟩ := List.getElem?_eq_some_iff.1 hid
  rw [← (List.getElem_cons_eraseIdx_perm hlt).count_eq fileId, List.count_cons]
  simp only [beq_iff_eq]

omit [Zero σ] [DecidableEq ι] in
/-- A file that the collection comes to is kept, is given up where it is gone, or is looked at
further where it is there and the garbage has room for its frames. -/
theorem visit_cases (cfg : Config ι σ) (b : Background ι σ) (todo kept : List ι) (id : ι)
    (idle : Bool) :
    b.visit cfg ⟨todo, kept, none⟩ id idle = ⟨todo, kept ++ [id], none⟩ ∨
      b.pool.preloadedFiles id = none ∧
        b.visit cfg ⟨todo, kept, none⟩ id idle = ⟨todo, kept, none⟩ ∨
      ∃ fileData, b.pool.preloadedFiles id = some fileData ∧
        b.garbageToCollect.length ≠ cfg.garbageCapacity ∧
        b.visit cfg ⟨todo, kept, none⟩ id idle = ⟨todo, kept, some (id, .load)⟩ := by
  unfold visit
  split
  next => exact .inl rfl
  next hroom =>
    split
    next hdata => exact .inr (.inl ⟨hdata, rfl⟩)
    next fileData hdata =>
      split
      next => exact .inl rfl
      next => exact .inr (.inr ⟨fileData, hdata, hroom, rfl⟩)

/-- The collection comes to a file, at that file and at another. -/
theorem seen_visit {todo kept : List ι} {k : Nat} {id : ι} (idle : Bool)
    (hpass : b.pass = some ⟨todo, kept, none⟩) (hid : todo[k]? = some id) :
    Seen cfg fileId b { b with
      pass := some (b.visit cfg ⟨todo.eraseIdx k, kept, none⟩ id idle) } := by
  have hcount := count_eraseIdx hid fileId
  rcases visit_cases cfg b (todo.eraseIdx k) kept id idle with
    hvisit | ⟨hdata, hvisit⟩ | ⟨fileData, hdata, -, hvisit⟩
  · rw [hvisit]
    refine .inl ?_
    simp only [view, hpass, known_some, collecting, Option.map_none, Option.toList_none,
      List.append_nil, List.count_append, List.count_singleton, beq_iff_eq, FileState.mk.injEq,
      true_and, and_true]
    omega
  · rw [hvisit]
    by_cases heq : id = fileId
    · refine .inr ?_
      subst heq
      have hview : ({ b with pass := some ⟨todo.eraseIdx k, kept, none⟩ } :
          Background ι σ).view id =
          { b.view id with remembered := (b.view id).remembered - 1 } := by
        rw [if_pos rfl] at hcount
        simp only [view, hpass, known_some, collecting, Option.map_none, Option.toList_none,
          List.append_nil, List.count_append, FileState.mk.injEq, true_and, and_true]
        omega
      exact hview ▸ .forget hdata
    · refine .inl ?_
      rw [if_neg heq] at hcount
      simp only [view, hpass, known_some, collecting, Option.map_none, Option.toList_none,
        List.append_nil, List.count_append, FileState.mk.injEq, true_and, and_true]
      omega
  · rw [hvisit]
    have hcount' : (known (some ⟨todo.eraseIdx k, kept, some (id, .load)⟩)
        b.lastUsedFiles).count fileId = (known b.pass b.lastUsedFiles).count fileId := by
      simp only [hpass, known_some, Option.map_none, Option.map_some, Option.toList_none,
        Option.toList_some, List.append_nil, List.count_append, List.count_singleton,
        beq_iff_eq]
      omega
    by_cases heq : id = fileId
    · refine .inr ?_
      subst heq
      have hview : ({ b with pass := some ⟨todo.eraseIdx k, kept, some (id, .load)⟩ } :
          Background ι σ).view id = { b.view id with collecting := some .load } := by
        simp only [view, hcount']
        simp only [collecting, if_true]
      rw [hview]
      refine .visit fileData hdata ?_ (by simp only [view, hpass, collecting])
      rw [if_pos rfl] at hcount
      simp only [view, hpass, known_some, List.count_append]
      omega
    · refine .inl ?_
      simp only [view, hcount']
      simp only [hpass, collecting, if_neg heq]

/-- The step of the collection, at its own file and at another. -/
theorem seen_collect {todo kept : List ι} {id : ι} {pc : GcPc} {fileData : FileData σ}
    (moved : AudioBuffer σ) (hpass : b.pass = some ⟨todo, kept, some (id, pc)⟩)
    (hdata : b.pool.preloadedFiles id = some fileData) :
    Seen cfg fileId b { b.store id (pc.step moved fileData).2 with
      pass := some (Pass.next ⟨todo, kept, none⟩ id (pc.step moved fileData).1)
      garbageToCollect := b.garbageToCollect ++ garbage fileData pc } := by
  cases hstep : pc.step moved fileData with
  | mk verdict fileData' =>
    have hcollecting : ∀ id', collecting (some (Pass.next ⟨todo, kept, none⟩ id verdict)) id' =
        if id = id' then verdict.next else none := by
      intro id'
      cases verdict with
      | goOn pc' => rfl
      | keep | remove => simp only [Pass.next, collecting, Verdict.next, ite_self]
    have hknown : (known (some (Pass.next ⟨todo, kept, none⟩ id verdict)) b.lastUsedFiles).count
        fileId = (known b.pass b.lastUsedFiles).count fileId -
          if id = fileId ∧ verdict.Removes = true then 1 else 0 := by
      cases verdict with
      | goOn pc' =>
          simp [Pass.next, hpass, known_some, Verdict.Removes]
      | keep =>
          simp [Pass.next, hpass, known_some, Verdict.Removes]
      | remove =>
          simp only [Pass.next, hpass, known_some, Verdict.Removes, Option.map_none,
            Option.toList_none, List.append_nil, Option.map_some, Option.toList_some,
            List.count_append, List.count_singleton, beq_iff_eq, and_true]
          omega
    rcases eq_or_ne fileId id with rfl | hne
    · refine .inr ?_
      have hview : ({ b.store fileId fileData' with
          pass := some (Pass.next ⟨todo, kept, none⟩ fileId verdict)
          garbageToCollect := b.garbageToCollect ++ garbage fileData pc } :
          Background ι σ).view fileId =
          { b.view fileId with
            data := some fileData'
            collecting := verdict.next
            remembered := if verdict.Removes then (b.view fileId).remembered - 1
              else (b.view fileId).remembered } := by
        simp only [view, preloadedFiles_store, hcollecting, if_true, FileState.mk.injEq, true_and,
          and_true]
        refine ⟨rfl, hknown.trans ?_⟩
        cases verdict.Removes <;> simp
      rw [hview]
      refine .collect fileData fileData' pc moved verdict hdata ?_ hstep
      simp only [view, hpass, collecting, if_true]
    · refine .inl ?_
      have hcount : (known (some (Pass.next ⟨todo, kept, none⟩ id verdict))
          b.lastUsedFiles).count fileId = (known b.pass b.lastUsedFiles).count fileId := by
        rw [hknown, if_neg fun hand => hne hand.1.symm, Nat.sub_zero]
      have hnone : collecting b.pass fileId = none := by
        simp only [hpass, collecting, if_neg hne.symm]
      simp only [view, preloadedFiles_store_of_ne hne, hcollecting, if_neg hne.symm, hnone]
      rw [← hcount]
      rfl

/-- The files that are kept become the last used ones again. -/
theorem seen_endOfPass {kept order : List ι} (hpass : b.pass = some ⟨[], kept, none⟩)
    (horder : order.Perm kept) (semGarbageBarrier : Nat) :
    Seen cfg fileId b { b with lastUsedFiles := order, pass := none, semGarbageBarrier } := by
  refine .inl ?_
  simp only [view, hpass, known, collecting, List.nil_append, Option.map_none, Option.toList_none,
    List.append_nil, horder.count_eq]

/-- Every step of the background is, at each file, a step of the file, or none. -/
theorem seen_of_step {event : Event ι σ} (h : b.step cfg event = some b') :
    Seen cfg fileId b b' := by
  cases cases_of_step h with
  | call call pool hpool hheld =>
      by_cases hcall : call = .removeUnusedPreloadedData
      · subst hcall
        obtain rfl := Option.some.inj hpool
        exact seen_removeUnusedPreloadedData hheld
      · exact seen_of_called (called_of_perform hcall hpool fileId)
  | readers id readerCount fileData hdata => exact seen_readers hdata readerCount
  | getFilePromise id => exact seen_getFilePromise id
  | post _ | wait _ _ | expire _ _ | locked _ | garbageJob _ _ => exact .inl rfl
  | pop _ => exact seen_pop
  | job k opened numFramesRead id pc pc' fileData fileData' hjob hdata hstep =>
      exact seen_job hjob hdata hstep
  | remember k id hpass hjob => exact seen_remember hpass hjob
  | trigger hpass => exact seen_triggerGarbageCollection hpass
  | visit k idle todo kept id hpass hid => exact seen_visit idle hpass hid
  | collect moved todo kept id pc fileData hpass hdata => exact seen_collect moved hpass hdata
  | endOfPass order kept hpass horder => exact seen_endOfPass hpass horder _
  | clear filesToLoad hpass hheld _ => exact seen_clear hpass hheld filesToLoad

/-- The invariant of each file, in every reachable state. -/
theorem inv_of_reachable (h : (system cfg).Reachable b) (fileId : ι) :
    FileState.Inv (cfg.root.file fileId) cfg.fileChunkSize (b.view fileId) := by
  refine h.invariant (I := fun b =>
    FileState.Inv (cfg.root.file fileId) cfg.fileChunkSize (b.view fileId)) ?_ ?_
  · rintro b ⟨⟨hnone, -⟩, -, -, -, -, hjobs, hlast, -, -, hpass⟩
    have hview : b.view fileId = ⟨none, [], 0, none⟩ := by
      simp only [view, hnone, hjobs, hpass, hlast, known, collecting]
      rfl
    rw [hview]
    exact ⟨rfl, Nat.zero_le _, nofun, nofun, nofun, nofun, nofun, nofun⟩
  · intro b event b' hinv hstep
    have hseen : Seen cfg fileId b b' := seen_of_step hstep
    rcases hseen with hsame | hfile
    · rw [hsame]
      exact hinv
    · exact hinv.step hfile

end Background

end Soundcan.Sfizz
