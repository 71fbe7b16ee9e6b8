import Mathlib.Tactic
import Soundcan.Sfizz.Background

/-!
# What the file pool promises

In every reachable state of the background, the frames that a file counts are frames of the file on
the disk (`available_frames_of_reachable`), no two threads write them (`exclusive_of_reachable`),
the files with all their frames are known to the garbage collection (`knownFiles_of_reachable`), no
file that is asked for stays in the queue without a post for the dispatching thread, and nobody
points to a file that is gone (`queued_of_reachable`).
-/

namespace Soundcan.Sfizz.Background

universe u v

variable {ι : Type u} {σ : Type v} [Zero σ] [DecidableEq ι] {cfg : Config ι σ}
  {b b' : Background ι σ} {fileId : ι}

/-! ## The files -/

/-- One file of three frames, read two at a time. -/
def small : Config Unit Int := ⟨FilePool.threeFrames, 2, 1, 1⟩

/-- The background before its first event. -/
def atRest : Background Unit Int :=
  ⟨FilePool.noFiles, [], 0, 0, false, [], [], [], 0, none⟩

/-- The file is asked for, and its job has published the first chunk. -/
def halfway : List (Event Unit Int) :=
  [.call (.preloadFile () 0), .getFilePromise (), .post, .wait, .pop] ++
    List.replicate 6 (.job 0 true 2)

/-- The job has left, and the file is among the last used ones. -/
def lastUsed : List (Event Unit Int) :=
  halfway ++ List.replicate 4 (.job 0 true 2) ++ [.remember 0]

/-- The garbage collection has come to the file, and loaded its status. -/
def visited : List (Event Unit Int) :=
  [.triggerGarbageCollection, .visit 0 true, .collect (.cleared 0 0)]

/-- It has taken the file, and moved its frames. -/
def collected : List (Event Unit Int) :=
  lastUsed ++ visited ++ List.replicate 4 (.collect (.cleared 0 0))

/-- The file is removed while it is among the last used ones, preloaded again and asked for; a
garbage collection comes to it, and a job takes it then. -/
def preloadedAgain : List (Event Unit Int) :=
  lastUsed ++ [.call .resetPreloadCallCounts, .call .removeUnusedPreloadedData] ++ halfway.take 5 ++
    visited ++ List.replicate 6 (.job 1 true 2) ++ [.collect (.cleared 0 0)]

/-- The state behind some events, with what is seen of it. -/
theorem exists_reachable {events : List (Event Unit Int)} {α : Type} {seen : α}
    (f : Background Unit Int → α) (h : (events.foldlM (step small) atRest).map f = some seen) :
    ∃ b, (system small).Reachable b ∧ f b = seen := by
  obtain ⟨b, hb, hseen⟩ := Option.map_eq_some_iff.1 h
  exact ⟨b, ⟨events, Lts.run_of_foldlM (fun _ _ _ h => h)
    ⟨⟨rfl, rfl⟩, rfl, rfl, rfl, rfl, rfl, rfl, rfl, rfl, rfl⟩ hb⟩, hseen⟩

/-- At any time, the frames that a file counts as available are frames of the file on the disk, and
they are in the buffer, channel by channel. -/
theorem available_frames_of_reachable (h : (system cfg).Reachable b) {fileData : FileData σ}
    (hdata : b.pool.preloadedFiles fileId = some fileData) :
    fileData.availableFrames ≤ (cfg.root.file fileId).frames ∧
    (fileData.availableFrames ≠ 0 →
      fileData.fileData.numChannels = (cfg.root.file fileId).channels ∧
      fileData.fileData.numFrames = (cfg.root.file fileId).frames) ∧
    ∀ c < (cfg.root.file fileId).channels, ∀ f < fileData.availableFrames,
      fileData.fileData.sample c f = (cfg.root.file fileId).sample f c := by
  rcases (inv_of_reachable h fileId).published hdata with hzero | ⟨k, hle, hholds⟩
  · rw [hzero]
    exact ⟨Nat.zero_le _, absurd rfl, fun _ _ f hf => absurd hf (Nat.not_lt_zero f)⟩
  · refine ⟨hle.trans hholds.le_frames, fun _ => ⟨hholds.numChannels, hholds.numFrames⟩, ?_⟩
    intro c hc f hf
    rw [hholds.sample c hc f (by have := hholds.le_frames; omega), if_pos (by omega)]

/-- Two of three frames are there while the third is still to be read. -/
theorem available_frames_halfway :
    ∃ b fileData, (system small).Reachable b ∧ b.pool.preloadedFiles () = some fileData ∧
      fileData.availableFrames = 2 ∧ fileData.fileData.sample 0 1 = 2 := by
  have hseen : (halfway.foldlM (step small) atRest).map (fun b =>
      (b.pool.preloadedFiles ()).map FileData.availableFrames) = some (some 2) := rfl
  obtain ⟨b, hreachable, hframes⟩ := exists_reachable _ hseen
  obtain ⟨fileData, hdata, htwo⟩ := Option.map_eq_some_iff.1 hframes
  refine ⟨b, fileData, hreachable, hdata, htwo, ?_⟩
  exact (available_frames_of_reachable hreachable hdata).2.2 0 Nat.one_pos 1 (by omega)

/-- The threads that write the frames of a file, one at a time. -/
structure Exclusive (b : Background ι σ) (fileId : ι) : Prop where
  /-- No two jobs have taken the file. -/
  jobs : (b.jobs.filter fun job => job.1 = fileId ∧ job.2.Owns).length ≤ 1
  /-- Where one has, the next step of a garbage collection that is at the file leaves it as it is,
  and takes nothing from it. -/
  collection : ∀ job ∈ b.jobs, job.1 = fileId → job.2.Owns = true →
    ∀ pc, collecting b.pass fileId = some pc → ∀ fileData,
    b.pool.preloadedFiles fileId = some fileData → ∀ moved,
    (pc.step moved fileData).2 = fileData ∧ garbage fileData pc = []

omit [Zero σ] in
/-- The jobs for a file with a property, counted among all the jobs or among those for the file. -/
theorem length_filter_jobs (jobs : List (ι × JobPc σ)) (p : JobPc σ → Bool) (fileId : ι) :
    (jobs.filter fun job => job.1 = fileId ∧ p job.2).length = (jobsFor jobs fileId).countP p := by
  rw [jobsFor, List.countP_filterMap, ← List.countP_eq_length_filter]
  refine List.countP_congr fun job _ => ?_
  split <;> simp [*]

/-- A collection that has come to a file that is streamed does not get it. -/
theorem step_of_streaming {file : AudioFile σ} {fileData : FileData σ} {pc : GcPc}
    (hpc : Collecting file fileData pc) (hstreaming : fileData.status = .streaming)
    (moved : AudioBuffer σ) :
    (pc.step moved fileData).2 = fileData ∧ garbage fileData pc = [] := by
  cases pc with
  | load =>
      refine ⟨?_, rfl⟩
      rw [GcPc.step, hstreaming]
  | frames =>
      refine ⟨?_, rfl⟩
      rw [GcPc.step]
      split <;> rfl
  | exchange status =>
      refine ⟨?_, rfl⟩
      have hne : fileData.status ≠ status := by
        rintro rfl
        rcases hpc with ⟨hs, -⟩ | ⟨hs, -⟩ <;> rw [hstreaming] at hs <;> cases hs
      rw [GcPc.step, if_neg hne]
  | recheck _ | restore _ => exact Status.noConfusion (hstreaming.symm.trans hpc.2.1)
  | reset | move | release => exact Status.noConfusion (hstreaming.symm.trans hpc.1)

/-- At any time at most one job streams a file, and no garbage collection takes from it then. -/
theorem exclusive_of_reachable (h : (system cfg).Reachable b) (fileId : ι) :
    b.Exclusive fileId := by
  have hinv := inv_of_reachable h fileId
  have howner := hinv.owner
  refine ⟨?_, ?_⟩
  · rw [length_filter_jobs]
    refine howner.trans_le ?_
    split <;> decide
  · rintro job hmem rfl howns pc hpc fileData hdata moved
    have hpos : 0 < (b.view job.1).jobs.countP JobPc.Owns :=
      List.countP_pos_iff.2 ⟨job.2, mem_jobsFor.2 hmem, howns⟩
    have hstreaming : (b.view job.1).status = .streaming := by
      by_contra hne
      rw [if_neg hne] at howner
      omega
    rw [FileState.status_of_data hdata] at hstreaming
    obtain ⟨-, fd, hfd, hcollecting⟩ := hinv.collecting pc hpc
    obtain rfl := Option.some.inj (hdata.symm.trans hfd)
    exact step_of_streaming hcollecting hstreaming moved

/-- A file that is streamed again while the collection is at it: the exchange fails. -/
theorem exclusive_halfway :
    ∃ b fileData, (system small).Reachable b ∧ b.pool.preloadedFiles () = some fileData ∧
      collecting b.pass () = some (.exchange .preloaded) ∧
      ∀ moved, (GcPc.step moved fileData (.exchange .preloaded)).2 = fileData ∧
        garbage fileData (.exchange .preloaded) = [] := by
  have hseen : (preloadedAgain.foldlM (step small) atRest).map (fun b =>
      (b.jobs.map (fun job => job.2.Owns), collecting b.pass (),
        (b.pool.preloadedFiles ()).isSome)) =
      some ([false, true], some (.exchange .preloaded), true) := rfl
  obtain ⟨b, hreachable, heq⟩ := exists_reachable _ hseen
  obtain ⟨hjobs, hpc, hsome⟩ := Prod.mk.inj heq |>.imp_right Prod.mk.inj
  obtain ⟨fileData, hdata⟩ := Option.isSome_iff_exists.1 hsome
  refine ⟨b, fileData, hreachable, hdata, hpc, fun moved => ?_⟩
  obtain ⟨job, hjob, howns⟩ : ∃ job ∈ b.jobs, job.2.Owns = true := by
    have hmem : true ∈ b.jobs.map fun job => job.2.Owns := by
      rw [hjobs]
      decide
    exact List.mem_map.1 hmem
  exact (exclusive_of_reachable hreachable ()).collection job hjob rfl howns _ hpc _ hdata moved

/-- The files that the garbage collection knows of. -/
structure KnownFiles (b : Background ι σ) : Prop where
  nodup : (known b.pass b.lastUsedFiles).Nodup
  /-- A file with all its frames is known, or its job is about to make it so. -/
  complete : ∀ fileId fileData, b.pool.preloadedFiles fileId = some fileData →
    fileData.status = .done →
    fileId ∈ known b.pass b.lastUsedFiles ∨ (fileId, .remember) ∈ b.jobs
  /-- A file that is being collected is the one that the collection is at. -/
  collected : ∀ fileId fileData, b.pool.preloadedFiles fileId = some fileData →
    fileData.status = .garbageCollecting → collecting b.pass fileId ≠ none
  /-- The exchange of a status by the collection succeeds where the file was loaded when it came,
  and fails where it was not. -/
  exchange : ∀ fileId status fileData, collecting b.pass fileId = some (.exchange status) →
    b.pool.preloadedFiles fileId = some fileData → (fileData.status = status ↔ status = .done)

/-- At any time, no loaded file escapes the garbage collection, and none is collected twice. -/
theorem knownFiles_of_reachable (h : (system cfg).Reachable b) : b.KnownFiles where
  nodup := by
    rw [List.nodup_iff_count_le_one]
    exact fun fileId => (inv_of_reachable h fileId).once
  complete fileId fileData hdata hdone := by
    have hinv := inv_of_reachable h fileId
    rcases Nat.eq_zero_or_pos (b.view fileId).remembered with hzero | hpos
    · have hjobs := hinv.known ((FileState.status_of_data hdata).trans hdone) hzero
      obtain ⟨pc, hpc, hremembers⟩ := List.countP_pos_iff.1 hjobs
      refine .inr ?_
      cases pc with
      | remember => exact mem_jobsFor.1 hpc
      | start | load _ | exchange _ | prepare | stream _ | publish _ _ | finish | left =>
          cases hremembers
    · exact .inl (List.count_pos_iff.1 hpos)
  collected fileId fileData hdata hgc :=
    (inv_of_reachable h fileId).collector ((FileState.status_of_data hdata).trans hgc)
  exchange fileId status fileData hpc hdata := by
    obtain ⟨-, fd, hfd, hcollecting⟩ := (inv_of_reachable h fileId).collecting _ hpc
    obtain rfl := Option.some.inj (hdata.symm.trans hfd)
    rcases hcollecting with ⟨rfl, hdone⟩ | ⟨rfl, hs | hs⟩
    · exact iff_of_true hdone rfl
    · exact iff_of_false (fun heq => Status.noConfusion (heq.symm.trans hs)) nofun
    · exact iff_of_false (fun heq => Status.noConfusion (heq.symm.trans hs)) nofun

/-- The exchange succeeds for a file that is loaded, and fails for one that was removed and
preloaded again. -/
theorem knownFiles_collected :
    (∃ b fileData, (system small).Reachable b ∧ b.pool.preloadedFiles () = some fileData ∧
      collecting b.pass () = some (.exchange .done) ∧ fileData.status = .done) ∧
    ∃ b fileData, (system small).Reachable b ∧ b.pool.preloadedFiles () = some fileData ∧
      collecting b.pass () = some (.exchange .preloaded) ∧ fileData.status ≠ .preloaded := by
  have hfirst : ((lastUsed ++ visited).foldlM (step small) atRest).map (fun b =>
      (collecting b.pass (), (b.pool.preloadedFiles ()).isSome)) =
      some (some (.exchange .done), true) := rfl
  have hagain : (preloadedAgain.foldlM (step small) atRest).map (fun b =>
      (collecting b.pass (), (b.pool.preloadedFiles ()).isSome)) =
      some (some (.exchange .preloaded), true) := rfl
  constructor
  · obtain ⟨b, hreachable, heq⟩ := exists_reachable _ hfirst
    obtain ⟨hpc, hsome⟩ := Prod.mk.inj heq
    obtain ⟨fileData, hdata⟩ := Option.isSome_iff_exists.1 hsome
    exact ⟨b, fileData, hreachable, hdata, hpc,
      ((knownFiles_of_reachable hreachable).exchange () _ _ hpc hdata).2 rfl⟩
  · obtain ⟨b, hreachable, heq⟩ := exists_reachable _ hagain
    obtain ⟨hpc, hsome⟩ := Prod.mk.inj heq
    obtain ⟨fileData, hdata⟩ := Option.isSome_iff_exists.1 hsome
    refine ⟨b, fileData, hreachable, hdata, hpc, fun hpreloaded => ?_⟩
    cases ((knownFiles_of_reachable hreachable).exchange () _ _ hpc hdata).1 hpreloaded

/-! ## The queue -/

/-- What the background has pointers to is there. -/
def There (b : Background ι σ) : Prop := ∀ fileId ∈ b.held, b.pool.preloadedFiles fileId ≠ none

omit [Zero σ] [DecidableEq ι] in
/-- What is held stays there where the pool is the same and nothing more is held. -/
theorem There.of_held (h : b.There) (hheld : ∀ fileId ∈ b'.held, fileId ∈ b.held)
    (hfiles : b'.pool = b.pool) : b'.There := by
  intro fileId hmem
  rw [hfiles]
  exact h fileId (hheld fileId hmem)

omit [Zero σ] in
/-- The data of a file is written where the file is. -/
theorem store_ne_none {id : ι} {fileData : FileData σ}
    (h : b.pool.preloadedFiles fileId ≠ none) :
    (b.store id fileData).pool.preloadedFiles fileId ≠ none := by
  rcases eq_or_ne fileId id with rfl | hne
  · rw [preloadedFiles_store]
    exact Option.some_ne_none fileData
  · rwa [preloadedFiles_store_of_ne hne]

omit [Zero σ] [DecidableEq ι] in
/-- A promise queues a file only where it finds it among the preloaded ones. -/
theorem There.getFilePromise (h : b.There) (id : ι) : (b.getFilePromise cfg id).There := by
  unfold Background.getFilePromise
  split
  next => exact h
  next =>
    split
    next => exact h
    next fileData hdata =>
      split
      next =>
        intro fileId hmem
        rw [mem_held, List.mem_append, List.mem_singleton] at hmem
        rcases hmem with (hmem | hid) | hmem
        · exact h fileId (mem_held.2 (.inl hmem))
        · obtain rfl := Option.some.inj hid
          show b.pool.preloadedFiles fileId ≠ none
          rw [hdata]
          exact Option.some_ne_none fileData
        · exact h fileId (mem_held.2 (.inr hmem))
      next => exact h

omit [Zero σ] [DecidableEq ι] in
/-- Popping the queue hands a file that is held to a job, which holds it on. -/
theorem There.pop (h : b.There) : b.pop.There := by
  unfold Background.pop
  split
  next => exact h
  next filesToLoad hqueue =>
    refine h.of_held (fun fileId hmem => ?_) rfl
    rw [mem_held] at hmem ⊢
    rw [hqueue]
    exact hmem.imp_left (List.mem_cons_of_mem _)
  next id filesToLoad hqueue =>
    refine h.of_held (fun fileId hmem => ?_) rfl
    rw [mem_held] at hmem ⊢
    rw [hqueue]
    rcases hmem with hmem | ⟨pc, hjob, huses⟩ | hpass
    · exact .inl (List.mem_cons_of_mem _ hmem)
    · rcases List.mem_append.1 hjob with hjob | hjob
      · exact .inr (.inl ⟨pc, hjob, huses⟩)
      · obtain ⟨rfl, -⟩ := Prod.mk.inj (List.mem_singleton.1 hjob)
        exact .inl List.mem_cons_self
    · exact .inr (.inr hpass)

/-- A job that has a step at its file uses it. -/
theorem uses_of_step {file : AudioFile σ} {fileChunkSize : Nat} {opened : Bool}
    {reads : Nat → Nat → Nat} {fileData : FileData σ} {pc : JobPc σ} {r : JobPc σ × FileData σ}
    (h : pc.step file fileChunkSize opened reads fileData = some r) : pc.Uses = true := by
  cases pc with
  | remember | left => cases h
  | start | load _ | exchange _ | prepare | stream _ | publish _ _ | finish => rfl

omit [Zero σ] [DecidableEq ι] in
/-- A job that moves on has no other file. -/
theorem There.set (h : b.There) {k : Nat} {id : ι} {pc pc' : JobPc σ}
    (hjob : b.jobs[k]? = some (id, pc)) (huses : pc'.Uses = true → pc.Uses = true) :
    ({ b with jobs := b.jobs.set k (id, pc') } : Background ι σ).There := by
  refine h.of_held (fun fileId hmem => ?_) rfl
  rw [mem_held] at hmem ⊢
  rcases hmem with hmem | ⟨q, hq, hqUses⟩ | hpass
  · exact .inl hmem
  · rcases List.mem_or_eq_of_mem_set hq with hq | heq
    · exact .inr (.inl ⟨q, hq, hqUses⟩)
    · obtain ⟨rfl, rfl⟩ := Prod.mk.inj heq
      exact .inr (.inl ⟨pc, List.mem_of_getElem? hjob, huses hqUses⟩)
  · exact .inr (.inr hpass)

omit [Zero σ] in
/-- Storing data takes no file away. -/
theorem There.store (h : b.There) (id : ι) (fileData : FileData σ) :
    (b.store id fileData).There := by
  intro fileId hmem
  exact store_ne_none (h fileId hmem)

omit [Zero σ] [DecidableEq ι] in
/-- A collection that leaves a file, or comes to one that is there. -/
theorem There.pass (h : b.There) {pass : Option (Pass ι)}
    (hpass : ∀ todo kept id pc, pass = some ⟨todo, kept, some (id, pc)⟩ →
      b.pool.preloadedFiles id ≠ none) : ({ b with pass } : Background ι σ).There := by
  intro fileId hmem
  rw [mem_held] at hmem
  rcases hmem with hmem | hmem | ⟨todo, kept, pc, heq⟩
  · exact h fileId (mem_held.2 (.inl hmem))
  · exact h fileId (mem_held.2 (.inr (.inl hmem)))
  · exact hpass todo kept fileId pc heq

omit [Zero σ] [DecidableEq ι] in
/-- The collection goes on only with a file that is there. -/
theorem There.visit (h : b.There) (todo kept : List ι) (id : ι) (idle : Bool) :
    ({ b with pass := some (b.visit cfg ⟨todo, kept, none⟩ id idle) } : Background ι σ).There := by
  refine h.pass fun todo' kept' id' pc heq => ?_
  rcases visit_cases cfg b todo kept id idle with
    hvisit | ⟨-, hvisit⟩ | ⟨fileData, hdata, -, hvisit⟩
  · rw [hvisit] at heq
    cases heq
  · rw [hvisit] at heq
    cases heq
  · rw [hvisit] at heq
    injection heq with heq
    injection heq with _ _ hcurrent
    obtain ⟨rfl, -⟩ := Prod.mk.inj (Option.some.inj hcurrent)
    rw [hdata]
    exact Option.some_ne_none fileData

omit [Zero σ] in
/-- A step of the collection stays at a file that is there, or gives it up. -/
theorem There.collect (h : b.There) (todo kept : List ι) (id : ι) (verdict : Verdict)
    (fileData : FileData σ) :
    ({ b.store id fileData with pass := some (Pass.next ⟨todo, kept, none⟩ id verdict) } :
      Background ι σ).There := by
  refine (h.store id fileData).pass fun todo' kept' id' pc heq => ?_
  cases verdict with
  | goOn gc =>
      injection heq with heq
      injection heq with _ _ hcurrent
      obtain ⟨rfl, -⟩ := Prod.mk.inj (Option.some.inj hcurrent)
      rw [preloadedFiles_store]
      exact Option.some_ne_none fileData
  | keep | remove => cases heq

/-- Every step leaves what the background has pointers to where it is. -/
theorem There.step (h : b.There) {event : Event ι σ} (hstep : b.step cfg event = some b') :
    b'.There := by
  cases cases_of_step hstep with
  | call call pool _ hheld =>
      exact fun fileId hmem => Option.isSome_iff_ne_none.1 (hheld fileId hmem)
  | readers id readerCount fileData _ => exact h.store id _
  | getFilePromise id => exact h.getFilePromise id
  | post | wait | locked | garbageJob => exact h
  | pop => exact h.pop
  | expire k =>
      refine h.of_held (fun fileId hmem => ?_) rfl
      rw [mem_held] at hmem ⊢
      refine hmem.imp_left fun hmem => ?_
      rcases List.mem_or_eq_of_mem_set hmem with hmem | heq
      · exact hmem
      · cases heq
  | job k opened numFramesRead id pc pc' fileData fileData' hjob _ hjobStep =>
      exact (h.store id fileData').set hjob fun _ => uses_of_step hjobStep
  | remember k id _ hjob => exact h.set hjob nofun
  | trigger => exact h.pass nofun
  | visit k idle todo kept id => exact h.visit _ kept id idle
  | collect moved todo kept id pc fileData =>
      exact h.collect todo kept id (pc.step moved fileData).1 (pc.step moved fileData).2
  | endOfPass order kept =>
      have hpass : ({ b with pass := none } : Background ι σ).There := h.pass nofun
      exact hpass
  | clear filesToLoad hpass hheld hsublist =>
      intro fileId hmem
      have hmem' : fileId ∈ b.held := by
        rw [mem_held] at hmem ⊢
        exact hmem.imp_left fun hmem => hsublist.subset hmem
      rw [hheld] at hmem'
      cases hmem'

/-- In every reachable state, what the background has pointers to is there. -/
theorem there_of_reachable (h : (system cfg).Reachable b) : b.There := by
  refine h.invariant ?_ fun b event b' hb hstep => hb.step hstep
  rintro b ⟨-, hqueue, -, -, -, hjobs, -, -, -, hpass⟩ fileId hmem
  rw [mem_held, hqueue, hjobs, hpass] at hmem
  rcases hmem with hmem | ⟨_, hmem, -⟩ | ⟨_, _, _, hmem⟩ <;> cases hmem

/-- Of the calls of the pool, only the removal of unused files ever waits for the background. -/
theorem step_call_of_ne (h : (system cfg).Reachable b) {call : FilePool.Call ι σ}
    (hne : call ≠ .removeUnusedPreloadedData) {pool : FilePool ι σ}
    (hpool : b.pool.perform cfg.root call = some pool) :
    b.step cfg (.call call) = some { b with pool } := by
  have hheld : ∀ fileId ∈ b.held, (pool.preloadedFiles fileId).isSome := by
    intro fileId hmem
    have hthere := (called_of_perform hne hpool fileId).ne_none (there_of_reachable h fileId hmem)
    exact Option.isSome_iff_ne_none.2 hthere
  simp only [step, hpool, if_pos hheld]

/-- What holds of the queue. -/
structure Queued (cfg : Config ι σ) (b : Background ι σ) : Prop where
  /-- Each file that is queued has its post, or will have it; `clear` leaves some posts over. -/
  posted : b.filesToLoad.length ≤ b.dispatchBarrier + b.posting + b.dispatching.toNat
  capacity : b.filesToLoad.length ≤ cfg.queueCapacity

omit [Zero σ] [DecidableEq ι] in
/-- A promise that queues a file is counted as one that is about to post. -/
theorem Queued.getFilePromise (h : Queued cfg b) (id : ι) :
    Queued cfg (b.getFilePromise cfg id) := by
  unfold Background.getFilePromise
  split
  · exact h
  · split
    · exact h
    · split
      next hroom =>
        have hposted := h.posted
        constructor <;> simp only [List.length_append, List.length_singleton] <;> omega
      next => exact h

omit [Zero σ] [DecidableEq ι] in
/-- The post that let the dispatching thread in is used up for the file that it pops. -/
theorem Queued.pop (h : Queued cfg b) (hdispatching : b.dispatching = true) :
    Queued cfg b.pop := by
  have hposted := h.posted
  have hcapacity := h.capacity
  rw [hdispatching, Bool.toNat_true] at hposted
  unfold Background.pop
  split
  next hqueue => exact ⟨by rw [hqueue]; exact Nat.zero_le _, hcapacity⟩
  next filesToLoad hqueue =>
    rw [hqueue, List.length_cons] at hposted hcapacity
    exact ⟨Nat.le_of_succ_le_succ hposted, (Nat.le_succ _).trans hcapacity⟩
  next id filesToLoad hqueue =>
    rw [hqueue, List.length_cons] at hposted hcapacity
    exact ⟨Nat.le_of_succ_le_succ hposted, (Nat.le_succ _).trans hcapacity⟩

/-- Every step keeps the queue covered by posts and within its capacity. -/
theorem Queued.step (h : Queued cfg b) {event : Event ι σ} (hstep : b.step cfg event = some b') :
    Queued cfg b' := by
  have hposted := h.posted
  cases cases_of_step hstep with
  | getFilePromise id => exact h.getFilePromise id
  | post hne =>
      refine ⟨?_, h.capacity⟩
      show b.filesToLoad.length ≤ b.dispatchBarrier + 1 + (b.posting - 1) + b.dispatching.toNat
      omega
  | wait hidle hne =>
      refine ⟨?_, h.capacity⟩
      rw [hidle, Bool.toNat_false] at hposted
      show b.filesToLoad.length ≤ b.dispatchBarrier - 1 + b.posting + 1
      omega
  | pop hdispatching => exact h.pop hdispatching
  | expire k =>
      have hlength : (b.filesToLoad.set k none).length = b.filesToLoad.length := List.length_set
      exact ⟨hlength.trans_le hposted, hlength.trans_le h.capacity⟩
  | clear filesToLoad _ _ hsublist =>
      exact ⟨hsublist.length_le.trans hposted, hsublist.length_le.trans h.capacity⟩
  | call | readers | job | remember | locked | trigger | visit | collect | endOfPass
  | garbageJob => exact ⟨hposted, h.capacity⟩

/-- A file that is asked for does not stay in the queue unnoticed: there is a post for it, made or
to come, or the dispatching thread is awake; and what is queued, streamed or collected is there. -/
theorem queued_of_reachable (h : (system cfg).Reachable b) :
    b.filesToLoad.length ≤ cfg.queueCapacity ∧
    b.filesToLoad.length ≤ b.dispatchBarrier + b.posting + b.dispatching.toNat ∧
    (b.dispatching = false → b.dispatchBarrier = 0 → b.posting = 0 → b.filesToLoad = []) ∧
    ∀ fileId ∈ b.held, b.pool.preloadedFiles fileId ≠ none := by
  have hqueued : Queued cfg b := by
    refine h.invariant ?_ fun b event b' hb hstep => hb.step hstep
    rintro b ⟨-, hqueue, -⟩
    constructor <;> rw [hqueue] <;> exact Nat.zero_le _
  have hposted := hqueued.posted
  refine ⟨hqueued.capacity, hposted, fun hidle hbarrier hposting => ?_, there_of_reachable h⟩
  rw [hidle, hbarrier, hposting] at hposted
  exact List.eq_nil_of_length_eq_zero (Nat.le_zero.1 hposted)

/-- The one file is queued, its post made, and its data there. -/
theorem queued_woken_up :
    ∃ b, (system small).Reachable b ∧ b.filesToLoad = [some ()] ∧ b.filesToLoad.length ≤ 1 ∧
      b.pool.preloadedFiles () ≠ none := by
  have hseen : ((halfway.take 3).foldlM (step small) atRest).map Background.filesToLoad =
      some [some ()] := rfl
  obtain ⟨b, hreachable, hqueue⟩ := exists_reachable _ hseen
  obtain ⟨hcapacity, -, -, hthere⟩ := queued_of_reachable hreachable
  refine ⟨b, hreachable, hqueue, hcapacity, hthere () (mem_held.2 (.inl ?_))⟩
  rw [hqueue]
  exact List.mem_singleton_self _

/-! ## The garbage -/

/-- The list of garbage keeps within its capacity, and the collection has room for the frames that
it is about to move. -/
structure Roomy (cfg : Config ι σ) (b : Background ι σ) : Prop where
  garbage : b.garbageToCollect.length ≤ cfg.garbageCapacity
  room : ∀ todo kept id pc, b.pass = some ⟨todo, kept, some (id, pc)⟩ → pc ≠ .release →
    b.garbageToCollect.length < cfg.garbageCapacity

omit [Zero σ] [DecidableEq ι] in
/-- A step that changes neither the garbage nor the pass keeps the room. -/
theorem Roomy.of_same (h : Roomy cfg b) (hgarbage : b'.garbageToCollect = b.garbageToCollect)
    (hpass : b'.pass = b.pass) : Roomy cfg b' := by
  refine ⟨?_, ?_⟩
  · rw [hgarbage]
    exact h.garbage
  · rw [hgarbage, hpass]
    exact h.room

omit [Zero σ] [DecidableEq ι] in
/-- A promise changes neither the garbage nor the pass. -/
theorem Roomy.getFilePromise (h : Roomy cfg b) (id : ι) : Roomy cfg (b.getFilePromise cfg id) := by
  unfold Background.getFilePromise
  split
  · exact h
  · split
    · exact h
    · split
      · exact h.of_same rfl rfl
      · exact h

omit [Zero σ] [DecidableEq ι] in
/-- The dispatching thread changes neither the garbage nor the pass. -/
theorem Roomy.pop (h : Roomy cfg b) : Roomy cfg b.pop := by
  unfold Background.pop
  split <;> exact h.of_same rfl rfl

omit [Zero σ] [DecidableEq ι] in
/-- The collection goes on with a file only where the garbage has room for its frames. -/
theorem Roomy.visit (h : Roomy cfg b) {todo kept : List ι} (id : ι) (idle : Bool) :
    Roomy cfg { b with pass := some (b.visit cfg ⟨todo, kept, none⟩ id idle) } := by
  refine ⟨h.garbage, fun todo' kept' id' pc hpass _ => ?_⟩
  rcases visit_cases cfg b todo kept id idle with
    hvisit | ⟨-, hvisit⟩ | ⟨fileData, -, hroom, -⟩
  · rw [hvisit] at hpass
    cases hpass
  · rw [hvisit] at hpass
    cases hpass
  · exact lt_of_le_of_ne h.garbage hroom

omit [Zero σ] [DecidableEq ι] in
/-- What the predicate moves is the one list that it adds, and it has nothing to move behind it. -/
theorem length_garbage (fileData : FileData σ) (moved : AudioBuffer σ) (pc : GcPc) :
    (garbage fileData pc).length = 0 ∨
      pc ≠ .release ∧ (garbage fileData pc).length = 1 ∧
        (pc.step moved fileData).1 = .goOn .release := by
  cases pc with
  | move => exact .inr ⟨nofun, rfl, rfl⟩
  | load | frames | exchange _ | recheck _ | restore _ | reset | release => exact .inl rfl

omit [Zero σ] [DecidableEq ι] in
/-- A pass that is still at a file is there because the predicate went on with it. -/
theorem goOn_of_next {todo kept todo' kept' : List ι} {id id' : ι} {pc' : GcPc} {verdict : Verdict}
    (h : some (Pass.next ⟨todo, kept, none⟩ id verdict) = some ⟨todo', kept', some (id', pc')⟩) :
    verdict = .goOn pc' := by
  cases verdict with
  | goOn pc =>
      injection h with h
      injection h with _ _ hcurrent
      rw [(Prod.mk.inj (Option.some.inj hcurrent)).2]
  | keep | remove => cases h

omit [Zero σ] in
/-- A step of the predicate adds at most the one list that there was room for. -/
theorem Roomy.collect (h : Roomy cfg b) {todo kept : List ι} {id : ι} {pc : GcPc}
    {fileData : FileData σ} (moved : AudioBuffer σ)
    (hpass : b.pass = some ⟨todo, kept, some (id, pc)⟩) :
    Roomy cfg { b.store id (pc.step moved fileData).2 with
      pass := some (Pass.next ⟨todo, kept, none⟩ id (pc.step moved fileData).1)
      garbageToCollect := b.garbageToCollect ++ Background.garbage fileData pc } := by
  have hroom := h.room todo kept id pc hpass
  have hle := h.garbage
  refine ⟨?_, fun todo' kept' id' pc' hnext hne => ?_⟩
  · rw [List.length_append]
    rcases length_garbage fileData moved pc with hzero | ⟨hpc, hone, -⟩
    · omega
    · have hlt := hroom hpc
      omega
  · have hgoOn := goOn_of_next hnext
    show (b.garbageToCollect ++ Background.garbage fileData pc).length < cfg.garbageCapacity
    rw [List.length_append]
    rcases length_garbage fileData moved pc with hzero | ⟨-, -, hrelease⟩
    · have hlt := hroom fun hpc => by
        rw [hpc] at hgoOn
        cases hgoOn
      omega
    · exact absurd (Verdict.goOn.inj (hgoOn.symm.trans hrelease)) hne

/-- Every step keeps the garbage within its capacity. -/
theorem Roomy.step (h : Roomy cfg b) {event : Event ι σ} (hstep : b.step cfg event = some b') :
    Roomy cfg b' := by
  cases cases_of_step hstep with
  | getFilePromise id => exact h.getFilePromise id
  | pop _ => exact h.pop
  | clear filesToLoad hnone _ _ =>
      refine ⟨Nat.zero_le _, fun _ _ _ _ hpass => ?_⟩
      rw [show b.pass = _ from hpass] at hnone
      cases hnone
  | trigger _ => exact ⟨h.garbage, fun _ _ _ _ hpass => nomatch hpass⟩
  | visit k idle todo kept id => exact h.visit id idle
  | collect moved todo kept id pc fileData hpass hdata => exact h.collect moved hpass
  | endOfPass order kept _ _ => exact ⟨h.garbage, fun _ _ _ _ hpass => nomatch hpass⟩
  | garbageJob hnone _ =>
      refine ⟨Nat.zero_le _, fun _ _ _ _ hpass => ?_⟩
      rw [show b.pass = _ from hpass] at hnone
      cases hnone
  | call | readers | post | wait | expire | job | remember | locked => exact h.of_same rfl rfl

/-- The list of garbage never grows beyond what has been reserved for it. -/
theorem garbage_le_of_reachable (h : (system cfg).Reachable b) :
    b.garbageToCollect.length ≤ cfg.garbageCapacity := by
  refine (h.invariant (I := Roomy cfg) ?_ fun b event b' hb hstep => hb.step hstep).garbage
  rintro b ⟨-, -, -, -, -, -, -, hgarbage, -, hpass⟩
  refine ⟨?_, ?_⟩
  · rw [hgarbage]
    exact Nat.zero_le _
  · rw [hpass]
    exact fun _ _ _ _ hsome => nomatch hsome

/-- The frames of the one file are the garbage that there is room for. -/
theorem garbage_le_collected :
    ∃ b, (system small).Reachable b ∧ b.garbageToCollect ≠ [] ∧ b.garbageToCollect.length ≤ 1 := by
  have hseen : (collected.foldlM (step small) atRest).map (fun b =>
      b.garbageToCollect.isEmpty) = some false := rfl
  obtain ⟨b, hreachable, hgarbage⟩ := exists_reachable _ hseen
  refine ⟨b, hreachable, ?_, garbage_le_of_reachable hreachable⟩
  exact List.isEmpty_eq_false_iff.1 hgarbage

end Soundcan.Sfizz.Background
