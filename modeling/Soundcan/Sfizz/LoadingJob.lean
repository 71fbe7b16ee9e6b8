import Mathlib.Data.List.Count
import Mathlib.Tactic
import Soundcan.Sfizz.Preload

/-!
# The status of a file

A file is streamed by a `loadingJob` that has taken its status from `Preloaded` to `Streaming`, and
its frames are thrown away by a garbage collection that has taken it from `Done` to
`GarbageCollecting`. Any number of jobs for the file may run at once, and a step of each is its work
up to the next access to an atomic. This module follows one file (`FileState.Step`) and proves what
the jobs and the collection rely on (`FileState.Inv`).
-/

namespace Soundcan.Sfizz

universe u v

variable {σ : Type v}

/-! ## The loading job -/

/-- Where a `loadingJob` is. -/
inductive JobPc (σ : Type v) where
  /-- In front of the lock of its file id and the opening of the file. -/
  | start
  /-- In front of a load of the status, with the value of `spinCounter`. -/
  | load (spinCounter : Nat)
  /-- In front of the exchange of the status. -/
  | exchange (spinCounter : Nat)
  /-- In front of `streamFromFile`. -/
  | prepare
  /-- In front of the loop's test. -/
  | stream (s : Stream σ)
  /-- In front of the `fetch_add` of the frames of a chunk. -/
  | publish (s : Stream σ) (outputChunkSize : Nat)
  /-- In front of the store of the status. -/
  | finish
  /-- In front of the lock of `garbageAndLastUsedMutex`. -/
  | remember
  | left

/-- What a job does with the status that it has loaded. -/
def JobPc.afterLoad (spinCounter : Nat) : Status → JobPc σ
  | .invalid => if spinCounter > 1024 then .left else .load (spinCounter + 1)
  | .garbageCollecting => .load spinCounter
  | .preloaded => .exchange spinCounter
  | .streaming | .done => .left

namespace Stream

/-- The variables of `streamFromFile`, with those that it has by reference read from the file. -/
def onFile (s : Stream σ) (fileData : FileData σ) : Stream σ :=
  { s with output := fileData.fileData, filledFrames := fileData.availableFrames }

end Stream

/-- A step of a job, but for the one that takes the lock. `opened` says that the file id is still
there and the file can be read, `reads` what the reader returns. -/
def JobPc.step [Zero σ] (file : AudioFile σ) (fileChunkSize : Nat) (opened : Bool)
    (reads : Nat → Nat → Nat) (fileData : FileData σ) : JobPc σ → Option (JobPc σ × FileData σ)
  | .start => some (if opened then .load 0 else .left, fileData)
  | .load spinCounter => some (afterLoad spinCounter fileData.status, fileData)
  | .exchange spinCounter =>
      if fileData.status = .preloaded then some (.prepare, { fileData with status := .streaming })
      else some (.load spinCounter, fileData)
  | .prepare =>
      let s := Stream.begin file fileChunkSize fileData.availableFrames
      some (.stream s, { fileData with fileData := s.output })
  | .stream s =>
      match (Stream.loop file fileChunkSize reads).test s with
      | some true =>
          ((Stream.loop file fileChunkSize reads).body (s.onFile fileData)).map fun s' =>
            (if s'.stopped then .stream s'
              else .publish s' (s'.filledFrames - fileData.availableFrames),
              { fileData with fileData := s'.output })
      | some false => some (.finish, fileData)
      | none => none
  | .publish s outputChunkSize =>
      some (.stream s,
        { fileData with availableFrames := fileData.availableFrames + outputChunkSize })
  | .finish => some (.remember, { fileData with status := .done })
  | .remember => none
  | .left => none

/-- The job has taken the file. -/
def JobPc.Owns : JobPc σ → Bool
  | .prepare | .stream _ | .publish _ _ | .finish => true
  | _ => false

/-- The job is about to put the file among the last used ones. -/
def JobPc.Remembers : JobPc σ → Bool
  | .remember => true
  | _ => false

/-- The job has a pointer to the file that it may still use. -/
def JobPc.Uses : JobPc σ → Bool
  | .remember | .left => false
  | _ => true

/-! ## The garbage collection -/

/-- Where `triggerGarbageCollection` is with the file that it is at. -/
inductive GcPc where
  /-- In front of the load of the status. -/
  | load
  /-- In front of the load of `availableFrames`. -/
  | frames
  /-- In front of the exchange of the status, with the one that was loaded. -/
  | exchange (status : Status)
  /-- In front of the second load of `readerCount`. -/
  | recheck (status : Status)
  /-- In front of the store of the old status. -/
  | restore (status : Status)
  /-- In front of the store of `availableFrames`. -/
  | reset
  /-- In front of the move of the frames. -/
  | move
  /-- In front of the store of `Preloaded`. -/
  | release
  deriving DecidableEq

/-- What the predicate of `triggerGarbageCollection` does next: it returns `false` or `true`. -/
inductive Verdict where
  | goOn (pc : GcPc)
  | keep
  | remove

/-- A step of the predicate; `moved` is what the move leaves behind. -/
def GcPc.step (moved : AudioBuffer σ) (fileData : FileData σ) : GcPc → Verdict × FileData σ
  | .load =>
      match fileData.status with
      | .preloaded => (.goOn .frames, fileData)
      | .done => (.goOn (.exchange .done), fileData)
      | _ => (.keep, fileData)
  | .frames =>
      if fileData.availableFrames = 0 then (.remove, fileData)
      else (.goOn (.exchange .preloaded), fileData)
  | .exchange status =>
      if fileData.status = status then
        (.goOn (.recheck status), { fileData with status := .garbageCollecting })
      else (.keep, fileData)
  | .recheck status =>
      (.goOn (if fileData.readerCount = 0 then .reset else .restore status), fileData)
  | .restore status => (.keep, { fileData with status })
  | .reset => (.goOn .move, { fileData with availableFrames := 0 })
  | .move => (.goOn .release, { fileData with fileData := moved })
  | .release => (.remove, { fileData with status := .preloaded })

/-- The collection has loaded `Preloaded`: the file was removed and preloaded again while it was
among the last used ones. -/
def GcPc.SawPreloaded : GcPc → Bool
  | .frames | .exchange .preloaded => true
  | _ => false

/-! ## What they rely on -/

/-- What a job knows of the file where it is at work. -/
def Working [Zero σ] (file : AudioFile σ) (fileChunkSize : Nat) (fileData : FileData σ) :
    JobPc σ → Prop
  | .prepare => fileData.availableFrames = 0
  | .stream s => Stream.Inv file fileChunkSize 0 (s.onFile fileData)
  | .publish s outputChunkSize =>
      Stream.Inv file fileChunkSize 0 (s.onFile
        { fileData with availableFrames := fileData.availableFrames + outputChunkSize })
  | .finish => fileData.fileData.Holds file fileData.availableFrames
  | _ => True

/-- What the garbage collection knows of the file that it is at: nobody else collects it, and the
exchange of its status succeeds only where it is loaded. -/
def Collecting [Zero σ] (file : AudioFile σ) (fileData : FileData σ) : GcPc → Prop
  | .load | .frames => fileData.status ≠ .garbageCollecting
  | .exchange status => status = .done ∧ fileData.status = .done ∨
      status = .preloaded ∧ (fileData.status = .streaming ∨ fileData.status = .done)
  | .recheck status | .restore status =>
      status = .done ∧ fileData.status = .garbageCollecting ∧
        fileData.fileData.Holds file fileData.availableFrames
  | .reset => fileData.status = .garbageCollecting ∧
      fileData.fileData.Holds file fileData.availableFrames
  | .move | .release => fileData.status = .garbageCollecting ∧ fileData.availableFrames = 0

/-- What is true of a file behind a step of the collection. -/
def Verdict.Reached [Zero σ] (file : AudioFile σ) (fileData : FileData σ) : Verdict → Prop
  | .goOn pc => Collecting file fileData pc
  | .keep | .remove => fileData.status ≠ .garbageCollecting

/-- The collection takes the file for one that is not loaded, or leaves it as one. -/
def Verdict.Unloaded : Verdict → Bool
  | .goOn pc => pc.SawPreloaded
  | .keep => false
  | .remove => true

/-- What the status of a file says of its frames. -/
def Settled [Zero σ] (file : AudioFile σ) (fileData : FileData σ) : Prop :=
  match fileData.status with
  | .invalid => False
  | .preloaded => fileData.availableFrames = 0
  | .done => fileData.fileData.Holds file fileData.availableFrames
  | .streaming | .garbageCollecting => True

/-- The frames that a file counts as there are those of the file on the disk. -/
def Published [Zero σ] (file : AudioFile σ) (fileData : FileData σ) : Prop :=
  fileData.availableFrames = 0 ∨
    ∃ k, fileData.availableFrames ≤ k ∧ fileData.fileData.Holds file k

/-- What runs in the background does not see the difference. -/
structure FileData.SameStream (fileData fileData' : FileData σ) : Prop where
  status : fileData'.status = fileData.status
  availableFrames : fileData'.availableFrames = fileData.availableFrames
  fileData : fileData'.fileData = fileData.fileData

/-- What the step of a job is to the status of its file. -/
inductive JobEffect [Zero σ] (file : AudioFile σ) (pc : JobPc σ) (fileData : FileData σ)
    (pc' : JobPc σ) (fileData' : FileData σ) : Prop where
  | idle (owns : pc.Owns = false) (owns' : pc'.Owns = false) (remembers : pc.Remembers = false)
      (remembers' : pc'.Remembers = false) (same : fileData' = fileData)
  | take (owns : pc.Owns = false) (owns' : pc'.Owns = true) (remembers : pc.Remembers = false)
      (remembers' : pc'.Remembers = false) (status : fileData.status = .preloaded)
      (taken : fileData' = { fileData with status := .streaming })
  | work (owns : pc.Owns = true) (owns' : pc'.Owns = true) (remembers : pc.Remembers = false)
      (remembers' : pc'.Remembers = false) (status : fileData'.status = fileData.status)
  | finish (owns : pc.Owns = true) (done : pc' = .remember)
      (holds : fileData.fileData.Holds file fileData.availableFrames)
      (stored : fileData' = { fileData with status := .done })

section
variable [Zero σ] {file : AudioFile σ} {fileChunkSize : Nat} {fileData fileData' : FileData σ}
  {pc pc' : JobPc σ} {opened : Bool} {reads : Nat → Nat → Nat}

omit [Zero σ] in
/-- Behind its load of the status a job owns nothing, and goes on spinning, tries the exchange or
leaves. -/
theorem owns_afterLoad (spinCounter : Nat) (status : Status) :
    (JobPc.afterLoad (σ := σ) spinCounter status).Owns = false ∧
      (JobPc.afterLoad (σ := σ) spinCounter status).Remembers = false := by
  cases status with
  | invalid => by_cases hspin : spinCounter > 1024 <;>
      simp only [JobPc.afterLoad, hspin, if_true, if_false] <;> exact ⟨rfl, rfl⟩
  | preloaded | streaming | garbageCollecting | done => exact ⟨rfl, rfl⟩

/-- Of a job that owns nothing, nothing is asked. -/
theorem working_of_not_owns (h : pc.Owns = false) : Working file fileChunkSize fileData pc := by
  cases pc with
  | start | load _ | exchange _ | remember | left => trivial
  | prepare | stream _ | publish _ _ | finish => cases h

/-- A chunk: the block is inside the buffer, and is published next where it is not empty. -/
theorem working_chunk {s : Stream σ} (h : Working file fileChunkSize fileData (.stream s))
    (hreads : ∀ pos n, reads pos n ≤ n)
    (htest : (Stream.loop file fileChunkSize reads).test s = some true) :
    ∃ s', (Stream.loop file fileChunkSize reads).body (s.onFile fileData) = some s' ∧
      Working file fileChunkSize { fileData with fileData := s'.output }
        (if s'.stopped then .stream s'
          else .publish s' (s'.filledFrames - fileData.availableFrames)) := by
  obtain ⟨s', hbody, hinv, hprogress⟩ := Stream.Inv.round (s := s.onFile fileData) h hreads htest
  have hbefore : fileData.availableFrames = 0 + s.outputFrameCounter := h.filledFrames
  have hafter := hinv.filledFrames
  refine ⟨s', hbody, ?_⟩
  rcases hprogress with ⟨hstopped, hsame⟩ | ⟨hrunning, hlt⟩
  · rw [if_pos hstopped]
    refine ⟨hinv.output, hinv.counters, ?_, hinv.fileBlock⟩
    exact hbefore.trans (congrArg (0 + ·) hsame.symm)
  · rw [if_neg (Bool.eq_false_iff.1 hrunning)]
    refine ⟨hinv.output, hinv.counters, ?_, hinv.fileBlock⟩
    show fileData.availableFrames + (s'.filledFrames - fileData.availableFrames) =
      0 + s'.outputFrameCounter
    have hle : s.outputFrameCounter < s'.outputFrameCounter := hlt
    omega

/-- The spec of a step of a job. -/
theorem step_spec (hwork : Working file fileChunkSize fileData pc)
    (hsettled : Settled file fileData)
    (hreads : ∀ pos n, reads pos n ≤ n)
    (hstep : pc.step file fileChunkSize opened reads fileData = some (pc', fileData')) :
    Working file fileChunkSize fileData' pc' ∧ JobEffect file pc fileData pc' fileData' := by
  cases pc with
  | start =>
      obtain ⟨rfl, rfl⟩ := Prod.mk.inj (Option.some.inj hstep)
      cases opened <;> exact ⟨trivial, .idle rfl rfl rfl rfl rfl⟩
  | load spinCounter =>
      obtain ⟨rfl, rfl⟩ := Prod.mk.inj (Option.some.inj hstep)
      obtain ⟨howns, hremembers⟩ := owns_afterLoad (σ := σ) spinCounter fileData.status
      exact ⟨working_of_not_owns howns, .idle rfl howns rfl hremembers rfl⟩
  | exchange spinCounter =>
      simp only [JobPc.step] at hstep
      split at hstep
      next hstatus =>
        obtain ⟨rfl, rfl⟩ := Prod.mk.inj (Option.some.inj hstep)
        refine ⟨?_, .take rfl rfl rfl rfl hstatus rfl⟩
        rw [Settled, hstatus] at hsettled
        exact hsettled
      next =>
        obtain ⟨rfl, rfl⟩ := Prod.mk.inj (Option.some.inj hstep)
        exact ⟨trivial, .idle rfl rfl rfl rfl rfl⟩
  | prepare =>
      obtain ⟨rfl, rfl⟩ := Prod.mk.inj (Option.some.inj hstep)
      have hnone : fileData.availableFrames = 0 := hwork
      refine ⟨?_, .work rfl rfl rfl rfl rfl⟩
      exact ⟨AudioBuffer.holds_cleared file, rfl, hnone, List.length_replicate⟩
  | stream s =>
      simp only [JobPc.step] at hstep
      split at hstep
      next htest =>
        obtain ⟨s', hbody, hwork'⟩ := working_chunk hwork hreads htest
        rw [hbody] at hstep
        obtain ⟨rfl, rfl⟩ := Prod.mk.inj (Option.some.inj hstep)
        refine ⟨hwork', .work rfl ?_ rfl ?_ rfl⟩
        · split <;> rfl
        · split <;> rfl
      next =>
        obtain ⟨rfl, rfl⟩ := Prod.mk.inj (Option.some.inj hstep)
        have hcount : fileData.availableFrames = s.outputFrameCounter := by
          have hfilled : fileData.availableFrames = 0 + s.outputFrameCounter := hwork.filledFrames
          omega
        refine ⟨?_, .work rfl rfl rfl rfl rfl⟩
        show fileData.fileData.Holds file fileData.availableFrames
        rw [hcount]
        exact hwork.output
      next => cases hstep
  | publish s outputChunkSize =>
      obtain ⟨rfl, rfl⟩ := Prod.mk.inj (Option.some.inj hstep)
      exact ⟨hwork, .work rfl rfl rfl rfl rfl⟩
  | finish =>
      obtain ⟨rfl, rfl⟩ := Prod.mk.inj (Option.some.inj hstep)
      exact ⟨trivial, .finish rfl rfl hwork rfl⟩
  | remember => cases hstep
  | left => cases hstep

/-- A job that has not left and does not wait for the lock has a step: a chunk that it writes is
inside its buffer. -/
theorem exists_step (hwork : Working file fileChunkSize fileData pc)
    (hreads : ∀ pos n, reads pos n ≤ n) (opened : Bool) (hremembers : pc.Remembers = false)
    (hleft : pc ≠ .left) :
    (pc.step file fileChunkSize opened reads fileData).isSome := by
  cases pc with
  | stream s =>
      cases htest : (Stream.loop file fileChunkSize reads).test s with
      | none => cases htest
      | some goesOn =>
          cases goesOn with
          | true =>
              obtain ⟨s', hbody, -⟩ := working_chunk hwork hreads htest
              simp only [JobPc.step, htest, hbody, Option.map_some, Option.isSome_some]
          | false => simp only [JobPc.step, htest, Option.isSome_some]
  | exchange spinCounter =>
      simp only [JobPc.step]
      split <;> rfl
  | remember => cases hremembers
  | left => exact absurd rfl hleft
  | start | load _ | prepare | publish _ _ | finish => rfl

/-- A step that is not idle takes a file that is preloaded, or is one of the job that has it. -/
theorem JobEffect.same_or_status (h : JobEffect file pc fileData pc' fileData')
    (howns : pc.Owns = true → fileData.status = .streaming) :
    fileData' = fileData ∨ fileData.status = .preloaded ∨
      fileData.status = .streaming ∧ pc.Owns = true := by
  cases h with
  | idle _ _ _ _ hsame => exact .inl hsame
  | take _ _ _ _ hstatus => exact .inr (.inl hstatus)
  | work h | finish h => exact .inr (.inr ⟨howns h, h⟩)

/-- No job begins a garbage collection. -/
theorem JobEffect.garbageCollecting (h : JobEffect file pc fileData pc' fileData')
    (hstatus : fileData'.status = .garbageCollecting) : fileData.status = .garbageCollecting := by
  cases h with
  | idle _ _ _ _ hsame => rwa [← hsame]
  | take _ _ _ _ _ htaken =>
      rw [htaken] at hstatus
      cases hstatus
  | work _ _ _ _ hsame => rwa [← hsame]
  | finish _ _ _ hstored =>
      rw [hstored] at hstatus
      cases hstatus

/-- A job that streams only where the status says so leaves a file settled that is settled. -/
theorem JobEffect.settled (h : JobEffect file pc fileData pc' fileData')
    (howns : pc.Owns = true → fileData.status = .streaming) (hsettled : Settled file fileData) :
    Settled file fileData' := by
  cases h with
  | idle _ _ _ _ hsame => rwa [hsame]
  | take _ _ _ _ _ htaken =>
      rw [htaken]
      trivial
  | work h _ _ _ hstatus =>
      rw [Settled, hstatus, howns h]
      trivial
  | finish _ _ hholds hstored =>
      rw [hstored]
      exact hholds

/-- The jobs that have taken the file go with its status. -/
theorem JobEffect.counts (h : JobEffect file pc fileData pc' fileData')
    (howns : pc.Owns = true → fileData.status = .streaming) :
    pc'.Owns.toNat + (if fileData.status = .streaming then 1 else 0) =
      pc.Owns.toNat + (if fileData'.status = .streaming then 1 else 0) := by
  cases h with
  | idle h h' _ _ hsame => rw [h, h', hsame]
  | take h h' _ _ hstatus htaken =>
      rw [h, h', hstatus, htaken]
      rfl
  | work h h' _ _ hstatus => rw [h, h', hstatus]
  | finish h hdone _ hstored =>
      rw [h, hdone, hstored, howns h]
      rfl

/-- A job that is about to remember the file has no other step. -/
theorem JobEffect.remembers (h : JobEffect file pc fileData pc' fileData') :
    pc.Remembers = false := by
  cases h with
  | idle _ _ hremembers _ _ | take _ _ hremembers _ _ _ | work _ _ hremembers _ _ =>
      exact hremembers
  | finish howns _ _ _ =>
      cases pc with
      | remember => cases howns
      | start | load _ | exchange _ | prepare | stream _ | publish _ _ | finish | left => rfl

/-- A job comes to remember a file from having streamed it. -/
theorem JobEffect.done (h : JobEffect file pc fileData pc' fileData')
    (hstatus : fileData'.status = .done) : fileData.status = .done ∨ pc'.Remembers = true := by
  cases h with
  | idle _ _ _ _ hsame => exact .inl (hsame ▸ hstatus)
  | take _ _ _ _ _ htaken =>
      rw [htaken] at hstatus
      cases hstatus
  | work _ _ _ _ hsame => exact .inl (hsame ▸ hstatus)
  | finish _ hdone _ _ => exact .inr (hdone ▸ rfl)

/-- A job leaves the collection what it knows. -/
theorem JobEffect.collecting (h : JobEffect file pc fileData pc' fileData')
    (howns : pc.Owns = true → fileData.status = .streaming) {gc : GcPc}
    (hgc : Collecting file fileData gc) : Collecting file fileData' gc := by
  -- behind the exchange the file is the collection's, and no job has a step that changes it
  have hchange : fileData' = fileData ∨
      (fileData.status = .preloaded ∧ fileData'.status = .streaming ∨
        fileData.status = .streaming ∧ fileData'.status = .streaming ∨
        fileData.status = .streaming ∧ fileData'.status = .done) := by
    cases h with
    | idle _ _ _ _ hsame => exact .inl hsame
    | take _ _ _ _ hstatus htaken => exact .inr (.inl ⟨hstatus, by rw [htaken]⟩)
    | work h _ _ _ hsame => exact .inr (.inr (.inl ⟨howns h, hsame.trans (howns h)⟩))
    | finish h _ _ hstored => exact .inr (.inr (.inr ⟨howns h, by rw [hstored]⟩))
  rcases hchange with rfl | hchange
  · exact hgc
  · cases gc with
    | load | frames =>
        show fileData'.status ≠ .garbageCollecting
        rcases hchange with ⟨-, hs⟩ | ⟨-, hs⟩ | ⟨-, hs⟩ <;> rw [hs] <;> nofun
    | exchange status =>
        rcases hgc with ⟨-, hdone⟩ | ⟨rfl, hloading⟩
        · rw [hdone] at hchange
          rcases hchange with ⟨hs, -⟩ | ⟨hs, -⟩ | ⟨hs, -⟩ <;> cases hs
        · refine .inr ⟨rfl, ?_⟩
          rcases hchange with ⟨-, hs⟩ | ⟨-, hs⟩ | ⟨-, hs⟩
          · exact .inl hs
          · exact .inl hs
          · exact .inr hs
    | recheck _ | restore _ =>
        rw [hgc.2.1] at hchange
        rcases hchange with ⟨hs, -⟩ | ⟨hs, -⟩ | ⟨hs, -⟩ <;> cases hs
    | reset | move | release =>
        rw [hgc.1] at hchange
        rcases hchange with ⟨hs, -⟩ | ⟨hs, -⟩ | ⟨hs, -⟩ <;> cases hs

/-- A job goes on where the stream has not changed. -/
theorem FileData.SameStream.working (h : fileData.SameStream fileData')
    (hwork : Working file fileChunkSize fileData pc) :
    Working file fileChunkSize fileData' pc := by
  cases pc with
  | prepare => exact h.availableFrames.trans hwork
  | stream s =>
      show Stream.Inv file fileChunkSize 0
        { s with output := fileData'.fileData, filledFrames := fileData'.availableFrames }
      rw [h.fileData, h.availableFrames]
      exact hwork
  | publish s outputChunkSize =>
      show Stream.Inv file fileChunkSize 0
        { s with
          output := fileData'.fileData
          filledFrames := fileData'.availableFrames + outputChunkSize }
      rw [h.fileData, h.availableFrames]
      exact hwork
  | finish =>
      show fileData'.fileData.Holds file fileData'.availableFrames
      rw [h.fileData, h.availableFrames]
      exact hwork
  | start | load _ | exchange _ | remember | left => trivial

/-- A file stays settled where its stream has not changed. -/
theorem FileData.SameStream.settled (h : fileData.SameStream fileData')
    (hsettled : Settled file fileData) : Settled file fileData' := by
  rw [Settled, h.status, h.fileData, h.availableFrames]
  exact hsettled

/-- A collection goes on where the stream has not changed. -/
theorem FileData.SameStream.collecting (h : fileData.SameStream fileData') {pc : GcPc}
    (hcollecting : Collecting file fileData pc) : Collecting file fileData' pc := by
  cases pc with
  | load | frames =>
      show fileData'.status ≠ .garbageCollecting
      rw [h.status]
      exact hcollecting
  | exchange status =>
      show status = .done ∧ fileData'.status = .done ∨
        status = .preloaded ∧ (fileData'.status = .streaming ∨ fileData'.status = .done)
      rw [h.status]
      exact hcollecting
  | recheck status | restore status =>
      refine ⟨hcollecting.1, h.status.trans hcollecting.2.1, ?_⟩
      rw [h.fileData, h.availableFrames]
      exact hcollecting.2.2
  | reset =>
      refine ⟨h.status.trans hcollecting.1, ?_⟩
      rw [h.fileData, h.availableFrames]
      exact hcollecting.2
  | move | release =>
      exact ⟨h.status.trans hcollecting.1, h.availableFrames.trans hcollecting.2⟩

/-- Where a job is at work, the frames that are counted are those of the file. -/
theorem published_of_working (howns : pc.Owns = true)
    (hwork : Working file fileChunkSize fileData pc) : Published file fileData := by
  cases pc with
  | prepare => exact .inl hwork
  | stream s => exact .inr ⟨_, le_of_eq hwork.filledFrames, (Nat.zero_add _).symm ▸ hwork.output⟩
  | publish s outputChunkSize =>
      have hle : fileData.availableFrames + outputChunkSize = 0 + s.outputFrameCounter :=
        hwork.filledFrames
      exact .inr ⟨s.outputFrameCounter, by omega, hwork.output⟩
  | finish => exact .inr ⟨_, le_rfl, hwork⟩
  | start | load _ | exchange _ | remember | left => cases howns

end

/-! ## One file and all that run on it -/

/-- A file with its jobs, the number of times it is among the last used files, and where a garbage
collection is with it. -/
structure FileState (σ : Type v) where
  data : Option (FileData σ)
  jobs : List (JobPc σ)
  remembered : Nat
  collecting : Option GcPc

/-- Where the collection is behind a step of its predicate. -/
def Verdict.next : Verdict → Option GcPc
  | .goOn pc => some pc
  | .keep | .remove => none

/-- The predicate takes the file out of the last used ones. -/
def Verdict.Removes : Verdict → Bool
  | .remove => true
  | .goOn _ | .keep => false

namespace FileState

/-- The status; a file that is not there has the one of the constructor. -/
def status (v : FileState σ) : Status :=
  match v.data with
  | some fileData => fileData.status
  | none => .invalid

/-- What happens to a file. -/
inductive Step [Zero σ] (file : AudioFile σ) (fileChunkSize : Nat) (v : FileState σ) :
    FileState σ → Prop where
  /-- A call of the pool preloads it. -/
  | insert (fileData : FileData σ) : v.data = none → fileData.status = .preloaded →
      fileData.availableFrames = 0 → Step file fileChunkSize v { v with data := some fileData }
  /-- A call of the pool, or a reader that comes or goes. -/
  | call (fileData fileData' : FileData σ) : v.data = some fileData →
      fileData.SameStream fileData' → Step file fileChunkSize v { v with data := some fileData' }
  /-- A job is enqueued. -/
  | enqueue : Step file fileChunkSize v { v with jobs := v.jobs ++ [.start] }
  /-- A job takes a step. -/
  | job (fileData fileData' : FileData σ) (before after : List (JobPc σ)) (pc pc' : JobPc σ)
      (opened : Bool) (reads : Nat → Nat → Nat) : v.data = some fileData →
      v.jobs = before ++ pc :: after → (∀ pos n, reads pos n ≤ n) →
      pc.step file fileChunkSize opened reads fileData = some (pc', fileData') →
      Step file fileChunkSize v
        { v with data := some fileData', jobs := before ++ pc' :: after }
  /-- A job puts it among the last used files, where it is not there. -/
  | remember (before after : List (JobPc σ)) : v.jobs = before ++ .remember :: after →
      v.collecting = none → Step file fileChunkSize v
        { v with
          jobs := before ++ .left :: after
          remembered := if v.remembered = 0 then 1 else v.remembered }
  /-- It is removed, where nobody uses it; the last used files may be forgotten with it. -/
  | remove (remembered : Nat) : (∀ pc ∈ v.jobs, pc.Uses = false) → v.collecting = none →
      remembered ≤ v.remembered → Step file fileChunkSize v { v with data := none, remembered }
  /-- A garbage collection does not find it. -/
  | forget : v.data = none → Step file fileChunkSize v { v with remembered := v.remembered - 1 }
  /-- A garbage collection comes to it. -/
  | visit (fileData : FileData σ) : v.data = some fileData → v.remembered ≠ 0 →
      v.collecting = none → Step file fileChunkSize v { v with collecting := some .load }
  /-- The garbage collection takes a step. -/
  | collect (fileData fileData' : FileData σ) (pc : GcPc) (moved : AudioBuffer σ)
      (verdict : Verdict) : v.data = some fileData → v.collecting = some pc →
      pc.step moved fileData = (verdict, fileData') → Step file fileChunkSize v
        { v with
          data := some fileData'
          collecting := verdict.next
          remembered := if verdict.Removes then v.remembered - 1 else v.remembered }

/-- The invariant of a file. -/
structure Inv [Zero σ] (file : AudioFile σ) (fileChunkSize : Nat) (v : FileState σ) : Prop where
  /-- One job has taken the file where it is streamed, and none where it is not. -/
  owner : v.jobs.countP JobPc.Owns = if v.status = .streaming then 1 else 0
  /-- It is once among the last used files, or not. -/
  once : v.remembered ≤ 1
  /-- A file with all its frames is among them, or a job is about to put it there. -/
  known : v.status = .done → v.remembered = 0 → 0 < v.jobs.countP JobPc.Remembers
  working : ∀ pc ∈ v.jobs, ∀ fileData, v.data = some fileData →
    Working file fileChunkSize fileData pc
  settled : ∀ fileData, v.data = some fileData → Settled file fileData
  collector : v.status = .garbageCollecting → v.collecting ≠ none
  collecting : ∀ pc, v.collecting = some pc → v.remembered = 1 ∧
    ∃ fileData, v.data = some fileData ∧ Collecting file fileData pc
  /-- Where the collection has come to a file before it was loaded, its job has not been able to
  remember it since. -/
  late : ∀ pc, v.collecting = some pc → pc.SawPreloaded = true → v.status = .done →
    0 < v.jobs.countP JobPc.Remembers

variable [Zero σ] {file : AudioFile σ} {fileChunkSize : Nat} {v v' : FileState σ}

omit [Zero σ] in
/-- The status of a file that is there is that of its data. -/
theorem status_of_data {fileData : FileData σ} (h : v.data = some fileData) :
    v.status = fileData.status := by
  rw [status, h]

/-- Where no job owns the file, all of them are working. -/
theorem working_of_countP (h : v.jobs.countP JobPc.Owns = 0) (fileData : FileData σ) :
    ∀ pc ∈ v.jobs, Working file fileChunkSize fileData pc := by
  intro pc hpc
  exact working_of_not_owns (Bool.eq_false_iff.2 (List.countP_eq_zero.1 h pc hpc))

omit [Zero σ] in
/-- One job, counted apart from the others. -/
theorem countP_split (p : JobPc σ → Bool) (before after : List (JobPc σ)) (pc : JobPc σ) :
    (before ++ pc :: after).countP p = (before ++ after).countP p + (p pc).toNat := by
  rw [List.countP_append, List.countP_cons, List.countP_append]
  cases p pc <;> simp [Nat.add_assoc]

/-- A step of a job keeps the invariant. -/
theorem Inv.job (h : Inv file fileChunkSize v) {fileData fileData' : FileData σ}
    {before after : List (JobPc σ)} {pc pc' : JobPc σ} {opened : Bool} {reads : Nat → Nat → Nat}
    (hdata : v.data = some fileData) (hjobs : v.jobs = before ++ pc :: after)
    (hreads : ∀ pos n, reads pos n ≤ n)
    (hstep : pc.step file fileChunkSize opened reads fileData = some (pc', fileData')) :
    Inv file fileChunkSize
      { v with data := some fileData', jobs := before ++ pc' :: after } := by
  have hmem : ∀ q, q ∈ v.jobs ↔ q = pc ∨ q ∈ before ++ after := by
    intro q
    rw [hjobs, List.mem_append, List.mem_cons, List.mem_append]
    tauto
  have hwork := h.working pc ((hmem pc).2 (.inl rfl)) _ hdata
  obtain ⟨hwork', heffect⟩ := step_spec hwork (h.settled _ hdata) hreads hstep
  have howner := h.owner
  rw [hjobs, countP_split, status_of_data hdata] at howner
  have howns : pc.Owns = true → fileData.status = .streaming := by
    intro howns
    by_contra hne
    rw [howns, if_neg hne, Bool.toNat_true] at howner
    omega
  have howner' := heffect.counts howns
  -- where this job changes the file, no other has taken it
  have halone : fileData' = fileData ∨ (before ++ after).countP JobPc.Owns = 0 := by
    rcases heffect.same_or_status howns with hsame | hs | ⟨hs, htrue⟩
    · exact .inl hsame
    · rw [hs, if_neg (by nofun)] at howner
      omega
    · rw [hs, htrue, if_pos rfl, Bool.toNat_true] at howner
      omega
  -- a job that is about to remember the file stays so, and the one that has streamed it is one
  have hremembers : ∀ hdone : fileData'.status = .done,
      (fileData.status = .done → 0 < v.jobs.countP JobPc.Remembers) →
      0 < (before ++ pc' :: after).countP JobPc.Remembers := by
    intro hdone hbefore
    rw [countP_split]
    rcases heffect.done hdone with hs | htrue
    · have hpos := hbefore hs
      rw [hjobs, countP_split, heffect.remembers] at hpos
      exact Nat.add_pos_left hpos _
    · rw [htrue]
      exact Nat.succ_pos _
  refine ⟨?_, h.once, ?_, ?_, ?_, ?_, ?_, ?_⟩
  · show (before ++ pc' :: after).countP JobPc.Owns =
      if fileData'.status = .streaming then 1 else 0
    rw [countP_split]
    omega
  · intro hdone hzero
    exact hremembers hdone fun hs => h.known ((status_of_data hdata).trans hs) hzero
  · intro q hq fd hfd
    obtain rfl := Option.some.inj hfd
    have hq' : q = pc' ∨ q ∈ before ++ after := by
      rw [List.mem_append, List.mem_cons] at hq
      rw [List.mem_append]
      tauto
    rcases hq' with rfl | hq'
    · exact hwork'
    · rcases halone with hsame | hzero
      · rw [hsame]
        exact h.working q ((hmem q).2 (.inr hq')) _ hdata
      · exact working_of_not_owns (Bool.eq_false_iff.2 (List.countP_eq_zero.1 hzero q hq'))
  · intro fd hfd
    obtain rfl := Option.some.inj hfd
    exact heffect.settled howns (h.settled _ hdata)
  · intro hstatus
    refine h.collector ?_
    rw [status_of_data hdata]
    exact heffect.garbageCollecting hstatus
  · intro gc hgc
    obtain ⟨hone, fd, hfd, hcollecting⟩ := h.collecting gc hgc
    obtain rfl := Option.some.inj (hdata.symm.trans hfd)
    exact ⟨hone, fileData', rfl, heffect.collecting howns hcollecting⟩
  · intro gc hgc hsaw hdone
    exact hremembers hdone fun hs => h.late gc hgc hsaw ((status_of_data hdata).trans hs)

/-- What the step of the collection is to the file. -/
structure GcEffect (file : AudioFile σ) (pc : GcPc) (fileData : FileData σ) (verdict : Verdict)
    (fileData' : FileData σ) : Prop where
  settled : Settled file fileData'
  reached : verdict.Reached file fileData'
  /-- A file that is streamed is left alone. -/
  streaming : fileData' = fileData ∨ fileData.status ≠ .streaming ∧ fileData'.status ≠ .streaming
  unloaded : verdict.Unloaded = true →
    fileData'.status = .preloaded ∨ fileData' = fileData ∧ pc.SawPreloaded = true

/-- The spec of a step of the collection. -/
theorem gc_step_spec {fileData fileData' : FileData σ} {pc : GcPc} {moved : AudioBuffer σ}
    {verdict : Verdict} (hpc : Collecting file fileData pc) (hsettled : Settled file fileData)
    (hstep : pc.step moved fileData = (verdict, fileData')) :
    GcEffect file pc fileData verdict fileData' := by
  cases pc with
  | load =>
      have hne : fileData.status ≠ .garbageCollecting := hpc
      simp only [GcPc.step] at hstep
      split at hstep
      next hpreloaded =>
        obtain ⟨rfl, rfl⟩ := Prod.mk.inj hstep
        exact ⟨hsettled, hne, .inl rfl, fun _ => .inl hpreloaded⟩
      next hdone =>
        obtain ⟨rfl, rfl⟩ := Prod.mk.inj hstep
        exact ⟨hsettled, .inl ⟨rfl, hdone⟩, .inl rfl, nofun⟩
      next =>
        obtain ⟨rfl, rfl⟩ := Prod.mk.inj hstep
        exact ⟨hsettled, hne, .inl rfl, nofun⟩
  | frames =>
      have hne : fileData.status ≠ .garbageCollecting := hpc
      simp only [GcPc.step] at hstep
      split at hstep
      next =>
        obtain ⟨rfl, rfl⟩ := Prod.mk.inj hstep
        exact ⟨hsettled, hne, .inl rfl, fun _ => .inr ⟨rfl, rfl⟩⟩
      next hframes =>
        obtain ⟨rfl, rfl⟩ := Prod.mk.inj hstep
        -- a file with frames has been taken by a job since its status was loaded
        refine ⟨hsettled, .inr ⟨rfl, ?_⟩, .inl rfl, fun _ => .inr ⟨rfl, rfl⟩⟩
        rw [Settled] at hsettled
        split at hsettled
        next => exact hsettled.elim
        next => exact absurd hsettled hframes
        next hdone => exact .inr hdone
        next hstreaming => exact .inl hstreaming
        next hgc => exact absurd hgc hne
  | exchange status =>
      simp only [GcPc.step] at hstep
      split at hstep
      next heq =>
        obtain ⟨rfl, rfl⟩ := Prod.mk.inj hstep
        rcases hpc with ⟨rfl, hdone⟩ | ⟨rfl, hloading⟩
        · rw [Settled, hdone] at hsettled
          refine ⟨trivial, ⟨rfl, rfl, hsettled⟩, .inr ⟨?_, nofun⟩, nofun⟩
          rw [hdone]
          nofun
        · rw [heq] at hloading
          rcases hloading with hs | hs <;> cases hs
      next =>
        obtain ⟨rfl, rfl⟩ := Prod.mk.inj hstep
        refine ⟨hsettled, ?_, .inl rfl, nofun⟩
        rcases hpc with ⟨-, hs⟩ | ⟨-, hs | hs⟩ <;> rw [Verdict.Reached, hs] <;> nofun
  | recheck status =>
      obtain ⟨rfl, hgc, hholds⟩ := hpc
      obtain ⟨rfl, rfl⟩ := Prod.mk.inj hstep
      refine ⟨hsettled, ?_, .inl rfl, ?_⟩
      · show Collecting file fileData (if fileData.readerCount = 0 then .reset else .restore .done)
        split
        · exact ⟨hgc, hholds⟩
        · exact ⟨rfl, hgc, hholds⟩
      · intro hunloaded
        simp only [Verdict.Unloaded] at hunloaded
        split at hunloaded <;> cases hunloaded
  | restore status =>
      obtain ⟨rfl, hgc, hholds⟩ := hpc
      obtain ⟨rfl, rfl⟩ := Prod.mk.inj hstep
      exact ⟨hholds, nofun, .inr ⟨by rw [hgc]; nofun, nofun⟩, nofun⟩
  | reset =>
      obtain ⟨hgc, -⟩ := hpc
      obtain ⟨rfl, rfl⟩ := Prod.mk.inj hstep
      have hne : fileData.status ≠ .streaming := by
        rw [hgc]
        nofun
      refine ⟨?_, ⟨hgc, rfl⟩, .inr ⟨hne, hne⟩, nofun⟩
      rw [Settled, hgc]
      trivial
  | move =>
      obtain ⟨hgc, hzero⟩ := hpc
      obtain ⟨rfl, rfl⟩ := Prod.mk.inj hstep
      have hne : fileData.status ≠ .streaming := by
        rw [hgc]
        nofun
      refine ⟨?_, ⟨hgc, hzero⟩, .inr ⟨hne, hne⟩, nofun⟩
      rw [Settled, hgc]
      trivial
  | release =>
      obtain ⟨hgc, hzero⟩ := hpc
      obtain ⟨rfl, rfl⟩ := Prod.mk.inj hstep
      exact ⟨hzero, nofun, .inr ⟨by rw [hgc]; nofun, nofun⟩, fun _ => .inl rfl⟩

/-- A step of the collection keeps the invariant. -/
theorem Inv.collect (h : Inv file fileChunkSize v) {fileData fileData' : FileData σ} {pc : GcPc}
    {moved : AudioBuffer σ} {verdict : Verdict} (hdata : v.data = some fileData)
    (hpc : v.collecting = some pc) (hstep : pc.step moved fileData = (verdict, fileData')) :
    Inv file fileChunkSize
      { v with
        data := some fileData'
        collecting := verdict.next
        remembered := if verdict.Removes then v.remembered - 1 else v.remembered } := by
  obtain ⟨hone, fd, hfd, hcollecting⟩ := h.collecting pc hpc
  obtain rfl := Option.some.inj (hdata.symm.trans hfd)
  have heffect := gc_step_spec hcollecting (h.settled _ hdata) hstep
  have howner := h.owner
  rw [status_of_data hdata] at howner
  -- where the collection takes the file for one that is not loaded, its job has not remembered it
  have hlate : verdict.Unloaded = true → fileData'.status = .done →
      0 < v.jobs.countP JobPc.Remembers := by
    intro hunloaded hdone
    rcases heffect.unloaded hunloaded with hs | ⟨rfl, hsaw⟩
    · exact Status.noConfusion (hs.symm.trans hdone)
    · exact h.late pc hpc hsaw ((status_of_data hdata).trans hdone)
  refine ⟨?_, ?_, ?_, ?_, ?_, ?_, ?_, ?_⟩
  · show v.jobs.countP JobPc.Owns = if fileData'.status = .streaming then 1 else 0
    rcases heffect.streaming with rfl | ⟨hne, hne'⟩
    · exact howner
    · rw [howner, if_neg hne, if_neg hne']
  · show (if verdict.Removes then v.remembered - 1 else v.remembered) ≤ 1
    split <;> omega
  · intro hdone hzero
    cases verdict with
    | goOn _ | keep => exact absurd (hone.symm.trans hzero) Nat.one_ne_zero
    | remove => exact hlate rfl hdone
  · intro q hq fd hfd
    obtain rfl := Option.some.inj hfd
    rcases heffect.streaming with rfl | ⟨hne, -⟩
    · exact h.working q hq _ hdata
    · rw [if_neg hne] at howner
      exact working_of_countP howner _ q hq
  · intro fd hfd
    obtain rfl := Option.some.inj hfd
    exact heffect.settled
  · intro hstatus
    cases verdict with
    | goOn pc' => exact Option.some_ne_none pc'
    | keep | remove => exact absurd hstatus heffect.reached
  · intro gc hgc
    cases verdict with
    | goOn pc' =>
        obtain rfl := Option.some.inj hgc
        exact ⟨hone, fileData', rfl, heffect.reached⟩
    | keep | remove => cases hgc
  · intro gc hgc hsaw hdone
    cases verdict with
    | goOn pc' =>
        obtain rfl := Option.some.inj hgc
        exact hlate hsaw hdone
    | keep | remove => cases hgc

/-- Whatever happens to a file keeps the invariant. -/
theorem Inv.step (h : Inv file fileChunkSize v) (hstep : Step file fileChunkSize v v') :
    Inv file fileChunkSize v' := by
  cases hstep with
  | insert fileData hnone hstatus hzero =>
      have howner := h.owner
      rw [status, hnone, if_neg (by nofun)] at howner
      refine ⟨?_, h.once, ?_, fun pc hpc fd _ => working_of_countP howner fd pc hpc, ?_, ?_, ?_, ?_⟩
      · show v.jobs.countP JobPc.Owns = if fileData.status = .streaming then 1 else 0
        rw [howner, hstatus]
        rfl
      · exact fun hdone => Status.noConfusion (hstatus.symm.trans hdone)
      · intro fd hfd
        obtain rfl := Option.some.inj hfd
        rw [Settled, hstatus]
        exact hzero
      · exact fun hgc => Status.noConfusion (hstatus.symm.trans hgc)
      · intro pc hpc
        obtain ⟨-, fd, hfd, -⟩ := h.collecting pc hpc
        exact absurd (hfd.symm.trans hnone) (Option.some_ne_none fd)
      · exact fun _ _ _ hdone => Status.noConfusion (hstatus.symm.trans hdone)
  | call fileData fileData' hdata hsame =>
      have howner := h.owner
      have hstatus : v.status = fileData'.status := (status_of_data hdata).trans hsame.status.symm
      rw [hstatus] at howner
      refine ⟨howner, h.once, fun hdone => h.known (hstatus.trans hdone), fun pc hpc fd hfd => ?_,
        fun fd hfd => ?_, fun hgc => h.collector (hstatus.trans hgc), fun pc hpc => ?_,
        fun pc hpc hsaw hdone => h.late pc hpc hsaw (hstatus.trans hdone)⟩
      · obtain rfl := Option.some.inj hfd
        exact hsame.working (h.working pc hpc _ hdata)
      · obtain rfl := Option.some.inj hfd
        exact hsame.settled (h.settled _ hdata)
      · obtain ⟨hone, fd, hfd, hcollecting⟩ := h.collecting pc hpc
        obtain rfl := Option.some.inj (hdata.symm.trans hfd)
        exact ⟨hone, fileData', rfl, hsame.collecting hcollecting⟩
  | enqueue =>
      have hcount : ∀ p : JobPc σ → Bool, p .start = false →
          (v.jobs ++ [JobPc.start]).countP p = v.jobs.countP p := by
        intro p hp
        rw [List.countP_append, List.countP_singleton, hp]
        rfl
      refine ⟨?_, h.once, ?_, ?_, h.settled, h.collector, h.collecting, ?_⟩
      · exact (hcount JobPc.Owns rfl).trans h.owner
      · intro hdone hzero
        exact (hcount JobPc.Remembers rfl).symm ▸ h.known hdone hzero
      · intro pc hpc fd hfd
        rcases List.mem_append.1 hpc with hpc | hpc
        · exact h.working pc hpc fd hfd
        · obtain rfl := List.mem_singleton.1 hpc
          trivial
      · intro pc hpc hsaw hdone
        exact (hcount JobPc.Remembers rfl).symm ▸ h.late pc hpc hsaw hdone
  | job fileData fileData' before after pc pc' opened reads hdata hjobs hreads hjob =>
      exact h.job hdata hjobs hreads hjob
  | remember before after hjobs hnone =>
      have howner := h.owner
      have honce := h.once
      rw [hjobs, countP_split] at howner
      refine ⟨?_, ?_, ?_, ?_, h.settled, h.collector, fun pc hpc => ?_, fun pc hpc => ?_⟩
      · show (before ++ .left :: after).countP JobPc.Owns = _
        rw [countP_split]
        exact howner
      · show (if v.remembered = 0 then 1 else v.remembered) ≤ 1
        split
        · exact le_rfl
        · exact honce
      · intro _ hzero
        have hne : (if v.remembered = 0 then 1 else v.remembered) ≠ 0 := by
          split
          · exact Nat.one_ne_zero
          · assumption
        exact absurd hzero hne
      · intro pc hpc fd hfd
        rcases List.mem_append.1 hpc with hpc | hpc
        · exact h.working pc (by rw [hjobs]; exact List.mem_append_left _ hpc) fd hfd
        · rcases List.mem_cons.1 hpc with rfl | hpc
          · trivial
          · refine h.working pc ?_ fd hfd
            rw [hjobs]
            exact List.mem_append_right _ (List.mem_cons_of_mem _ hpc)
      · exact absurd (hpc.symm.trans hnone) (Option.some_ne_none pc)
      · exact absurd (hpc.symm.trans hnone) (Option.some_ne_none pc)
  | remove remembered huses hnone hle =>
      have hzero : v.jobs.countP JobPc.Owns = 0 := by
        refine List.countP_eq_zero.2 fun pc hpc howns => ?_
        have hfalse := huses pc hpc
        cases pc with
        | remember | left => cases howns
        | start | load _ | exchange _ | prepare | stream _ | publish _ _ | finish => cases hfalse
      refine ⟨hzero, hle.trans h.once, nofun, nofun, nofun, nofun, fun pc hpc => ?_,
        fun pc hpc => ?_⟩
      · exact absurd (hpc.symm.trans hnone) (Option.some_ne_none pc)
      · exact absurd (hpc.symm.trans hnone) (Option.some_ne_none pc)
  | forget hnone =>
      have hinvalid : v.status = .invalid := by rw [status, hnone]
      refine ⟨h.owner, (Nat.sub_le ..).trans h.once, ?_, h.working, h.settled, h.collector,
        fun pc hpc => ?_, h.late⟩
      · exact fun hdone => Status.noConfusion (hinvalid.symm.trans hdone)
      · obtain ⟨-, fd, hfd, -⟩ := h.collecting pc hpc
        exact absurd (hfd.symm.trans hnone) (Option.some_ne_none fd)
  | visit fileData hdata hremembered hnone =>
      have honce := h.once
      have hnot : fileData.status ≠ .garbageCollecting := by
        intro hgc
        exact h.collector ((status_of_data hdata).trans hgc) hnone
      refine ⟨h.owner, honce, h.known, h.working, h.settled, fun _ => Option.some_ne_none _,
        fun pc hpc => ?_, fun pc hpc hsaw => ?_⟩
      · obtain rfl := Option.some.inj hpc
        exact ⟨by show v.remembered = 1; omega, fileData, hdata, hnot⟩
      · obtain rfl := Option.some.inj hpc
        cases hsaw
  | collect fileData fileData' pc moved verdict hdata hpc hcollect =>
      exact h.collect hdata hpc hcollect

/-- Where the frames of a file are counted, they are those of the file on the disk. -/
theorem Inv.published (h : Inv file fileChunkSize v) {fileData : FileData σ}
    (hdata : v.data = some fileData) : Published file fileData := by
  have hsettled := h.settled _ hdata
  cases hstatus : fileData.status with
  | invalid =>
      rw [Settled, hstatus] at hsettled
      exact hsettled.elim
  | preloaded =>
      rw [Settled, hstatus] at hsettled
      exact .inl hsettled
  | streaming =>
      have howner := h.owner
      rw [status_of_data hdata, hstatus, if_pos rfl] at howner
      obtain ⟨pc, hpc, howns⟩ := List.countP_pos_iff.1 (by omega : 0 < v.jobs.countP JobPc.Owns)
      exact published_of_working howns (h.working pc hpc _ hdata)
  | garbageCollecting =>
      have hne := h.collector ((status_of_data hdata).trans hstatus)
      obtain ⟨pc, hpc⟩ := Option.ne_none_iff_exists'.1 hne
      obtain ⟨-, fd, hfd, hcollecting⟩ := h.collecting pc hpc
      obtain rfl := Option.some.inj (hdata.symm.trans hfd)
      cases pc with
      | load | frames => exact absurd hstatus hcollecting
      | exchange _ =>
          rw [Collecting, hstatus] at hcollecting
          rcases hcollecting with ⟨-, hs⟩ | ⟨-, hs | hs⟩ <;> cases hs
      | recheck _ | restore _ => exact .inr ⟨_, le_rfl, hcollecting.2.2⟩
      | reset => exact .inr ⟨_, le_rfl, hcollecting.2⟩
      | move | release => exact .inl hcollecting.2
  | done =>
      rw [Settled, hstatus] at hsettled
      exact .inr ⟨_, le_rfl, hsettled⟩

end FileState

end Soundcan.Sfizz
