import Mathlib.Tactic
import Soundcan.Sfizz.Preload

/-!
# The files of another instrument

When an instrument is loaded, the pool resets the counts of its files, the regions ask for theirs,
and `removeUnusedPreloadedData` removes the files that have not been counted. Each call is followed
at one file (`FilePool.Effect`), and an invariant of the calls says which files they have counted
(`FilePool.Reloaded`), so which ones are left (`removeUnused_spec`).
-/

namespace Soundcan.Sfizz.FilePool

universe u v

variable {ι : Type u} {σ : Type v} [Zero σ] [DecidableEq ι] {root : RootDirectory ι σ}
  {pool pool' : FilePool ι σ} {fileId : ι}

/-! ## The calls -/

/-- The file is there, with one channel or two. -/
def Available (root : RootDirectory ι σ) (fileId : ι) : Prop :=
  root.has fileId = true ∧ (root.file fileId).getReaderInformation ≠ none

/-- The calls that a new instrument makes, between `resetPreloadCallCounts` and
`removeUnusedPreloadedData`. -/
def Asks : Call ι σ → Prop
  | .preloadFile _ _ | .loadFile _ | .loadFromRam _ _ => True
  | _ => False

/-- The calls that make a file a loaded one. -/
inductive Loads (root : RootDirectory ι σ) (fileId : ι) : Call ι σ → Prop where
  | loadFile : Available root fileId → Loads root fileId (.loadFile fileId)
  | loadFromRam (data : AudioFile σ) : Loads root fileId (.loadFromRam fileId data)

/-- The calls that count a file that is loaded; `loadFromRam` does not. -/
inductive Counts (fileId : ι) : Call ι σ → Prop where
  | preloadFile (maxOffset : Nat) : Counts fileId (.preloadFile fileId maxOffset)
  | loadFile : Counts fileId (.loadFile fileId)

/-- The file is asked for with `preloadFile` before anything loads it. -/
def Preloads (root : RootDirectory ι σ) (fileId : ι) (calls : List (Call ι σ)) : Prop :=
  Available root fileId ∧ ∃ before maxOffset after,
    calls = before ++ .preloadFile fileId maxOffset :: after ∧
      ∀ call ∈ before, ¬Loads root fileId call

omit [Zero σ] [DecidableEq ι] in
/-- One more request preloads a file if it is the first to ask for it and the file is available. -/
theorem preloads_concat {calls : List (Call ι σ)} {call : Call ι σ} :
    Preloads root fileId (calls ++ [call]) ↔ Preloads root fileId calls ∨
      Available root fileId ∧ (∃ maxOffset, call = .preloadFile fileId maxOffset) ∧
        ∀ call ∈ calls, ¬Loads root fileId call := by
  constructor
  · rintro ⟨havailable, before, maxOffset, after, heq, hbefore⟩
    rcases List.eq_nil_or_concat after with rfl | ⟨after, last, rfl⟩
    · obtain ⟨rfl, hlast⟩ := List.append_inj' heq rfl
      exact .inr ⟨havailable, ⟨maxOffset, List.head_eq_of_cons_eq hlast⟩, hbefore⟩
    · rw [List.concat_eq_append, ← List.cons_append, ← List.append_assoc] at heq
      exact .inl ⟨havailable, before, maxOffset, after, (List.append_inj' heq rfl).1, hbefore⟩
  · rintro (⟨havailable, before, maxOffset, after, rfl, hbefore⟩ |
      ⟨havailable, ⟨maxOffset, rfl⟩, hnone⟩)
    · exact ⟨havailable, before, maxOffset, after ++ [call], by simp, hbefore⟩
    · exact ⟨havailable, calls, maxOffset, [], rfl, hnone⟩

/-- What the calls of a new instrument have made of the pool `old`, at one file. -/
structure Reloaded (root : RootDirectory ι σ) (old : FilePool ι σ) (fileId : ι)
    (calls : List (Call ι σ)) (pool : FilePool ι σ) : Prop where
  available : pool.preloadedFiles fileId ≠ none → Available root fileId
  loaded : pool.loadedFiles fileId ≠ none ↔
    old.loadedFiles fileId ≠ none ∨ ∃ call ∈ calls, Loads root fileId call
  loadedCount : ∀ fileData, pool.loadedFiles fileId = some fileData →
    (fileData.preloadCallCount ≠ 0 ↔
      old.loadedFiles fileId = none ∨ ∃ call ∈ calls, Counts fileId call)
  preloadedCount : (∃ fileData, pool.preloadedFiles fileId = some fileData ∧
    fileData.preloadCallCount ≠ 0) ↔
      old.loadedFiles fileId = none ∧ Preloads root fileId calls

/-! ## One call at one file -/

/-- What a call does with one file. -/
inductive Effect (root : RootDirectory ι σ) (fileId : ι) (call : Call ι σ)
    (pool pool' : FilePool ι σ) : Prop where
  | untouched (loadedFiles : pool'.loadedFiles fileId = pool.loadedFiles fileId)
      (preloadedFiles : pool'.preloadedFiles fileId = pool.preloadedFiles fileId)
      (ofNone : pool.loadedFiles fileId = none → ¬Loads root fileId call ∧
        (Available root fileId → ∀ maxOffset, call ≠ .preloadFile fileId maxOffset))
      (ofSome : pool.loadedFiles fileId ≠ none → ¬Counts fileId call)
  | counted (fileData : FileData σ) (before : pool.loadedFiles fileId = some fileData)
      (loadedFiles : pool'.loadedFiles fileId =
        some { fileData with preloadCallCount := fileData.preloadCallCount + 1 })
      (preloadedFiles : pool'.preloadedFiles fileId = pool.preloadedFiles fileId)
      (counts : Counts fileId call)
  | loaded (fileData : FileData σ) (before : pool.loadedFiles fileId = none)
      (loadedFiles : pool'.loadedFiles fileId = some fileData)
      (preloadCallCount : fileData.preloadCallCount = 1)
      (preloadedFiles : pool'.preloadedFiles fileId = pool.preloadedFiles fileId)
      (loads : Loads root fileId call)
  | preloaded (fileData : FileData σ) (before : pool.loadedFiles fileId = none)
      (loadedFiles : pool'.loadedFiles fileId = none)
      (preloadedFiles : pool'.preloadedFiles fileId = some fileData)
      (preloadCallCount : fileData.preloadCallCount ≠ 0) (available : Available root fileId)
      (maxOffset : Nat) (preloads : call = .preloadFile fileId maxOffset)

omit [Zero σ] [DecidableEq ι] in
/-- No information is had of a file that is neither loaded nor available. -/
theorem getFileInformation_eq_none (h : pool.getFileInformation root fileId = none) :
    pool.loadedFiles fileId = none ∧ ¬Available root fileId := by
  unfold getFileInformation at h
  split at h
  next => cases h
  next hexisting =>
    unfold checkExistingFileInformation at hexisting
    split at hexisting
    next => cases hexisting
    next hloaded =>
      refine ⟨hloaded, fun ⟨hhas, hinformation⟩ => hinformation ?_⟩
      rwa [if_pos hhas] at h

omit [Zero σ] [DecidableEq ι] in
/-- Information about a file that is not loaded is had from the disk. -/
theorem available_of_getFileInformation {information : FileInformation}
    (havailable : pool.preloadedFiles fileId ≠ none → Available root fileId)
    (hloaded : pool.loadedFiles fileId = none)
    (h : pool.getFileInformation root fileId = some information) : Available root fileId := by
  simp only [getFileInformation, checkExistingFileInformation, hloaded] at h
  cases hpreloaded : pool.preloadedFiles fileId with
  | some fileData =>
      refine havailable ?_
      rw [hpreloaded]
      exact Option.some_ne_none fileData
  | none =>
      rw [hpreloaded] at h
      simp only [Option.map_none] at h
      split at h
      next hhas => exact ⟨hhas, by rw [h]; exact Option.some_ne_none information⟩
      next => cases h

/-- `preloadFile` counts the request, or preloads the file for it. -/
theorem effect_preloadFile (havailable : pool.preloadedFiles fileId ≠ none → Available root fileId)
    (maxOffset : Nat) :
    Effect root fileId (.preloadFile fileId maxOffset) pool
      ((pool.preloadFile root fileId maxOffset).getD pool) := by
  cases hcall : pool.preloadFile root fileId maxOffset with
  | none =>
      have hnone : pool.loadedFiles fileId = none ∧ pool.getFileInformation root fileId = none := by
        unfold preloadFile at hcall
        split at hcall
        next => cases hcall
        next hloaded => exact ⟨hloaded, Option.map_eq_none_iff.1 hcall⟩
      refine .untouched rfl rfl (fun _ => ⟨nofun, fun hav => ?_⟩) (absurd hnone.1)
      exact absurd hav (getFileInformation_eq_none hnone.2).2
  | some pool' =>
      rcases preloadFile_cases hcall with ⟨fileData, hloaded, rfl⟩ | ⟨hloaded, new, rfl, hnew⟩
      · exact .counted fileData hloaded (Function.update_self ..) rfl (.preloadFile maxOffset)
      · have hav : Available root fileId := by
          rcases hnew with ⟨existing, hexisting, -⟩ | ⟨-, information, hhas, hinformation, -⟩
          · refine havailable ?_
            rw [hexisting]
            exact Option.some_ne_none existing
          · exact ⟨hhas, by rw [hinformation]; exact Option.some_ne_none information⟩
        refine .preloaded new hloaded hloaded (Function.update_self ..) ?_ hav maxOffset rfl
        rcases hnew with ⟨existing, -, rfl⟩ | ⟨-, information, -, -, rfl⟩
        · unfold preloadExisting
          split <;> exact Nat.succ_ne_zero _
        · exact Nat.one_ne_zero

/-- `loadFile` counts the request where the file is preloaded, or loads it. -/
theorem effect_loadFile (havailable : pool.preloadedFiles fileId ≠ none → Available root fileId) :
    Effect root fileId (.loadFile fileId) pool ((pool.loadFile root fileId).getD pool) := by
  cases hcall : pool.loadFile root fileId with
  | none =>
      obtain ⟨hloaded, hnot⟩ := getFileInformation_eq_none (Option.map_eq_none_iff.1 hcall)
      refine .untouched rfl rfl (fun _ => ⟨?_, fun _ _ => nofun⟩) (absurd hloaded)
      rintro ⟨hav⟩
      exact hnot hav
  | some pool' =>
      obtain ⟨information, hinformation, rfl⟩ := Option.map_eq_some_iff.1 hcall
      cases hloaded : pool.loadedFiles fileId with
      | some fileData => exact .counted fileData hloaded (Function.update_self ..) rfl .loadFile
      | none =>
          have hav := available_of_getFileInformation havailable hloaded hinformation
          exact .loaded _ hloaded (Function.update_self ..) rfl rfl (.loadFile hav)

/-- `loadFromRam` loads the file it is given, and preloads nothing. -/
theorem effect_loadFromRam {data : AudioFile σ}
    (h : pool.loadFromRam fileId data = some pool') :
    Effect root fileId (.loadFromRam fileId data) pool pool' := by
  unfold loadFromRam at h
  split at h
  next fileData hloaded =>
    obtain rfl := Option.some.inj h
    refine .untouched rfl rfl (fun hnone => ?_) fun _ => nofun
    rw [hloaded] at hnone
    cases hnone
  next hloaded =>
    obtain ⟨information, -, rfl⟩ := Option.map_eq_some_iff.1 h
    exact .loaded _ hloaded (Function.update_self ..) rfl rfl (.loadFromRam data)

omit [Zero σ] [DecidableEq ι] in
/-- The other files are left alone. -/
theorem effect_of_ne {call : Call ι σ} (hloads : ¬Loads root fileId call)
    (hcounts : ¬Counts fileId call)
    (hloaded : pool'.loadedFiles fileId = pool.loadedFiles fileId)
    (hpreloaded : pool'.preloadedFiles fileId = pool.preloadedFiles fileId) :
    Effect root fileId call pool pool' := by
  refine .untouched hloaded hpreloaded (fun _ => ⟨hloads, fun _ maxOffset heq => hcounts ?_⟩)
    fun _ => hcounts
  rw [heq]
  exact .preloadFile maxOffset

/-- The effect of a request, whichever it is. -/
theorem effect_of_perform (havailable : pool.preloadedFiles fileId ≠ none → Available root fileId)
    {call : Call ι σ} (hasks : Asks call) (hstep : pool.perform root call = some pool') :
    Effect root fileId call pool pool' := by
  cases call with
  | preloadFile id maxOffset =>
      obtain rfl := Option.some.inj hstep
      rcases eq_or_ne fileId id with rfl | hne
      · exact effect_preloadFile havailable maxOffset
      · cases hcall : pool.preloadFile root id maxOffset with
        | none => exact effect_of_ne nofun (by rintro ⟨⟩; exact hne rfl) rfl rfl
        | some pool' =>
            rcases preloadFile_cases hcall with ⟨fileData, -, rfl⟩ | ⟨-, new, rfl, -⟩
            · exact effect_of_ne nofun (by rintro ⟨⟩; exact hne rfl)
                (Function.update_of_ne hne _ _) rfl
            · exact effect_of_ne nofun (by rintro ⟨⟩; exact hne rfl) rfl
                (Function.update_of_ne hne _ _)
  | loadFile id =>
      obtain rfl := Option.some.inj hstep
      rcases eq_or_ne fileId id with rfl | hne
      · exact effect_loadFile havailable
      · cases hcall : pool.loadFile root id with
        | none =>
            exact effect_of_ne (by rintro ⟨⟩; exact hne rfl) (by rintro ⟨⟩; exact hne rfl) rfl rfl
        | some pool' =>
            obtain ⟨information, -, rfl⟩ := Option.map_eq_some_iff.1 hcall
            exact effect_of_ne (by rintro ⟨⟩; exact hne rfl) (by rintro ⟨⟩; exact hne rfl)
              (Function.update_of_ne hne _ _) rfl
  | loadFromRam id data =>
      rcases eq_or_ne fileId id with rfl | hne
      · exact effect_loadFromRam hstep
      · simp only [FilePool.perform, FilePool.loadFromRam] at hstep
        split at hstep
        next =>
          obtain rfl := Option.some.inj hstep
          exact effect_of_ne (by rintro ⟨⟩; exact hne rfl) nofun rfl rfl
        next =>
          obtain ⟨information, -, rfl⟩ := Option.map_eq_some_iff.1 hstep
          exact effect_of_ne (by rintro ⟨⟩; exact hne rfl) nofun (Function.update_of_ne hne _ _) rfl
  | setPreloadSize _ | setRamLoading _ | resetPreloadCallCounts | removeUnusedPreloadedData =>
      exact hasks.elim

/-! ## All calls of an instrument -/

omit [Zero σ] [DecidableEq ι] in
/-- A request with a property is among the earlier ones, or it is the last. -/
theorem exists_mem_concat {P : Call ι σ → Prop} {calls : List (Call ι σ)} {call : Call ι σ} :
    (∃ c ∈ calls ++ [call], P c) ↔ (∃ c ∈ calls, P c) ∨ P call := by
  simp only [List.mem_append, List.mem_singleton, or_and_right, exists_or, exists_eq_left]

namespace Reloaded

variable {old : FilePool ι σ} {calls : List (Call ι σ)} {call : Call ι σ}

omit [Zero σ] [DecidableEq ι] in
/-- A file is not loaded behind the requests if it was not before, and none of them loads it. -/
theorem loadedFiles_eq_none (h : Reloaded root old fileId calls pool) :
    pool.loadedFiles fileId = none ↔
      old.loadedFiles fileId = none ∧ ∀ call ∈ calls, ¬Loads root fileId call := by
  have hnot := not_congr h.loaded
  push Not at hnot
  exact hnot

omit [Zero σ] [DecidableEq ι] in
/-- Where the call is not a first one for a file that is not loaded, `preloadFile` asks for no
more. -/
theorem preloads_concat_iff (h : Reloaded root old fileId calls pool)
    (hcall : pool.loadedFiles fileId = none → Available root fileId →
      ∀ maxOffset, call ≠ .preloadFile fileId maxOffset) :
    (old.loadedFiles fileId = none ∧ Preloads root fileId (calls ++ [call])) ↔
      old.loadedFiles fileId = none ∧ Preloads root fileId calls := by
  rw [preloads_concat]
  constructor
  · rintro ⟨hold, hpreloads | ⟨hav, ⟨maxOffset, heq⟩, hnone⟩⟩
    · exact ⟨hold, hpreloads⟩
    · exact absurd heq (hcall (h.loadedFiles_eq_none.2 ⟨hold, hnone⟩) hav maxOffset)
  · exact fun ⟨hold, hpreloads⟩ => ⟨hold, .inl hpreloads⟩

omit [Zero σ] [DecidableEq ι] in
/-- What the requests have made of a file, with one request more. -/
theorem of_effect (h : Reloaded root old fileId calls pool)
    (heffect : Effect root fileId call pool pool') :
    Reloaded root old fileId (calls ++ [call]) pool' := by
  cases heffect with
  | untouched hloaded hpreloaded hnone hsome =>
      refine ⟨?_, ?_, ?_, ?_⟩
      · rw [hpreloaded]
        exact h.available
      · rw [hloaded, exists_mem_concat, ← or_assoc, ← h.loaded]
        exact ⟨.inl, fun hor => hor.elim id fun hloads => fun heq => (hnone heq).1 hloads⟩
      · intro fileData hfileData
        rw [hloaded] at hfileData
        have hnot : ¬Counts fileId call := hsome (by rw [hfileData]; exact Option.some_ne_none _)
        rw [h.loadedCount fileData hfileData, exists_mem_concat, or_iff_left hnot]
      · rw [hpreloaded, h.preloadedCount,
          h.preloads_concat_iff fun heq hav => (hnone heq).2 hav]
  | counted fileData hbefore hloaded hpreloaded hcounts =>
      have hne : pool.loadedFiles fileId ≠ none := by
        rw [hbefore]
        exact Option.some_ne_none fileData
      refine ⟨?_, ?_, ?_, ?_⟩
      · rw [hpreloaded]
        exact h.available
      · rw [exists_mem_concat, ← or_assoc, ← h.loaded, hloaded]
        exact iff_of_true (Option.some_ne_none _) (.inl hne)
      · intro fileData' hfileData
        rw [hloaded] at hfileData
        obtain rfl := Option.some.inj hfileData
        rw [exists_mem_concat]
        exact iff_of_true (Nat.succ_ne_zero _) (.inr (.inr hcounts))
      · rw [hpreloaded, h.preloadedCount, h.preloads_concat_iff fun heq => absurd heq hne]
  | loaded fileData hbefore hloaded hone hpreloaded hloads =>
      refine ⟨?_, ?_, ?_, ?_⟩
      · rw [hpreloaded]
        exact h.available
      · rw [exists_mem_concat, hloaded]
        exact iff_of_true (Option.some_ne_none _) (.inr (.inr hloads))
      · intro fileData' hfileData
        rw [hloaded] at hfileData
        obtain rfl := Option.some.inj hfileData
        refine iff_of_true ?_ (.inl (h.loadedFiles_eq_none.1 hbefore).1)
        rw [hone]
        exact Nat.one_ne_zero
      · rw [hpreloaded, h.preloadedCount, h.preloads_concat_iff fun _ _ maxOffset heq => ?_]
        rw [heq] at hloads
        cases hloads
  | preloaded fileData hbefore hloaded hpreloaded hcount hav maxOffset hcall =>
      obtain ⟨hold, hnone⟩ := h.loadedFiles_eq_none.1 hbefore
      refine ⟨fun _ => hav, ?_, ?_, ?_⟩
      · rw [exists_mem_concat, ← or_assoc, ← h.loaded, hloaded, hbefore, hcall]
        exact ⟨fun hne => absurd rfl hne, fun hor => hor.elim id nofun⟩
      · intro fileData' hfileData
        rw [hloaded] at hfileData
        cases hfileData
      · rw [preloads_concat]
        exact iff_of_true ⟨fileData, hpreloaded, hcount⟩
          ⟨hold, .inr ⟨hav, ⟨maxOffset, hcall⟩, hnone⟩⟩

end Reloaded

/-! ## What is left -/

omit [DecidableEq ι] in
/-- The preload size takes no file away. -/
theorem setPreloadSize_eq_none {preloadSize : Nat} (h : pool.preloadedFiles fileId = none) :
    (pool.setPreloadSize root preloadSize).preloadedFiles fileId = none := by
  unfold setPreloadSize
  split
  · exact h
  · simp only [h, Option.map_none]

omit [DecidableEq ι] in
/-- `setRamLoading` preloads no file that is not preloaded. -/
theorem setRamLoading_eq_none {loadInRam : Bool} (h : pool.preloadedFiles fileId = none) :
    (pool.setRamLoading root loadInRam).preloadedFiles fileId = none := by
  unfold setRamLoading
  split
  · exact h
  · split
    · simp only [h, Option.map_none]
    · exact setPreloadSize_eq_none h

/-- In every history, a file that is preloaded is there. -/
theorem available_of_run {calls : List (Call ι σ)} (h : (system root).Run calls pool)
    (hne : pool.preloadedFiles fileId ≠ none) : Available root fileId := by
  refine h.invariant
    (I := fun _ pool => pool.preloadedFiles fileId ≠ none → Available root fileId) ?_ ?_ hne
  · rintro pool ⟨hnone, -⟩ hne
    rw [hnone] at hne
    exact absurd rfl hne
  · intro _ pool call pool' _ hpool hstep hne
    cases call with
    | preloadFile _ _ | loadFile _ | loadFromRam _ _ =>
        cases effect_of_perform hpool (by exact trivial) hstep with
        | untouched _ hpreloaded | counted _ _ _ hpreloaded | loaded _ _ _ _ hpreloaded =>
            rw [hpreloaded] at hne
            exact hpool hne
        | preloaded _ _ _ _ _ hav => exact hav
    | setPreloadSize preloadSize =>
        obtain rfl := Option.some.inj hstep
        exact hpool fun hnone => hne (setPreloadSize_eq_none hnone)
    | setRamLoading loadInRam =>
        obtain rfl := Option.some.inj hstep
        exact hpool fun hnone => hne (setRamLoading_eq_none hnone)
    | resetPreloadCallCounts =>
        obtain rfl := Option.some.inj hstep
        refine hpool fun hnone => hne ?_
        simp only [resetPreloadCallCounts, hnone, Option.map_none]
    | removeUnusedPreloadedData =>
        obtain rfl := Option.some.inj hstep
        refine hpool fun hnone => hne ?_
        simp only [removeUnusedPreloadedData, hnone, Option.filter_none]

omit [Zero σ] [DecidableEq ι] in
/-- Before the first request all the counts are zero. -/
theorem reloaded_nil (havailable : pool.preloadedFiles fileId ≠ none → Available root fileId) :
    Reloaded root pool fileId [] pool.resetPreloadCallCounts where
  available hne := by
    refine havailable fun hnone => hne ?_
    simp only [resetPreloadCallCounts, hnone, Option.map_none]
  loaded := by simp [resetPreloadCallCounts]
  loadedCount fileData hfileData := by
    obtain ⟨old, hold, rfl⟩ := Option.map_eq_some_iff.1 hfileData
    simp [hold]
  preloadedCount := by
    simp [resetPreloadCallCounts, Preloads]

omit [Zero σ] [DecidableEq ι] in
/-- Filtering leaves an option some value only if the value passes. -/
theorem filter_ne_none {o : Option (FileData σ)} {p : FileData σ → Bool} :
    o.filter p ≠ none ↔ ∃ fileData, o = some fileData ∧ p fileData = true := by
  rw [Option.ne_none_iff_exists']
  simp only [Option.filter_eq_some_iff]

/-- What `removeUnusedPreloadedData` leaves of the pool behind the calls of a new instrument: the
files that `preloadFile` has asked for before anything has loaded them, and of the loaded ones
those that were loaded now or counted; `loadFromRam` alone does not keep a file that was loaded
before. -/
theorem removeUnused_spec {calls news : List (Call ι σ)} {old : FilePool ι σ}
    (hold : (system root).Run calls old) (hasks : ∀ call ∈ news, Asks call)
    (hnews : news.foldlM (fun pool call => pool.perform root call) old.resetPreloadCallCounts =
      some pool) :
    (pool.removeUnusedPreloadedData.preloadedFiles fileId ≠ none ↔
      old.loadedFiles fileId = none ∧ Preloads root fileId news) ∧
    (pool.removeUnusedPreloadedData.loadedFiles fileId ≠ none ↔
      if old.loadedFiles fileId = none then ∃ call ∈ news, Loads root fileId call
      else ∃ call ∈ news, Counts fileId call) := by
  have hreloaded : Reloaded root old fileId news pool := by
    refine Lts.invariant_of_foldlM
      (I := fun news pool => (∀ call ∈ news, Asks call) → Reloaded root old fileId news pool)
      hnews (fun _ => reloaded_nil (available_of_run hold)) ?_ hasks
    intro taken pool call pool' htaken hstep hall
    have hpool := htaken fun c hc => hall c (List.mem_append_left _ hc)
    have hcall := hall call (List.mem_append_right _ List.mem_cons_self)
    exact hpool.of_effect (effect_of_perform hpool.available hcall hstep)
  constructor
  · rw [← hreloaded.preloadedCount, removeUnusedPreloadedData]
    simp only [filter_ne_none, decide_eq_true_eq]
  · rw [removeUnusedPreloadedData]
    simp only [filter_ne_none, decide_eq_true_eq]
    split
    next hnone =>
      constructor
      · rintro ⟨fileData, hfileData, -⟩
        refine (hreloaded.loaded.1 ?_).resolve_left (absurd hnone)
        rw [hfileData]
        exact Option.some_ne_none fileData
      · intro hloads
        obtain ⟨fileData, hfileData⟩ :=
          Option.ne_none_iff_exists'.1 (hreloaded.loaded.2 (.inr hloads))
        exact ⟨fileData, hfileData, (hreloaded.loadedCount fileData hfileData).2 (.inl hnone)⟩
    next hsome =>
      constructor
      · rintro ⟨fileData, hfileData, hcount⟩
        exact ((hreloaded.loadedCount fileData hfileData).1 hcount).resolve_left hsome
      · intro hcounts
        obtain ⟨fileData, hfileData⟩ :=
          Option.ne_none_iff_exists'.1 (hreloaded.loaded.2 (.inl hsome))
        exact ⟨fileData, hfileData, (hreloaded.loadedCount fileData hfileData).2 (.inr hcounts)⟩

/-- A directory with three files. -/
def threeFiles : RootDirectory (Fin 3) Int := ⟨fun _ => true, fun _ => threeFrames.file ()⟩

/-- One instrument: it preloads two files and loads the third. -/
def firstCalls : List (Call (Fin 3) Int) := [.preloadFile 0 0, .preloadFile 1 0, .loadFile 2]

/-- The next one: it preloads the first file again, and has the third one in memory. -/
def nextCalls : List (Call (Fin 3) Int) :=
  [.preloadFile 0 1, .loadFromRam 2 (threeFrames.file ())]

/-- Of the files of one instrument the first stays, that the next one asks for; the second goes, and
so does the third, that is only had from memory. -/
theorem removeUnused_two_preloaded :
    ∃ old pool, (system threeFiles).Run firstCalls old ∧
      nextCalls.foldlM (fun pool call => pool.perform threeFiles call)
        old.resetPreloadCallCounts = some pool ∧
      pool.removeUnusedPreloadedData.preloadedFiles 0 ≠ none ∧
      pool.removeUnusedPreloadedData.preloadedFiles 1 = none ∧
      pool.removeUnusedPreloadedData.loadedFiles 2 = none := by
  obtain ⟨old, pool, hcalls, hnone, hsome, hnews⟩ : ∃ old pool,
      firstCalls.foldlM (fun pool call => perform threeFiles pool call)
        ⟨fun _ => none, fun _ => none, 2, false⟩ = some old ∧
      old.loadedFiles 0 = none ∧ old.loadedFiles 2 ≠ none ∧
      nextCalls.foldlM (fun pool call => perform threeFiles pool call)
        old.resetPreloadCallCounts = some pool := ⟨_, _, rfl, rfl, nofun, rfl⟩
  have hrun : (system threeFiles).Run firstCalls old :=
    Lts.run_of_foldlM (fun _ _ _ h => h) ⟨rfl, rfl⟩ hcalls
  have hasks : ∀ call ∈ nextCalls, Asks call := by
    simp [nextCalls, Asks]
  refine ⟨old, pool, hrun, hnews, ?_, ?_, ?_⟩
  · exact (removeUnused_spec hrun hasks hnews).1.2 ⟨hnone, ⟨rfl, nofun⟩, [], 1, _, rfl, nofun⟩
  · by_contra hne
    obtain ⟨-, -, before, maxOffset, after, heq, -⟩ :=
      (removeUnused_spec hrun hasks hnews).1.1 hne
    have hmem : Call.preloadFile 1 maxOffset ∈ nextCalls := by
      rw [heq]
      exact List.mem_append_right _ List.mem_cons_self
    simp [nextCalls] at hmem
  · by_contra hne
    have hcounts := (removeUnused_spec hrun hasks hnews).2.1 hne
    rw [if_neg hsome] at hcounts
    obtain ⟨call, hmem, hcall⟩ := hcounts
    rcases hcall with ⟨maxOffset⟩ | _
    · simp [nextCalls] at hmem
    · simp [nextCalls] at hmem

end Soundcan.Sfizz.FilePool
