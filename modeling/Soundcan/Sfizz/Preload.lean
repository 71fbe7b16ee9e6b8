import Mathlib.Logic.Function.Basic
import Mathlib.Tactic
import Soundcan.Lib.Transition
import Soundcan.Sfizz.Streaming

/-!
# Preloading

The `FilePool` keeps the beginning of each file that the regions of an instrument ask for, as far as
their offsets and the preload size need, or the whole file where it loads in RAM. A file that is
marked as fully loaded is never streamed. Over all histories of calls, what is kept is the beginning
of the file, and the mark says that nothing is missing, but for the files that the switch to RAM
loading reads again, which lack their last frame (`Preloaded`).
-/

namespace Soundcan.Sfizz

universe u v

variable {ι : Type u} {σ : Type v}

/-! ## The data of a file -/

namespace AudioFile

/-- `readFromFile`: the first frames; no channel where the file has neither one nor two. -/
def readFromFile [Zero σ] (file : AudioFile σ) (numFrames : Nat) : AudioBuffer σ where
  numChannels := if file.channels = 1 ∨ file.channels = 2 then file.channels else 0
  numFrames
  sample c f := if f < file.frames then file.sample f c else 0

@[simp] theorem numFrames_readFromFile [Zero σ] (file : AudioFile σ) (n : Nat) :
    (file.readFromFile n).numFrames = n :=
  rfl

end AudioFile

/-- `FileInformation`, as far as the pool uses it; `lastFrame` is its `end`. -/
structure FileInformation where
  lastFrame : Nat
  maxOffset : Nat

/-- `FileData::Status`. -/
inductive Status where
  | invalid
  | preloaded
  | streaming
  | garbageCollecting
  | done
  deriving DecidableEq, Repr

/-- `FileData`. -/
structure FileData (σ : Type v) where
  preloadedData : AudioBuffer σ
  information : FileInformation
  fileData : AudioBuffer σ
  preloadCallCount : Nat
  status : Status
  availableFrames : Nat
  readerCount : Nat
  fullyLoaded : Bool

/-- The directory of the pool. -/
structure RootDirectory (ι : Type u) (σ : Type v) where
  has : ι → Bool
  file : ι → AudioFile σ

/-- The members of the `FilePool` that the calls below work on. -/
structure FilePool (ι : Type u) (σ : Type v) where
  preloadedFiles : ι → Option (FileData σ)
  loadedFiles : ι → Option (FileData σ)
  preloadSize : Nat
  loadInRam : Bool

/-- `getReaderInformation`; the last frame is computed in 32 bits. -/
def AudioFile.getReaderInformation (file : AudioFile σ) : Option FileInformation :=
  if file.channels ≠ 1 ∧ file.channels ≠ 2 then none
  else some ⟨(file.frames % 2 ^ 32 + (2 ^ 32 - 1)) % 2 ^ 32, 0⟩

/-- A `FileData` behind its constructor, counted once and with its status stored. -/
def FileData.loaded [Zero σ] (preloadedData : AudioBuffer σ) (information : FileInformation)
    (fullyLoaded : Bool) : FileData σ where
  preloadedData
  information
  fileData := .cleared 0 0
  preloadCallCount := 1
  status := .preloaded
  availableFrames := 0
  readerCount := 0
  fullyLoaded

/-! ## The calls -/

namespace FilePool

variable [Zero σ] [DecidableEq ι]

/-- `checkExistingFileInformation`. -/
def checkExistingFileInformation (pool : FilePool ι σ) (fileId : ι) : Option FileInformation :=
  match pool.loadedFiles fileId with
  | some loadedFile => some loadedFile.information
  | none => (pool.preloadedFiles fileId).map FileData.information

/-- `getFileInformation`. -/
def getFileInformation (root : RootDirectory ι σ) (pool : FilePool ι σ) (fileId : ι) :
    Option FileInformation :=
  match pool.checkExistingFileInformation fileId with
  | some information => some information
  | none => if root.has fileId then (root.file fileId).getReaderInformation else none

/-- The frames that `preloadFile` loads, in 32 bits. -/
def framesToLoad (pool : FilePool ι σ) (frames maxOffset : Nat) : Nat :=
  if pool.loadInRam then frames else min frames ((maxOffset + pool.preloadSize) % 2 ^ 32)

omit [Zero σ] [DecidableEq ι] in
/-- No more frames are to be loaded than the file has. -/
theorem framesToLoad_le (pool : FilePool ι σ) (frames maxOffset : Nat) :
    pool.framesToLoad frames maxOffset ≤ frames := by
  unfold framesToLoad
  split
  · exact le_rfl
  · exact min_le_left _ _

/-- What `preloadFile` does with a file that is preloaded. -/
def preloadExisting (file : AudioFile σ) (framesToLoad maxOffset : Nat) (fileData : FileData σ) :
    FileData σ :=
  if framesToLoad > fileData.preloadedData.numFrames then
    { fileData with
      information := { fileData.information with maxOffset }
      preloadedData := file.readFromFile framesToLoad
      fullyLoaded := decide (file.frames % 2 ^ 32 = framesToLoad)
      preloadCallCount := fileData.preloadCallCount + 1 }
  else { fileData with preloadCallCount := fileData.preloadCallCount + 1 }

/-- `preloadFile`, where it returns `true`. -/
def preloadFile (root : RootDirectory ι σ) (fileId : ι) (maxOffset : Nat) (pool : FilePool ι σ) :
    Option (FilePool ι σ) :=
  match pool.loadedFiles fileId with
  | some loadedFile =>
      some { pool with
        loadedFiles := Function.update pool.loadedFiles fileId
          (some { loadedFile with preloadCallCount := loadedFile.preloadCallCount + 1 }) }
  | none => (pool.getFileInformation root fileId).map fun information =>
      let file := root.file fileId
      let frames := file.frames % 2 ^ 32
      let framesToLoad := pool.framesToLoad frames maxOffset
      let fileData := match pool.preloadedFiles fileId with
        | some fileData => preloadExisting file framesToLoad maxOffset fileData
        | none => .loaded (file.readFromFile framesToLoad) { information with maxOffset }
            (decide (framesToLoad = frames))
      { pool with preloadedFiles := Function.update pool.preloadedFiles fileId (some fileData) }

/-- `loadFile`, where it returns a file. -/
def loadFile (root : RootDirectory ι σ) (fileId : ι) (pool : FilePool ι σ) :
    Option (FilePool ι σ) :=
  (pool.getFileInformation root fileId).map fun information =>
    let fileData := match pool.loadedFiles fileId with
      | some loadedFile => { loadedFile with preloadCallCount := loadedFile.preloadCallCount + 1 }
      | none =>
          let file := root.file fileId
          .loaded (file.readFromFile (file.frames % 2 ^ 32)) information true
    { pool with loadedFiles := Function.update pool.loadedFiles fileId (some fileData) }

/-- `loadFromRam` with data that is a file; undefined where the data has no information. -/
def loadFromRam (fileId : ι) (data : AudioFile σ) (pool : FilePool ι σ) : Option (FilePool ι σ) :=
  match pool.loadedFiles fileId with
  | some _ => some pool
  | none => data.getReaderInformation.map fun information =>
      let fileData := .loaded (data.readFromFile (data.frames % 2 ^ 32)) information true
      { pool with loadedFiles := Function.update pool.loadedFiles fileId (some fileData) }

omit [DecidableEq ι] in
/-- The body of the loop of `setPreloadSize`. -/
def preloadAgain (file : AudioFile σ) (preloadSize : Nat) (fileData : FileData σ) : FileData σ :=
  let framesToLoad := min file.frames (fileData.information.maxOffset + preloadSize)
  { fileData with
    preloadedData := file.readFromFile (framesToLoad % 2 ^ 32)
    fullyLoaded := decide (file.frames = framesToLoad) }

/-- `setPreloadSize`. -/
def setPreloadSize (root : RootDirectory ι σ) (preloadSize : Nat) (pool : FilePool ι σ) :
    FilePool ι σ :=
  if pool.loadInRam then { pool with preloadSize }
  else { pool with
    preloadSize
    preloadedFiles := fun fileId =>
      (pool.preloadedFiles fileId).map (preloadAgain (root.file fileId) preloadSize) }

/-- The body of the loop of `setRamLoading`. -/
def loadWhole (file : AudioFile σ) (fileData : FileData σ) : FileData σ :=
  { fileData with
    preloadedData := file.readFromFile fileData.information.lastFrame
    fullyLoaded := true }

/-- `setRamLoading`. -/
def setRamLoading (root : RootDirectory ι σ) (loadInRam : Bool) (pool : FilePool ι σ) :
    FilePool ι σ :=
  if loadInRam = pool.loadInRam then pool
  else if loadInRam then { pool with
    loadInRam
    preloadedFiles := fun fileId =>
      (pool.preloadedFiles fileId).map (loadWhole (root.file fileId)) }
  else setPreloadSize root pool.preloadSize { pool with loadInRam }

/-- `resetPreloadCallCounts`. -/
def resetPreloadCallCounts (pool : FilePool ι σ) : FilePool ι σ :=
  { pool with
    preloadedFiles := fun fileId =>
      (pool.preloadedFiles fileId).map fun fileData => { fileData with preloadCallCount := 0 }
    loadedFiles := fun fileId =>
      (pool.loadedFiles fileId).map fun fileData => { fileData with preloadCallCount := 0 } }

/-- `removeUnusedPreloadedData`. -/
def removeUnusedPreloadedData (pool : FilePool ι σ) : FilePool ι σ :=
  { pool with
    preloadedFiles := fun fileId =>
      (pool.preloadedFiles fileId).filter fun fileData => fileData.preloadCallCount ≠ 0
    loadedFiles := fun fileId =>
      (pool.loadedFiles fileId).filter fun fileData => fileData.preloadCallCount ≠ 0 }

/-- A call of the pool. -/
inductive Call (ι : Type u) (σ : Type v) where
  | preloadFile (fileId : ι) (maxOffset : Nat)
  | loadFile (fileId : ι)
  | loadFromRam (fileId : ι) (data : AudioFile σ)
  | setPreloadSize (preloadSize : Nat)
  | setRamLoading (loadInRam : Bool)
  | resetPreloadCallCounts
  | removeUnusedPreloadedData

/-- The pool behind a call; those of a file that cannot be had leave it as it is. -/
def perform (root : RootDirectory ι σ) (pool : FilePool ι σ) : Call ι σ → Option (FilePool ι σ)
  | .preloadFile fileId maxOffset => some ((pool.preloadFile root fileId maxOffset).getD pool)
  | .loadFile fileId => some ((pool.loadFile root fileId).getD pool)
  | .loadFromRam fileId data => pool.loadFromRam fileId data
  | .setPreloadSize preloadSize => some (pool.setPreloadSize root preloadSize)
  | .setRamLoading loadInRam => some (pool.setRamLoading root loadInRam)
  | .resetPreloadCallCounts => some pool.resetPreloadCallCounts
  | .removeUnusedPreloadedData => some pool.removeUnusedPreloadedData

/-- Histories of calls, from a pool without files. -/
def system (root : RootDirectory ι σ) : Lts (FilePool ι σ) (Call ι σ) where
  init pool := pool.preloadedFiles = (fun _ => none) ∧ pool.loadedFiles = fun _ => none
  step pool call pool' := pool.perform root call = some pool'

end FilePool

/-! ## What is kept of a file -/

/-- What the pool keeps of a file is its beginning, and the file is marked as fully loaded where
all of it is kept; where the pool loads in RAM, the last frame may be missing. Where it does not, it
has as many frames as the offset and the preload size need, their sum taken in 32 bits, and no more
than they ask for. -/
structure Preloaded [Zero σ] (file : AudioFile σ) (pool : FilePool ι σ) (fileData : FileData σ) :
    Prop where
  data : fileData.preloadedData = file.readFromFile fileData.preloadedData.numFrames
  fullyLoaded : fileData.fullyLoaded = true →
    fileData.preloadedData.numFrames = file.frames ∨
    pool.loadInRam = true ∧ fileData.preloadedData.numFrames + 1 = file.frames ∨
    pool.loadInRam = true ∧ file.frames = 0 ∧ fileData.preloadedData.numFrames = 2 ^ 32 - 1
  partlyLoaded : fileData.fullyLoaded = false →
    pool.loadInRam = false ∧ fileData.preloadedData.numFrames < file.frames
  asked : pool.loadInRam = false →
    fileData.preloadedData.numFrames ≤ fileData.information.maxOffset + pool.preloadSize
  needed : pool.loadInRam = false →
    min file.frames ((fileData.information.maxOffset + pool.preloadSize) % 2 ^ 32) ≤
      fileData.preloadedData.numFrames
  lastFrame : fileData.information.lastFrame = (file.frames % 2 ^ 32 + (2 ^ 32 - 1)) % 2 ^ 32

namespace Preloaded

variable [Zero σ] {file : AudioFile σ} {pool pool' : FilePool ι σ} {fileData : FileData σ}

/-- Nothing is said of the calls that have been counted. -/
theorem of_count (h : Preloaded file pool fileData) (n : Nat) :
    Preloaded file pool { fileData with preloadCallCount := n } where
  data := h.data
  fullyLoaded := h.fullyLoaded
  partlyLoaded := h.partlyLoaded
  asked := h.asked
  needed := h.needed
  lastFrame := h.lastFrame

/-- Of the pool, the preload size and the loading in RAM matter. -/
theorem of_pool (h : Preloaded file pool fileData) (hsize : pool'.preloadSize = pool.preloadSize)
    (hram : pool'.loadInRam = pool.loadInRam) : Preloaded file pool' fileData where
  data := h.data
  fullyLoaded := by rw [hram]; exact h.fullyLoaded
  partlyLoaded := by rw [hram]; exact h.partlyLoaded
  asked := by rw [hram, hsize]; exact h.asked
  needed := by rw [hram, hsize]; exact h.needed
  lastFrame := h.lastFrame

/-- A file behind a read that `preloadFile` makes. -/
theorem of_read {maxOffset : Nat}
    (hdata : fileData.preloadedData = file.readFromFile (pool.framesToLoad file.frames maxOffset))
    (hfully : fileData.fullyLoaded = decide (pool.framesToLoad file.frames maxOffset = file.frames))
    (hoffset : fileData.information.maxOffset = maxOffset)
    (hlast : fileData.information.lastFrame = (file.frames % 2 ^ 32 + (2 ^ 32 - 1)) % 2 ^ 32) :
    Preloaded file pool fileData where
  data := by rw [hdata]; rfl
  fullyLoaded h := by
    rw [hfully, decide_eq_true_eq] at h
    exact .inl (by rw [hdata]; exact h)
  partlyLoaded h := by
    rw [hfully, decide_eq_false_iff_not] at h
    have hle := pool.framesToLoad_le file.frames maxOffset
    refine ⟨Bool.eq_false_iff.2 fun hram => h (if_pos hram), ?_⟩
    rw [hdata, AudioFile.numFrames_readFromFile]
    omega
  asked h := by
    rw [hdata, hoffset, AudioFile.numFrames_readFromFile, FilePool.framesToLoad, h,
      if_neg Bool.false_ne_true]
    exact (min_le_right _ _).trans (Nat.mod_le _ _)
  needed h := by
    rw [hdata, hoffset, AudioFile.numFrames_readFromFile, FilePool.framesToLoad, h,
      if_neg Bool.false_ne_true]
  lastFrame := hlast

/-- Another request for a file that is preloaded leaves it preloaded as it should be. -/
theorem preloadExisting (h : Preloaded file pool fileData) (hframes : file.frames < 2 ^ 32)
    (maxOffset : Nat) :
    Preloaded file pool (FilePool.preloadExisting file
      (pool.framesToLoad (file.frames % 2 ^ 32) maxOffset) maxOffset fileData) := by
  rw [Nat.mod_eq_of_lt hframes]
  unfold FilePool.preloadExisting
  split
  · refine of_read rfl ?_ rfl h.lastFrame
    rw [Nat.mod_eq_of_lt hframes]
    exact decide_eq_decide.2 eq_comm
  · exact h.of_count _

/-- `setPreloadSize` leaves a preloaded file as it should be at the new size. -/
theorem preloadAgain (h : Preloaded file pool fileData) (hframes : file.frames < 2 ^ 32)
    (preloadSize : Nat) (hram : pool'.loadInRam = false) (hsize : pool'.preloadSize = preloadSize) :
    Preloaded file pool' (FilePool.preloadAgain file preloadSize fileData) := by
  obtain ⟨n, hn⟩ : ∃ n, n = min file.frames (fileData.information.maxOffset + preloadSize) :=
    ⟨_, rfl⟩
  have hmod : n % 2 ^ 32 = n := Nat.mod_eq_of_lt (by omega)
  have heq : FilePool.preloadAgain file preloadSize fileData = { fileData with
      preloadedData := file.readFromFile n
      fullyLoaded := decide (file.frames = n) } := by
    rw [FilePool.preloadAgain, ← hn, hmod]
  rw [heq]
  refine ⟨rfl, fun hfully => .inl (of_decide_eq_true hfully).symm, fun hfully => ⟨hram, ?_⟩,
    fun _ => ?_, fun _ => ?_, h.lastFrame⟩
  · have hne := of_decide_eq_false hfully
    show n < file.frames
    omega
  · show n ≤ fileData.information.maxOffset + pool'.preloadSize
    omega
  · rw [hn, hsize]
    exact min_le_min_left _ (Nat.mod_le _ _)

/-- `setRamLoading` loads all but the last frame of a preloaded file, on 32 bits. -/
theorem loadWhole (h : Preloaded file pool fileData) (hframes : file.frames < 2 ^ 32)
    (hram : pool'.loadInRam = true) : Preloaded file pool' (FilePool.loadWhole file fileData) := by
  have hnum : (FilePool.loadWhole file fileData).preloadedData.numFrames =
      (file.frames % 2 ^ 32 + (2 ^ 32 - 1)) % 2 ^ 32 := h.lastFrame
  have hnot : pool'.loadInRam ≠ false := by
    rw [hram]
    exact Bool.noConfusion
  refine ⟨rfl, fun _ => ?_, nofun, fun hfalse => absurd hfalse hnot,
    fun hfalse => absurd hfalse hnot, h.lastFrame⟩
  · rw [hnum]
    rcases Nat.eq_zero_or_pos file.frames with hzero | hpos
    · exact .inr (.inr ⟨hram, hzero, by omega⟩)
    · exact .inr (.inl ⟨hram, by omega⟩)

end Preloaded

/-! ## Histories -/

namespace FilePool

variable [Zero σ] [DecidableEq ι] {root : RootDirectory ι σ} {pool pool' : FilePool ι σ}
  {fileId : ι}

/-- A call of `preloadFile` counts the file that is loaded, or keeps one in `preloadedFiles`. -/
theorem preloadFile_cases {maxOffset : Nat}
    (h : pool.preloadFile root fileId maxOffset = some pool') :
    (∃ loadedFile, pool.loadedFiles fileId = some loadedFile ∧
      pool' = { pool with
        loadedFiles := Function.update pool.loadedFiles fileId
          (some { loadedFile with preloadCallCount := loadedFile.preloadCallCount + 1 }) }) ∨
    (pool.loadedFiles fileId = none ∧ ∃ fileData,
      pool' = { pool with
        preloadedFiles := Function.update pool.preloadedFiles fileId (some fileData) } ∧
      ((∃ existing, pool.preloadedFiles fileId = some existing ∧
        fileData = preloadExisting (root.file fileId)
          (pool.framesToLoad ((root.file fileId).frames % 2 ^ 32) maxOffset) maxOffset existing) ∨
      (pool.preloadedFiles fileId = none ∧ ∃ information, root.has fileId = true ∧
        (root.file fileId).getReaderInformation = some information ∧
        fileData = .loaded
          ((root.file fileId).readFromFile
            (pool.framesToLoad ((root.file fileId).frames % 2 ^ 32) maxOffset))
          { information with maxOffset }
          (decide (pool.framesToLoad ((root.file fileId).frames % 2 ^ 32) maxOffset =
            (root.file fileId).frames % 2 ^ 32))))) := by
  unfold preloadFile at h
  split at h
  next loadedFile hloaded => exact .inl ⟨loadedFile, hloaded, (Option.some.inj h).symm⟩
  next hloaded =>
    obtain ⟨information, hinformation, rfl⟩ := Option.map_eq_some_iff.1 h
    refine .inr ⟨hloaded, _, rfl, ?_⟩
    cases hexisting : pool.preloadedFiles fileId with
    | some existing => exact .inl ⟨existing, rfl, rfl⟩
    | none =>
        simp only [getFileInformation, checkExistingFileInformation, hloaded, hexisting,
          Option.map_none] at hinformation
        split at hinformation
        next hhas => exact .inr ⟨rfl, information, hhas, hinformation, rfl⟩
        next => cases hinformation

/-- Nothing that is preloaded has been touched. -/
structure SamePreloaded (pool pool' : FilePool ι σ) : Prop where
  preloadedFiles : pool'.preloadedFiles = pool.preloadedFiles
  preloadSize : pool'.preloadSize = pool.preloadSize
  loadInRam : pool'.loadInRam = pool.loadInRam

/-- `loadFile` changes nothing about what is preloaded. -/
theorem samePreloaded_loadFile :
    SamePreloaded pool ((pool.loadFile root fileId).getD pool) := by
  cases hcall : pool.loadFile root fileId with
  | none => exact ⟨rfl, rfl, rfl⟩
  | some pool' =>
      obtain ⟨information, -, rfl⟩ := Option.map_eq_some_iff.1 hcall
      exact ⟨rfl, rfl, rfl⟩

/-- `loadFromRam` changes nothing about what is preloaded. -/
theorem samePreloaded_loadFromRam {data : AudioFile σ}
    (h : pool.loadFromRam fileId data = some pool') : SamePreloaded pool pool' := by
  unfold loadFromRam at h
  split at h
  next =>
    obtain rfl := Option.some.inj h
    exact ⟨rfl, rfl, rfl⟩
  next =>
    obtain ⟨information, -, rfl⟩ := Option.map_eq_some_iff.1 h
    exact ⟨rfl, rfl, rfl⟩

omit [Zero σ] [DecidableEq ι] in
/-- The last frame is the number of frames less one, on 32 bits. -/
theorem lastFrame_of_getReaderInformation {file : AudioFile σ} {information : FileInformation}
    (h : file.getReaderInformation = some information) :
    information.lastFrame = (file.frames % 2 ^ 32 + (2 ^ 32 - 1)) % 2 ^ 32 := by
  unfold AudioFile.getReaderInformation at h
  split at h
  · cases h
  · obtain rfl := Option.some.inj h
    rfl

/-- All that is kept is the beginning of its file. -/
def Inv (root : RootDirectory ι σ) (pool : FilePool ι σ) : Prop :=
  ∀ fileId fileData, pool.preloadedFiles fileId = some fileData →
    Preloaded (root.file fileId) pool fileData

omit [DecidableEq ι] in
/-- The invariant is about what is preloaded only. -/
theorem Inv.of_same (h : Inv root pool) (hsame : SamePreloaded pool pool') : Inv root pool' := by
  intro id fileData hfileData
  rw [hsame.preloadedFiles] at hfileData
  exact (h id fileData hfileData).of_pool hsame.preloadSize hsame.loadInRam

omit [DecidableEq ι] in
/-- The invariant holds behind a change that leaves each preloaded file as it should be. -/
theorem Inv.of_map (h : Inv root pool) {f : ι → FileData σ → FileData σ}
    (hfiles : ∀ fileId, pool'.preloadedFiles fileId = (pool.preloadedFiles fileId).map (f fileId))
    (hf : ∀ fileId fileData, Preloaded (root.file fileId) pool fileData →
      Preloaded (root.file fileId) pool' (f fileId fileData)) : Inv root pool' := by
  intro fileId fileData hfileData
  rw [hfiles] at hfileData
  obtain ⟨old, hold, rfl⟩ := Option.map_eq_some_iff.1 hfileData
  exact hf fileId old (h fileId old hold)

/-- `preloadFile` keeps the invariant. -/
theorem Inv.preloadFile (h : Inv root pool) (hframes : ∀ id, (root.file id).frames < 2 ^ 32)
    {maxOffset : Nat} (hstep : pool.preloadFile root fileId maxOffset = some pool') :
    Inv root pool' := by
  rcases preloadFile_cases hstep with ⟨loadedFile, hloaded, rfl⟩ | ⟨hloaded, new, rfl, hnew⟩
  · exact h.of_same ⟨rfl, rfl, rfl⟩
  · intro id fileData hfileData
    rcases eq_or_ne id fileId with rfl | hne
    · obtain rfl : new = fileData := by simpa using hfileData
      rcases hnew with ⟨existing, hexisting, rfl⟩ | ⟨-, information, -, hinformation, rfl⟩
      · exact ((h id existing hexisting).preloadExisting (hframes id) maxOffset).of_pool rfl rfl
      · rw [Nat.mod_eq_of_lt (hframes id)]
        have hlast := lastFrame_of_getReaderInformation hinformation
        exact Preloaded.of_read rfl rfl rfl hlast
    · simp only [Function.update_of_ne hne] at hfileData
      exact (h id fileData hfileData).of_pool rfl rfl

omit [DecidableEq ι] in
/-- `setPreloadSize` keeps it, preloading every file again. -/
theorem Inv.setPreloadSize (h : Inv root pool) (hframes : ∀ id, (root.file id).frames < 2 ^ 32)
    (preloadSize : Nat) : Inv root (pool.setPreloadSize root preloadSize) := by
  unfold FilePool.setPreloadSize
  split
  next hram =>
    intro id fileData hfileData
    have hold := h id fileData hfileData
    refine ⟨hold.data, hold.fullyLoaded, hold.partlyLoaded, fun hnot => ?_, fun hnot => ?_,
      hold.lastFrame⟩ <;>
    · rw [show pool.loadInRam = false from hnot] at hram
      cases hram
  next hram =>
    refine h.of_map (fun _ => rfl) fun id fileData hfileData => ?_
    exact hfileData.preloadAgain (hframes id) preloadSize (Bool.eq_false_iff.2 hram) rfl

omit [DecidableEq ι] in
/-- `setRamLoading` keeps it, switched either way. -/
theorem Inv.setRamLoading (h : Inv root pool) (hframes : ∀ id, (root.file id).frames < 2 ^ 32)
    (loadInRam : Bool) : Inv root (pool.setRamLoading root loadInRam) := by
  unfold FilePool.setRamLoading
  split
  next => exact h
  next =>
    split
    next hram =>
      refine h.of_map (fun _ => rfl) fun id fileData hfileData => ?_
      exact hfileData.loadWhole (hframes id) hram
    next hram =>
      -- `setPreloadSize` runs with `loadInRam` stored, and reads every file again
      rw [FilePool.setPreloadSize, if_neg hram]
      refine h.of_map (fun _ => rfl) fun id fileData hfileData => ?_
      exact hfileData.preloadAgain (hframes id) _ (Bool.eq_false_iff.2 hram) rfl

/-- Every call keeps the invariant. -/
theorem Inv.perform (h : Inv root pool) (hframes : ∀ id, (root.file id).frames < 2 ^ 32)
    {call : Call ι σ} (hstep : pool.perform root call = some pool') : Inv root pool' := by
  cases call with
  | preloadFile fileId maxOffset =>
      obtain rfl := Option.some.inj hstep
      cases hcall : pool.preloadFile root fileId maxOffset with
      | none => exact h
      | some pool' => exact h.preloadFile hframes hcall
  | loadFile fileId =>
      obtain rfl := Option.some.inj hstep
      exact h.of_same samePreloaded_loadFile
  | loadFromRam fileId data => exact h.of_same (samePreloaded_loadFromRam hstep)
  | setPreloadSize preloadSize =>
      obtain rfl := Option.some.inj hstep
      exact h.setPreloadSize hframes preloadSize
  | setRamLoading loadInRam =>
      obtain rfl := Option.some.inj hstep
      exact h.setRamLoading hframes loadInRam
  | resetPreloadCallCounts =>
      obtain rfl := Option.some.inj hstep
      refine h.of_map (fun _ => rfl) fun id fileData hfileData => ?_
      exact (hfileData.of_count 0).of_pool rfl rfl
  | removeUnusedPreloadedData =>
      obtain rfl := Option.some.inj hstep
      intro id fileData hfileData
      obtain ⟨hkept, -⟩ := Option.filter_eq_some_iff.1 hfileData
      exact (h id fileData hkept).of_pool rfl rfl

/-- A directory with one file, of three frames. -/
def threeFrames : RootDirectory Unit Int where
  has _ := true
  file _ := ⟨1, 3, fun f _ => f + 1⟩

/-- A pool for two frames of each file. -/
def noFiles : FilePool Unit Int := ⟨fun _ => none, fun _ => none, 2, false⟩

/-- The calls behind which the frames that an offset needs are still there: those that neither
lower the preload size, nor switch the loading in RAM, nor remove files. -/
def KeepsPreloading (pool : FilePool ι σ) : Call ι σ → Prop
  | .setPreloadSize preloadSize => pool.preloadSize ≤ preloadSize
  | .setRamLoading loadInRam => loadInRam = pool.loadInRam
  | .removeUnusedPreloadedData => False
  | _ => True

/-- The frames that an offset needs are preloaded. -/
def Covers (root : RootDirectory ι σ) (fileId : ι) (offset : Nat) (pool : FilePool ι σ) : Prop :=
  ∃ fileData, pool.preloadedFiles fileId = some fileData ∧
    (if pool.loadInRam then (root.file fileId).frames
      else min (root.file fileId).frames (offset + pool.preloadSize)) ≤
      fileData.preloadedData.numFrames

omit [DecidableEq ι] in
/-- Another request for a preloaded file leaves it at least the frames that it asks for and those
that it had. -/
theorem le_preloadExisting {file : AudioFile σ} (framesToLoad maxOffset : Nat)
    (fileData : FileData σ) :
    framesToLoad ≤ (preloadExisting file framesToLoad maxOffset fileData).preloadedData.numFrames ∧
      fileData.preloadedData.numFrames ≤
        (preloadExisting file framesToLoad maxOffset fileData).preloadedData.numFrames := by
  unfold preloadExisting
  split
  next hmore => exact ⟨le_rfl, Nat.le_of_lt hmore⟩
  next hless => exact ⟨Nat.le_of_not_lt hless, le_rfl⟩

omit [Zero σ] [DecidableEq ι] in
/-- What covers a note still covers it where no file has lost frames. -/
theorem Covers.of_frames_le {offset : Nat} (h : Covers root fileId offset pool)
    (hsize : pool'.preloadSize = pool.preloadSize) (hram : pool'.loadInRam = pool.loadInRam)
    (hfiles : ∀ fileData, pool.preloadedFiles fileId = some fileData →
      ∃ fileData', pool'.preloadedFiles fileId = some fileData' ∧
        fileData.preloadedData.numFrames ≤ fileData'.preloadedData.numFrames) :
    Covers root fileId offset pool' := by
  obtain ⟨fileData, hfileData, hle⟩ := h
  obtain ⟨fileData', hfileData', hmore⟩ := hfiles fileData hfileData
  refine ⟨fileData', hfileData', ?_⟩
  rw [hsize, hram]
  exact hle.trans hmore

omit [Zero σ] [DecidableEq ι] in
/-- A call that changes nothing preloaded keeps a note covered. -/
theorem Covers.of_same {offset : Nat} (h : Covers root fileId offset pool)
    (hsame : SamePreloaded pool pool') : Covers root fileId offset pool' := by
  refine h.of_frames_le hsame.preloadSize hsame.loadInRam fun fileData hfileData => ?_
  exact ⟨fileData, by rw [hsame.preloadedFiles, hfileData], le_rfl⟩

omit [DecidableEq ι] in
/-- A greater preload size reads what was asked for with the smaller one. -/
theorem Covers.setPreloadSize {offset preloadSize : Nat} (h : Covers root fileId offset pool)
    (hinv : Inv root pool) (hframes : ∀ id, (root.file id).frames < 2 ^ 32)
    (hle : pool.preloadSize ≤ preloadSize) :
    Covers root fileId offset (pool.setPreloadSize root preloadSize) := by
  obtain ⟨fileData, hfileData, hcovers⟩ := h
  unfold FilePool.setPreloadSize
  split
  next hram =>
    refine ⟨fileData, hfileData, ?_⟩
    simp only [hram, if_true] at hcovers ⊢
    exact hcovers
  next hram =>
    have hasked := (hinv fileId fileData hfileData).asked (Bool.eq_false_iff.2 hram)
    have hfile := hframes fileId
    refine ⟨preloadAgain (root.file fileId) preloadSize fileData, by simp only [hfileData]; rfl, ?_⟩
    simp only [hram, Bool.false_eq_true, if_false] at hcovers ⊢
    simp only [preloadAgain, AudioFile.numFrames_readFromFile]
    rw [Nat.mod_eq_of_lt (by omega)]
    omega

/-- Every call that keeps the preloading keeps the notes covered. -/
theorem Covers.perform {offset : Nat} (h : Covers root fileId offset pool) (hinv : Inv root pool)
    (hframes : ∀ id, (root.file id).frames < 2 ^ 32) {call : Call ι σ}
    (hkeeps : KeepsPreloading pool call) (hstep : pool.perform root call = some pool') :
    Covers root fileId offset pool' := by
  cases call with
  | preloadFile id maxOffset =>
      obtain rfl := Option.some.inj hstep
      cases hcall : pool.preloadFile root id maxOffset with
      | none => exact h
      | some pool' =>
          rcases preloadFile_cases hcall with ⟨loadedFile, -, rfl⟩ | ⟨-, new, rfl, hnew⟩
          · exact h.of_same ⟨rfl, rfl, rfl⟩
          · refine h.of_frames_le rfl rfl fun fileData hfileData => ?_
            rcases eq_or_ne fileId id with rfl | hne
            · refine ⟨new, Function.update_self .., ?_⟩
              rcases hnew with ⟨existing, hexisting, rfl⟩ | ⟨hnone, -⟩
              · obtain rfl := Option.some.inj (hfileData.symm.trans hexisting)
                exact (le_preloadExisting _ _ _).2
              · rw [hnone] at hfileData
                cases hfileData
            · exact ⟨fileData, (Function.update_of_ne hne _ _).trans hfileData, le_rfl⟩
  | loadFile id =>
      obtain rfl := Option.some.inj hstep
      exact h.of_same samePreloaded_loadFile
  | loadFromRam id data => exact h.of_same (samePreloaded_loadFromRam hstep)
  | setPreloadSize preloadSize =>
      obtain rfl := Option.some.inj hstep
      exact h.setPreloadSize hinv hframes hkeeps
  | setRamLoading loadInRam =>
      obtain rfl := Option.some.inj hstep
      rw [FilePool.setRamLoading, if_pos (show loadInRam = pool.loadInRam from hkeeps)]
      exact h
  | resetPreloadCallCounts =>
      obtain rfl := Option.some.inj hstep
      refine h.of_frames_le rfl rfl fun fileData hfileData => ?_
      exact ⟨{ fileData with preloadCallCount := 0 },
        by simp only [FilePool.resetPreloadCallCounts, hfileData, Option.map_some], le_rfl⟩
  | removeUnusedPreloadedData => cases hkeeps

end FilePool

end Soundcan.Sfizz
