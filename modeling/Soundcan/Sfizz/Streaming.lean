import Mathlib.Data.List.Basic
import Mathlib.Tactic
import Soundcan.Lib.Loop

/-!
# Streaming a file

`streamFromFile` reads a file chunk by chunk into an audio buffer with one list of frames for each
channel, and counts the frames that are there in `filledFrames`, which the voices read while it is
at work. A read may be short. Wherever the loop is, the counted frames are those of the file, and
the rest of the buffer is silent (`Stream.Inv`); it always ends (`streamFromFile_spec`).
-/

namespace Soundcan.Sfizz

universe u

variable {σ : Type u}

/-! ## The file and the buffer -/

/-- What an `AudioReader` is opened on: the sample of a frame in a channel. -/
structure AudioFile (σ : Type u) where
  channels : Nat
  frames : Nat
  sample : Nat → Nat → σ

namespace AudioFile

/-- Frames of the file as they lie in memory, one behind the other. -/
def interleaved (file : AudioFile σ) (pos n : Nat) : List σ :=
  (List.range (n * file.channels)).map fun j =>
    file.sample (pos + j / file.channels) (j % file.channels)

/-- `readNextBlock` at a position, where it returns `n`: the block it has read into. -/
def readNextBlock (file : AudioFile σ) (pos n : Nat) (fileBlock : List σ) : List σ :=
  file.interleaved pos n ++ fileBlock.drop (n * file.channels)

variable {file : AudioFile σ} {pos n i c : Nat}

/-- Frames that are read have a sample for each channel. -/
theorem length_interleaved : (file.interleaved pos n).length = n * file.channels := by
  rw [interleaved, List.length_map, List.length_range]

/-- Reading fills part of the block, and keeps its length. -/
theorem length_readNextBlock {fileBlock : List σ} (h : n * file.channels ≤ fileBlock.length) :
    (file.readNextBlock pos n fileBlock).length = fileBlock.length := by
  rw [readNextBlock, List.length_append, List.length_drop, length_interleaved]
  omega

/-- Where a sample of a frame lies in the block. -/
theorem getElem?_readNextBlock (fileBlock : List σ) (hi : i < n) (hc : c < file.channels) :
    (file.readNextBlock pos n fileBlock)[i * file.channels + c]? =
      some (file.sample (pos + i) c) := by
  have hlt : i * file.channels + c < n * file.channels := by
    calc i * file.channels + c < i * file.channels + file.channels := by omega
      _ = (i + 1) * file.channels := (Nat.succ_mul _ _).symm
      _ ≤ n * file.channels := Nat.mul_le_mul_right _ hi
  have hdiv : (i * file.channels + c) / file.channels = i := by
    rw [Nat.mul_comm, Nat.mul_add_div (by omega), Nat.div_eq_of_lt hc, Nat.add_zero]
  have hmod : (i * file.channels + c) % file.channels = c := by
    rw [Nat.mul_comm, Nat.mul_add_mod, Nat.mod_eq_of_lt hc]
  rw [readNextBlock, List.getElem?_append_left (by rwa [length_interleaved]), interleaved,
    List.getElem?_map, List.getElem?_range hlt, Option.map_some, hdiv, hmod]

end AudioFile

/-- `FileAudioBuffer`: the sample of a channel in a frame. -/
structure AudioBuffer (σ : Type u) where
  numChannels : Nat
  numFrames : Nat
  sample : Nat → Nat → σ

namespace AudioBuffer

/-- A buffer behind `reset`, `addChannels`, `resize` and `clear`. -/
def cleared [Zero σ] (numChannels numFrames : Nat) : AudioBuffer σ :=
  ⟨numChannels, numFrames, fun _ _ => 0⟩

/-- The loops over the channels and over the frames of a chunk; undefined where the chunk is not
inside the buffer or the block is too short for it. -/
def writeChunk [Zero σ] (b : AudioBuffer σ) (outputFrameCounter n : Nat) (fileBlock : List σ) :
    Option (AudioBuffer σ) :=
  if outputFrameCounter + n ≤ b.numFrames ∧ n * b.numChannels ≤ fileBlock.length then
    some { b with
      sample := fun chanIdx f =>
        if chanIdx < b.numChannels ∧ outputFrameCounter ≤ f ∧ f < outputFrameCounter + n then
          (fileBlock[(f - outputFrameCounter) * b.numChannels + chanIdx]?).getD 0
        else b.sample chanIdx f }
  else none

/-- The buffer is one for the file, with its first `k` frames and silence behind them. -/
structure Holds [Zero σ] (b : AudioBuffer σ) (file : AudioFile σ) (k : Nat) : Prop where
  numChannels : b.numChannels = file.channels
  numFrames : b.numFrames = file.frames
  le_frames : k ≤ file.frames
  sample : ∀ c < file.channels, ∀ f < file.frames,
    b.sample c f = if f < k then file.sample f c else 0

variable [Zero σ] {b : AudioBuffer σ} {file : AudioFile σ} {k n : Nat}

/-- A buffer that has been cleared holds no frame yet. -/
theorem holds_cleared (file : AudioFile σ) :
    (cleared file.channels file.frames).Holds file 0 where
  numChannels := rfl
  numFrames := rfl
  le_frames := Nat.zero_le _
  sample _ _ f _ := (if_neg (Nat.not_lt_zero f)).symm

/-- A chunk that is read behind the frames of the buffer is put behind them. -/
theorem Holds.writeChunk (h : b.Holds file k) (hn : k + n ≤ file.frames) {fileBlock : List σ}
    (hblock : n * file.channels ≤ fileBlock.length) :
    ∃ b', b.writeChunk k n (file.readNextBlock k n fileBlock) = some b' ∧
      b'.Holds file (k + n) := by
  have hinside : k + n ≤ b.numFrames ∧
      n * b.numChannels ≤ (file.readNextBlock k n fileBlock).length := by
    rw [h.numFrames, h.numChannels, AudioFile.length_readNextBlock hblock]
    exact ⟨hn, hblock⟩
  refine ⟨_, if_pos hinside, h.numChannels, h.numFrames, hn, fun c hc f hf => ?_⟩
  dsimp only
  rw [h.numChannels]
  rcases lt_or_ge f k with hlt | hge
  · rw [if_neg fun hin => by omega, h.sample c hc f hf, if_pos hlt, if_pos (by omega)]
  · rcases lt_or_ge f (k + n) with hlt | hge'
    · rw [if_pos ⟨hc, hge, hlt⟩, if_pos hlt,
        AudioFile.getElem?_readNextBlock fileBlock (by omega) hc, Option.getD_some,
        Nat.add_sub_cancel' hge]
    · rw [if_neg fun hin => by omega, h.sample c hc f hf, if_neg (by omega), if_neg (by omega)]

end AudioBuffer

/-! ## The loop -/

/-- The variables of `streamFromFile`; `stopped` is the `break` behind a read of nothing. -/
structure Stream (σ : Type u) where
  output : AudioBuffer σ
  fileBlock : List σ
  inputFrameCounter : Nat
  outputFrameCounter : Nat
  inputEof : Bool
  stopped : Bool
  filledFrames : Nat

namespace Stream

variable [Zero σ]

/-- The variables in front of the loop. -/
def begin (file : AudioFile σ) (chunkSize filledFrames : Nat) : Stream σ where
  output := .cleared file.channels file.frames
  fileBlock := List.replicate (chunkSize * file.channels) 0
  inputFrameCounter := 0
  outputFrameCounter := 0
  inputEof := false
  stopped := false
  filledFrames

/-- The loop of `streamFromFile`; `reads` is what `readNextBlock` returns at a position for a
request. -/
def loop (file : AudioFile σ) (chunkSize : Nat) (reads : Nat → Nat → Nat) : Loop (Stream σ) where
  test s := some (!s.stopped && !s.inputEof && decide (s.inputFrameCounter < file.frames))
  body s :=
    let thisChunkSize := min chunkSize (file.frames - s.inputFrameCounter)
    let numFramesRead := reads s.inputFrameCounter thisChunkSize
    let fileBlock := file.readNextBlock s.inputFrameCounter numFramesRead s.fileBlock
    if numFramesRead = 0 then some { s with fileBlock, stopped := true }
    else do
      let inputEof := s.inputEof || decide (numFramesRead < thisChunkSize)
      let thisChunkSize := if numFramesRead < thisChunkSize then numFramesRead else thisChunkSize
      let output ← s.output.writeChunk s.outputFrameCounter thisChunkSize fileBlock
      some { s with
        output, fileBlock, inputEof
        inputFrameCounter := s.inputFrameCounter + thisChunkSize
        outputFrameCounter := s.outputFrameCounter + thisChunkSize
        filledFrames := s.filledFrames + thisChunkSize }

/-- Wherever the loop is, the counted frames are in the output, and the file is read up to there. -/
structure Inv (file : AudioFile σ) (chunkSize filled : Nat) (s : Stream σ) : Prop where
  output : s.output.Holds file s.outputFrameCounter
  counters : s.inputFrameCounter = s.outputFrameCounter
  filledFrames : s.filledFrames = filled + s.outputFrameCounter
  fileBlock : s.fileBlock.length = chunkSize * file.channels

variable {file : AudioFile σ} {chunkSize filled : Nat} {reads : Nat → Nat → Nat} {s : Stream σ}

/-- The loop starts with nothing written. -/
theorem inv_begin : Inv file chunkSize filled (begin file chunkSize filled) where
  output := AudioBuffer.holds_cleared file
  counters := rfl
  filledFrames := rfl
  fileBlock := List.length_replicate

/-- A round does not take frames back. -/
theorem outputFrameCounter_le {s' : Stream σ} (h : (loop file chunkSize reads).body s = some s') :
    s.outputFrameCounter ≤ s'.outputFrameCounter := by
  simp only [loop] at h
  split at h
  next =>
    obtain rfl := Option.some.inj h
    exact le_rfl
  next =>
    obtain ⟨output, -, h⟩ := Option.bind_eq_some_iff.1 h
    obtain rfl := Option.some.inj h
    exact Nat.le_add_right _ _

/-- A round either ends the loop or reads frames behind those that are there. -/
theorem Inv.round (h : Inv file chunkSize filled s) (hreads : ∀ pos n, reads pos n ≤ n)
    (htest : (loop file chunkSize reads).test s = some true) :
    ∃ s', (loop file chunkSize reads).body s = some s' ∧ Inv file chunkSize filled s' ∧
      (s'.stopped = true ∧ s'.outputFrameCounter = s.outputFrameCounter ∨
        s'.stopped = false ∧ s.outputFrameCounter < s'.outputFrameCounter) := by
  obtain ⟨hrunning, hlt⟩ : s.stopped = false ∧ s.inputFrameCounter < file.frames := by
    simp only [loop, Option.some.injEq, Bool.and_eq_true, Bool.not_eq_true',
      decide_eq_true_eq] at htest
    exact ⟨htest.1.1, htest.2⟩
  obtain ⟨thisChunkSize, hchunk⟩ :
      ∃ n, n = min chunkSize (file.frames - s.inputFrameCounter) := ⟨_, rfl⟩
  obtain ⟨n, hn⟩ : ∃ n, n = reads s.inputFrameCounter thisChunkSize := ⟨_, rfl⟩
  have hle : n ≤ thisChunkSize := hn ▸ hreads _ _
  have hmin : (if n < thisChunkSize then n else thisChunkSize) = n := by
    split <;> omega
  have hblock : n * file.channels ≤ s.fileBlock.length := by
    rw [h.fileBlock]
    exact Nat.mul_le_mul_right _ (by omega)
  simp only [loop, ← hchunk, ← hn, hmin]
  rw [h.counters] at hchunk hlt ⊢
  split
  next hzero =>
    refine ⟨_, rfl, ⟨h.output, rfl, h.filledFrames, ?_⟩, .inl ⟨rfl, rfl⟩⟩
    rw [AudioFile.length_readNextBlock hblock, h.fileBlock]
  next hpos =>
    obtain ⟨output, hwrite, houtput⟩ :=
      h.output.writeChunk (n := n) (by omega) hblock
    refine ⟨_, by rw [hwrite]; rfl, ⟨houtput, rfl, ?_, ?_⟩, .inr ⟨?_, ?_⟩⟩
    · show s.filledFrames + n = filled + (s.outputFrameCounter + n)
      rw [h.filledFrames, Nat.add_assoc]
    · exact (AudioFile.length_readNextBlock hblock).trans h.fileBlock
    · exact hrunning
    · show s.outputFrameCounter < s.outputFrameCounter + n
      omega

/-- The invariant holds in front of every round. -/
theorem Inv.of_visits (hreads : ∀ pos n, reads pos n ≤ n)
    (h : (loop file chunkSize reads).Visits (begin file chunkSize filled) s) :
    Inv file chunkSize filled s := by
  refine h.invariant (I := Inv file chunkSize filled) inv_begin fun s s' hs hround => ?_
  obtain ⟨s₁, hbody, hs₁, -⟩ := hs.round hreads hround.1
  obtain rfl := Option.some.inj (hbody.symm.trans hround.2)
  exact hs₁

/-- Each round reads frames, or is the last. -/
theorem ends_loop (hreads : ∀ pos n, reads pos n ≤ n) :
    (loop file chunkSize reads).Ends (begin file chunkSize filled) := by
  refine Loop.ends_of_measure (I := Inv file chunkSize filled)
    (fun s => (file.frames - s.outputFrameCounter) + if s.stopped then 0 else 1) inv_begin
    fun s hs => ?_
  cases htest : (loop file chunkSize reads).test s with
  | none => cases htest
  | some goesOn =>
      cases goesOn with
      | false => exact .inl rfl
      | true =>
          obtain ⟨s', hbody, hs', hprogress⟩ := hs.round hreads htest
          refine .inr ⟨s', ⟨htest, hbody⟩, hs', ?_⟩
          have hrunning : s.stopped = false := by
            simp only [loop, Option.some.injEq, Bool.and_eq_true, Bool.not_eq_true'] at htest
            exact htest.1.1
          have hle := hs'.output.le_frames
          have hmono := outputFrameCounter_le hbody
          rw [hrunning]
          rcases hprogress with ⟨hstopped, -⟩ | ⟨-, hlt⟩
          · rw [hstopped]
            simp only [if_true, Bool.false_eq_true, if_false]
            omega
          · simp only [Bool.false_eq_true, if_false]
            split <;> omega

/-- Where every read returns what is asked for, no round ends the loop. -/
theorem running_of_visits (hchunk : 0 < chunkSize) (hreads : ∀ pos n, reads pos n = n)
    (h : (loop file chunkSize reads).Visits (begin file chunkSize filled) s) :
    s.stopped = false ∧ s.inputEof = false := by
  refine h.invariant (I := fun s => s.stopped = false ∧ s.inputEof = false) ⟨rfl, rfl⟩
    fun s s' hs hround => ?_
  obtain ⟨htest, hbody⟩ := hround
  have hlt : s.inputFrameCounter < file.frames := by
    simp only [loop, Option.some.injEq, Bool.and_eq_true, decide_eq_true_eq] at htest
    exact htest.2
  simp only [loop, hreads, lt_irrefl, decide_false, Bool.or_false, if_false] at hbody
  rw [if_neg (by omega)] at hbody
  obtain ⟨output, -, hbody⟩ := Option.bind_eq_some_iff.1 hbody
  obtain rfl := Option.some.inj hbody
  exact hs

end Stream

/-- The streaming of a file: it ends, with the whole file where the reader gives what it is asked
for, and wherever it is, the frames that it has counted are those of the file in the output. -/
structure Streams [Zero σ] (file : AudioFile σ) (chunkSize filled : Nat)
    (reads : Nat → Nat → Nat) : Prop where
  ends : ∃ fuel last, (Stream.loop file chunkSize reads).run fuel
      (.begin file chunkSize filled) = some last ∧
    last.output.Holds file last.outputFrameCounter ∧
    (0 < chunkSize → (∀ pos n, reads pos n = n) → last.outputFrameCounter = file.frames)
  written : ∀ s, (Stream.loop file chunkSize reads).Visits (.begin file chunkSize filled) s →
    s.output.Holds file s.outputFrameCounter ∧ s.filledFrames = filled + s.outputFrameCounter

/-- Whatever the reads return, a file is streamed, frame by frame and channel by channel. -/
theorem streamFromFile_spec [Zero σ] (file : AudioFile σ) (chunkSize filled : Nat)
    (reads : Nat → Nat → Nat) (hreads : ∀ pos n, reads pos n ≤ n) :
    Streams file chunkSize filled reads where
  ends := by
    have hends : (Stream.loop file chunkSize reads).Ends (.begin file chunkSize filled) :=
      Stream.ends_loop hreads
    obtain ⟨fuel, last, hrun⟩ := hends
    obtain ⟨hvisits, htest⟩ := Loop.visits_of_run hrun
    have hinv := Stream.Inv.of_visits hreads hvisits
    refine ⟨fuel, last, hrun, hinv.output, fun hchunk hall => ?_⟩
    obtain ⟨hrunning, heof⟩ := Stream.running_of_visits hchunk hall hvisits
    simp only [Stream.loop, hrunning, heof, Bool.not_false, Bool.true_and, Option.some.injEq,
      decide_eq_false_iff_not] at htest
    have hle := hinv.output.le_frames
    rw [hinv.counters] at htest
    omega
  written s hvisits := by
    have hinv := Stream.Inv.of_visits hreads hvisits
    exact ⟨hinv.output, hinv.filledFrames⟩

/-- Three frames in two channels, read two at a time. -/
theorem streamFromFile_three_frames :
    ∃ fuel last, (Stream.loop ⟨2, 3, fun f c => (10 * f + c : Int)⟩ 2 fun _ n => n).run fuel
      (.begin ⟨2, 3, fun f c => 10 * f + c⟩ 2 0) = some last ∧ last.outputFrameCounter = 3 := by
  have hstreams := streamFromFile_spec (⟨2, 3, fun f c => 10 * f + c⟩ : AudioFile Int) 2 0
    (fun _ n => n) fun _ _ => le_rfl
  obtain ⟨fuel, last, hrun, -, hall⟩ := hstreams.ends
  exact ⟨fuel, last, hrun, hall (by decide) fun _ _ => rfl⟩

end Soundcan.Sfizz
