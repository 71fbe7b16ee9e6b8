import Soundcan.Lph.AtomOutput

/-!
# Where the walk of `post_run_atom_output` goes

The loop steps from header to header by `eventSize`, and its counter is at every header the
`atom.size` and 16 less the offset: the offsets are the iterates of `nextOffset` from 16, and the
loop ends at the first that reaches `atom.size` (`postRunTrace_of_inside`,
`inside_of_postRunTrace`). Over a sequence that the plugin wrote these are the offsets of its
events. Over any other contents nothing checks that a body fits in what remains, nor that a step is
forward: `FollowsInside` is when the walk is safe.
-/

namespace Soundcan.Lph

open Bytes Lv2

variable {constants : Constants} {b : Block} {size : Nat}

/-! ## The headers that are read -/

/-- The `while` loop of `post_run_atom_output`, returning in front of the builder the offsets of the
headers that it read. -/
def postRunTrace (constants : Constants) (b : Block) :
    Nat → Int → Int → Builder → Option (List Int × Builder)
  | 0, _, _, _ => none
  | fuel + 1, payloadSize, aev, builder =>
    if 16 < payloadSize then do
      let type ← loadWordAt b 4 (aev + 12)
      let size ← loadWordAt b 4 (aev + 8)
      let builder ← postRunEvent constants b aev type size builder
      let (offsets, builder) ←
        postRunTrace constants b fuel (payloadSize - eventSize size) (aev + eventSize size) builder
      pure (aev :: offsets, builder)
    else
      some ([], builder)

/-- It is the loop. -/
theorem postRunTrace_snd (constants : Constants) (b : Block) (fuel : Nat) (payload aev : Int)
    (builder : Builder) :
    (postRunTrace constants b fuel payload aev builder).map Prod.snd =
      postRunLoop constants b fuel payload aev builder := by
  induction fuel generalizing payload aev builder with
  | zero => rfl
  | succ fuel ih =>
      rw [postRunTrace, postRunLoop]
      split
      next =>
        simp only [Option.bind_eq_bind, Option.map_bind, Function.comp_def, Option.pure_def,
          Option.map_some, ← ih]
        simp only [Option.map_eq_bind, Function.comp_def]
      next => rfl

/-- The offset behind the event at `o`, by the `body.size` found there. -/
def nextOffset (b : Block) (o : Int) : Int := o + eventSize ((loadWordAt b 4 (o + 8)).getD 0)

/-- The event at `o` does not begin in front of the block, and if it has the MIDI type its body ends
in it. -/
def EventInside (constants : Constants) (b : Block) (o : Int) : Prop :=
  0 ≤ o ∧ (loadWordAt b 4 (o + 12) = some constants.midiMidiEvent →
    o + 16 + (loadWordAt b 4 (o + 8)).getD 0 ≤ b.size)

/-- The header at `o` lies in the block. -/
def HeaderInside (b : Block) (o : Int) : Prop := 0 ≤ o ∧ o + 16 ≤ b.size

/-- A step is a multiple of 8. -/
theorem eventSize_mod (n : Nat) : eventSize n % 8 = 0 := by
  rw [eventSize, toInt32, atomPadSize, atomPadSize]
  split <;> omega

/-- Offsets stay multiples of eight. -/
theorem nextOffset_mod {o : Int} (h : o % 8 = 0) : nextOffset b o % 8 = 0 := by
  have := eventSize_mod ((loadWordAt b 4 (o + 8)).getD 0)
  rw [nextOffset]
  omega

/-- So is every offset of the walk. -/
theorem iterate_nextOffset_mod {o : Int} (h : o % 8 = 0) (k : Nat) :
    (nextOffset b)^[k] o % 8 = 0 := by
  induction k with
  | zero => exact h
  | succ k ih =>
      rw [Function.iterate_succ_apply']
      exact nextOffset_mod ih

/-- A word inside the block can be read through a pointer. -/
theorem loadWordAt_isSome {w : Nat} {p : Int} (hp : 0 ≤ p) (hb : p + w ≤ b.size) :
    ∃ n, loadWordAt b w p = some n := by
  rw [loadWordAt, if_pos hp, Block.loadWord, Block.load, if_pos (by omega)]
  exact ⟨_, rfl⟩

/-- Multiples of 8 below `atom.size` leave room for a header. -/
theorem headerInside_of_lt (hb : b.size = 8192) (hsize : size ≤ 8184) {o : Int} (hmod : o % 8 = 0)
    (hpos : 0 ≤ o) (hlt : o < size) : HeaderInside b o :=
  ⟨hpos, by omega⟩

/-- A step of the loop at an event inside the block. -/
theorem postRunTrace_step (hb : b.size = 8192) (hsize : size ≤ 8184) {o : Int} (hmod : o % 8 = 0)
    (hlt : o < size) (hin : EventInside constants b o) (fuel : Nat) (builder : Builder) :
    ∃ builder₁, postRunTrace constants b (fuel + 1) (size + 16 - o) o builder =
      (postRunTrace constants b fuel (size + 16 - nextOffset b o) (nextOffset b o) builder₁).map
        fun out => (o :: out.1, out.2) := by
  obtain ⟨hpos, hend⟩ := headerInside_of_lt hb hsize hmod hin.1 hlt
  obtain ⟨type, htype⟩ := loadWordAt_isSome (b := b) (w := 4) (p := o + 12) (by omega) (by omega)
  obtain ⟨n, hn⟩ := loadWordAt_isSome (b := b) (w := 4) (p := o + 8) (by omega) (by omega)
  have hevent : ∃ builder₁, postRunEvent constants b o type n builder = some builder₁ := by
    rw [postRunEvent]
    split
    next hmidi =>
      have hfit := hin.2 (hmidi ▸ htype)
      rw [hn, Option.getD_some] at hfit
      rw [Block.load, if_pos (by omega)]
      exact ⟨_, rfl⟩
    next => exact ⟨_, rfl⟩
  obtain ⟨builder₁, hbuilder⟩ := hevent
  have hnext : nextOffset b o = o + eventSize n := by rw [nextOffset, hn, Option.getD_some]
  have hpayload : size + 16 - nextOffset b o = size + 16 - o - eventSize n := by
    rw [hnext]
    omega
  refine ⟨builder₁, ?_⟩
  rw [postRunTrace, if_pos (by omega), htype, hn, hpayload, hnext]
  simp only [Option.bind_eq_bind, Option.bind_some, hbuilder, Option.map_eq_bind]
  rfl

/-- Offsets that stay inside the block until one reaches `atom.size` are read, in their order. -/
theorem postRunTrace_of_inside (hb : b.size = 8192) (hsize : size ≤ 8184) {n : Nat} {o : Int}
    (hmod : o % 8 = 0)
    (hin : ∀ k < n, (nextOffset b)^[k] o < size ∧ EventInside constants b ((nextOffset b)^[k] o))
    (hout : size ≤ (nextOffset b)^[n] o) (builder : Builder) :
    ∃ builder', postRunTrace constants b (n + 1) (size + 16 - o) o builder =
      some ((List.range n).map fun k => (nextOffset b)^[k] o, builder') := by
  induction n generalizing o builder with
  | zero =>
      rw [Function.iterate_zero_apply] at hout
      refine ⟨builder, ?_⟩
      rw [postRunTrace, if_neg (by omega)]
      rfl
  | succ n ih =>
      obtain ⟨hlt, hevent⟩ := hin 0 n.succ_pos
      rw [Function.iterate_zero_apply] at hlt hevent
      obtain ⟨builder₁, hstep⟩ := postRunTrace_step hb hsize hmod hlt hevent (n + 1) builder
      obtain ⟨builder', hrest⟩ := ih (nextOffset_mod hmod)
        (fun k hk => by simpa using hin (k + 1) (by omega)) hout builder₁
      refine ⟨builder', ?_⟩
      rw [hstep, hrest, List.range_succ_eq_map]
      simp [Function.comp_def]

/-- What the loop read are such offsets. -/
theorem inside_of_postRunTrace {fuel : Nat} {o : Int} {builder builder' : Builder}
    {offsets : List Int}
    (h : postRunTrace constants b fuel (size + 16 - o) o builder = some (offsets, builder')) :
    ∃ n, offsets = (List.range n).map (fun k => (nextOffset b)^[k] o) ∧
      size ≤ (nextOffset b)^[n] o ∧ ∀ k < n, (nextOffset b)^[k] o < size ∧
        (0 ≤ (nextOffset b)^[k] o → EventInside constants b ((nextOffset b)^[k] o)) := by
  induction fuel generalizing o builder offsets with
  | zero => simp [postRunTrace] at h
  | succ fuel ih =>
      rw [postRunTrace] at h
      split at h
      next hlt =>
        simp only [Option.bind_eq_bind, Option.bind_eq_some_iff] at h
        obtain ⟨type, htype, n, hn, builder₁, hbuilder, ⟨rest, builder₂⟩, hrest, hout⟩ := h
        obtain ⟨rfl, rfl⟩ := Prod.mk.inj (Option.some.inj hout)
        have hnext : nextOffset b o = o + eventSize n := by rw [nextOffset, hn, Option.getD_some]
        have hpayload : (size : Int) + 16 - o - eventSize n = size + 16 - nextOffset b o := by
          rw [hnext]
          omega
        rw [hpayload, ← hnext] at hrest
        obtain ⟨m, rfl, hexit, hin⟩ := ih hrest
        refine ⟨m + 1, by simp [List.range_succ_eq_map, Function.comp_def], hexit, fun k hk => ?_⟩
        cases k with
        | zero =>
            rw [Function.iterate_zero_apply]
            refine ⟨by omega, fun hpos => ⟨hpos, fun hmidi => ?_⟩⟩
            rw [postRunEvent, if_pos (Option.some.inj (htype.symm.trans hmidi))] at hbuilder
            obtain ⟨body, hload, -⟩ := Option.map_eq_some_iff.1 hbuilder
            rw [Block.load] at hload
            split at hload
            next hfit =>
              rw [hn, Option.getD_some]
              omega
            next => cases hload
        | succ k =>
            rw [Function.iterate_succ_apply]
            exact hin k (by omega)
      next hle =>
        obtain ⟨rfl, -⟩ := Prod.mk.inj (Option.some.inj h)
        exact ⟨0, rfl, by rw [Function.iterate_zero_apply]; omega, fun k hk => by omega⟩

/-! ## Any contents -/

/-- The walk of the `while` loop over the given contents terminates, and every header and MIDI body
that it reads lies inside the buffer. -/
def WalkSafe (constants : Constants) (b : Block) (size : Nat) : Prop :=
  ∃ fuel offsets builder,
    postRunTrace constants b fuel size sizeofAtomSequence Builder.pushSequence =
      some (offsets, builder) ∧ ∀ o ∈ offsets, HeaderInside b o

/-- Followed from the first event by the sizes found in the headers, one of the first 1024 offsets
is at or past `atom.size`, and the events in front of it are inside the buffer. -/
def FollowsInside (constants : Constants) (b : Block) (size : Nat) : Prop :=
  ∃ n < 1024, size ≤ (nextOffset b)^[n] 16 ∧
    ∀ k < n, EventInside constants b ((nextOffset b)^[k] 16)

/-- The offsets at which a header is inside the buffer. -/
def headerOffsets : Finset Int := (Finset.range 1023).image fun i : Nat => 8 * (i : Int)

/-- These offsets are the multiples of eight from 0 up to 8184. -/
theorem mem_headerOffsets {o : Int} (hmod : o % 8 = 0) :
    o ∈ headerOffsets ↔ 0 ≤ o ∧ o < 8184 := by
  simp only [headerOffsets, Finset.mem_image, Finset.mem_range]
  constructor
  · rintro ⟨i, hi, rfl⟩
    omega
  · rintro ⟨hpos, hlt⟩
    exact ⟨(o / 8).toNat, by omega, by omega⟩

/-- There are at most 1023 offsets for a header. -/
theorem card_headerOffsets : headerOffsets.card ≤ 1023 := by
  have h := Finset.card_image_le (s := Finset.range 1023) (f := fun i : Nat => 8 * (i : Int))
  rwa [Finset.card_range] at h

/-- The walk is safe exactly when the events can be followed inside the buffer. -/
theorem walkSafe_iff_followsInside (hb : b.size = 8192) (hsize : size ≤ 8184) :
    WalkSafe constants b size ↔ FollowsInside constants b size := by
  have hstart : ((size : Int) + 16 - 16) = size := by omega
  constructor
  · rintro ⟨fuel, offsets, builder, htrace, hinside⟩
    rw [sizeofAtomSequence, ← hstart] at htrace
    obtain ⟨n, rfl, hout, hin⟩ := inside_of_postRunTrace htrace
    have hheader : ∀ k < n, HeaderInside b ((nextOffset b)^[k] 16) :=
      fun k hk => hinside _ (List.mem_map_of_mem (List.mem_range.2 hk))
    have hmod : ∀ k, (nextOffset b)^[k] 16 % 8 = 0 := iterate_nextOffset_mod (by norm_num)
    -- the offsets below `atom.size` are all different, and there are 1023 of them
    have hcard : n ≤ (headerOffsets.filter fun o : Int => o < size).card := by
      refine Lts.iterate_exit_le_card (f := nextOffset b) (x := 16) (fun k hk => ?_) ?_
      · have hlt := (hin k hk).1
        have hpos := (hheader k hk).1
        exact Finset.mem_filter.2 ⟨(mem_headerOffsets (hmod k)).2 ⟨hpos, by omega⟩, hlt⟩
      · intro hmem
        have := (Finset.mem_filter.1 hmem).2
        omega
    have hle : n ≤ 1023 := (hcard.trans (Finset.card_filter_le _ _)).trans card_headerOffsets
    exact ⟨n, by omega, hout, fun k hk => (hin k hk).2 (hheader k hk).1⟩
  · rintro ⟨n, -, hout, hin⟩
    -- the loop ends at the first offset that reaches `atom.size`
    have hexit : ∃ n, (size : Int) ≤ (nextOffset b)^[n] 16 := ⟨n, hout⟩
    have hfirst : ∀ k < Nat.find hexit, (nextOffset b)^[k] 16 < size ∧
        EventInside constants b ((nextOffset b)^[k] 16) := by
      intro k hk
      have hle := Nat.find_min' hexit hout
      exact ⟨not_le.1 (Nat.find_min hexit hk), hin k (by omega)⟩
    obtain ⟨builder, htrace⟩ := postRunTrace_of_inside hb hsize (o := 16) (by norm_num) hfirst
      (Nat.find_spec hexit) Builder.pushSequence
    rw [hstart] at htrace
    refine ⟨_, _, _, htrace, fun o ho => ?_⟩
    obtain ⟨k, hk, rfl⟩ := List.mem_map.1 ho
    obtain ⟨hlt, hpos, -⟩ := hfirst k (List.mem_range.1 hk)
    exact headerInside_of_lt hb hsize (iterate_nextOffset_mod (by norm_num) k) hpos hlt

/-- A safe walk is one after which `post_run_atom_output` returns. -/
theorem WalkSafe.postRunAtomOutput (h : WalkSafe constants b size)
    (hload : b.loadWord 4 0 = some size) (id : Nat) (pool : Nat → PwBuffer) :
    ∃ fuel this', postRunAtomOutput constants fuel ⟨b, some id, pool⟩ = some this' := by
  obtain ⟨fuel, offsets, builder, htrace, -⟩ := h
  have hloop := postRunTrace_snd constants b fuel size sizeofAtomSequence Builder.pushSequence
  rw [htrace, Option.map_some] at hloop
  rw [sizeofAtomSequence, Nat.cast_ofNat] at hloop
  rcases Nat.lt_or_ge 16 size with hlt | hle
  · exact ⟨fuel, _, by rw [postRunAtomOutput_walk hload hlt, ← hloop, Option.map_some]⟩
  · exact ⟨fuel, _, postRunAtomOutput_empty hload hle fuel pool⟩

/-- The buffer in which the plugin wrote a note-on. -/
theorem walkSafe_noteOn :
    let constants : Constants := ⟨1, 2, by decide, by decide⟩
    WalkSafe constants (WrittenSequence.single noteOn fits_noteOn (by decide)).block 32 := by
  intro constants
  refine (walkSafe_iff_followsInside rfl (by decide)).2 ⟨1, by decide, by decide, fun k hk => ?_⟩
  obtain rfl : k = 0 := by omega
  exact ⟨by decide, fun _ => by decide⟩

/-- A header whose `body.size` is 16 less than 2^32 is its own successor: over such contents the
loop never ends. -/
theorem walk_never_ends :
    let constants : Constants := ⟨1, 2, by decide, by decide⟩
    let old := (Block.zeroed atomBufferSize).put 24 (leBytes 4 0xfffffff0)
    ¬WalkSafe constants (chunk constants old) 8184 := by
  intro constants old
  have htype : loadWordAt (chunk constants old) 4 (16 + 12) = some 0 := by decide
  have hsize : loadWordAt (chunk constants old) 4 (16 + 8) = some 0xfffffff0 := by decide
  have hnone : ∀ fuel builder,
      postRunTrace constants (chunk constants old) fuel 8184 16 builder = none := by
    intro fuel
    induction fuel with
    | zero => exact fun _ => rfl
    | succ fuel ih =>
        intro builder
        have hstay : eventSize 0xfffffff0 = 0 := by decide
        rw [postRunTrace, if_pos (by norm_num), htype, hsize]
        simp only [Option.bind_eq_bind, Option.bind_some, postRunEvent, hstay, sub_zero, add_zero,
          if_neg constants.midiMidiEvent_pos.ne, ih, Option.bind_none]
  rintro ⟨fuel, offsets, builder, htrace, -⟩
  exact absurd (htrace.symm.trans (hnone fuel _)) (by simp)

/-! ## Sequences that the plugin wrote -/

/-- The offsets of the headers of events that lie one after the other from `a`. -/
def eventOffsets : Nat → List AtomEvent → List Int
  | _, [] => []
  | a, ev :: evs => (a : Int) :: eventOffsets (a + ev.span) evs

/-- From a held event the walk goes to the event behind it. -/
theorem nextOffset_eq {ev : AtomEvent} {a : Nat} (hf : ev.Fits) (h : b.Holds a ev.bytes)
    (hle : ev.span ≤ 8192) : nextOffset b a = (a + ev.span : Nat) := by
  obtain ⟨-, hsize, -, -⟩ := holds_event_iff.1 h
  have hload : loadWordAt b 4 ((a : Int) + 8) = some ev.body.length := by
    rw [← hsize.loadWord_of_lt hf.size, ← loadWordAt_natCast]
    norm_num
  have hlen := ev.length_bytes_le_span
  rw [ev.length_bytes] at hlen
  rw [nextOffset, hload, Option.getD_some, eventSize_eq (by omega), AtomEvent.span]
  push_cast
  ring

/-- A held event is inside the block. -/
theorem eventInside_of_holds {ev : AtomEvent} {a : Nat} (hf : ev.Fits) (h : b.Holds a ev.bytes) :
    EventInside constants b a := by
  obtain ⟨-, hsize, -, -⟩ := holds_event_iff.1 h
  have hload : loadWordAt b 4 ((a : Int) + 8) = some ev.body.length := by
    rw [← hsize.loadWord_of_lt hf.size, ← loadWordAt_natCast]
    norm_num
  have hend := h.1
  rw [ev.length_bytes] at hend
  refine ⟨by omega, fun _ => ?_⟩
  rw [hload, Option.getD_some]
  omega

/-- Following the sizes from the first of the held events goes through the headers of all of them,
and ends behind the last. -/
theorem HoldsEvents.follows (constants : Constants) {evs : List AtomEvent} {a : Nat}
    (hf : ∀ ev ∈ evs, ev.Fits) (h : HoldsEvents b a evs) (hb : spanAll evs ≤ 8192) :
    (nextOffset b)^[evs.length] (a : Int) = (a + spanAll evs : Nat) ∧
    eventOffsets a evs = (List.range evs.length).map (fun k => (nextOffset b)^[k] (a : Int)) ∧
    ∀ k < evs.length, (nextOffset b)^[k] (a : Int) + 16 ≤ (a + spanAll evs : Nat) ∧
      EventInside constants b ((nextOffset b)^[k] (a : Int)) := by
  induction evs generalizing a with
  | nil => simp [eventOffsets]
  | cons ev evs ih =>
      obtain ⟨hev, hevs⟩ := h
      rw [spanAll_cons] at hb
      have hfit := hf ev List.mem_cons_self
      have hspan := ev.sixteen_le_span
      have hnext := nextOffset_eq hfit hev (by omega)
      obtain ⟨hend, hoffsets, hin⟩ :=
        ih (fun x hx => hf x (List.mem_cons_of_mem ev hx)) hevs (by omega)
      rw [spanAll_cons, List.length_cons, Function.iterate_succ_apply, hnext, ← Nat.add_assoc]
      refine ⟨hend, ?_, fun k hk => ?_⟩
      · rw [eventOffsets, hoffsets, List.range_succ_eq_map]
        simp [Function.comp_def, hnext]
      · cases k with
        | zero =>
            rw [Function.iterate_zero_apply]
            exact ⟨by omega, eventInside_of_holds hfit hev⟩
        | succ k =>
            rw [Function.iterate_succ_apply, hnext]
            exact hin k (by omega)

/-- The loop over a written sequence reads the headers of its events and builds the pod of its MIDI
bodies. -/
theorem WrittenSequence.postRunTrace (constants : Constants) (seq : WrittenSequence) :
    postRunTrace constants seq.block (seq.events.length + 1) (8 + spanAll seq.events : Nat)
        sizeofAtomSequence Builder.pushSequence =
      some (eventOffsets 16 seq.events,
        Builder.pushSequence.midi (midiBodies constants seq.events)) := by
  have hbound := seq.isSequence.bound
  rw [seq.size] at hbound
  obtain ⟨hend, hoffsets, hin⟩ :=
    HoldsEvents.follows constants seq.isSequence.fits seq.isSequence.events (by omega)
  have hstart : ((8 + spanAll seq.events : Nat) : Int) + 16 - (16 : Nat) =
      (8 + spanAll seq.events : Nat) := by omega
  have hbelow : ∀ k < seq.events.length,
      (nextOffset seq.block)^[k] (16 : Nat) < (8 + spanAll seq.events : Nat) ∧
        EventInside constants seq.block ((nextOffset seq.block)^[k] (16 : Nat)) := by
    intro k hk
    obtain ⟨hle, hevent⟩ := hin k hk
    exact ⟨by omega, hevent⟩
  obtain ⟨builder, htrace⟩ := postRunTrace_of_inside seq.size (by omega) (by norm_num) hbelow
    (by omega) Builder.pushSequence
  rw [hstart, ← hoffsets] at htrace
  have hloop := postRunTrace_snd constants seq.block (seq.events.length + 1)
    (8 + spanAll seq.events : Nat) sizeofAtomSequence Builder.pushSequence
  rw [htrace, Option.map_some] at hloop
  obtain ⟨bodies, hwalk, rfl⟩ := midiWalk_of_postRunLoop hloop.symm
  rw [htrace, hwalk.unique seq.midiWalk]

/-- The MIDI events take no more room in the pod than all events in the sequence. -/
theorem podSize_le (constants : Constants) (evs : List AtomEvent) :
    podSize (midiBodies constants evs) ≤ 16 + spanAll evs := by
  induction evs with
  | nil => simp [podSize, midiBodies]
  | cons ev evs ih =>
      rw [podSize, midiBodies] at ih ⊢
      rw [spanAll_cons, List.filter_cons]
      split
      next => simp only [List.map_cons, List.sum_cons, AtomEvent.span]; omega
      next => omega

/-- The decoding of a sequence that the plugin wrote, with at least one event. The loop reads the
headers of its events and stops behind the last; the pod has the bodies of the MIDI events, in order
and unchanged, and takes at most 8192 bytes, so that the published chunk never exceeds a buffer of
that size and its reader finds the bodies. -/
theorem postRunAtomOutput_decodes (constants : Constants) (seq : WrittenSequence)
    (hne : seq.events ≠ []) (id : Nat) (pool : Nat → PwBuffer) :
    ∃ fuel builder q,
      postRunTrace constants seq.block fuel (8 + spanAll seq.events : Nat) sizeofAtomSequence
        Builder.pushSequence = some (eventOffsets 16 seq.events, builder) ∧
      postRunAtomOutput constants fuel ⟨seq.block, some id, pool⟩ =
        some ⟨seq.block, some id, Function.update pool id q⟩ ∧
      q = ⟨(pool id).maxsize, builder.controls, builder.offset⟩ ∧
      q.controls = (midiBodies constants seq.events).map
        (fun body => { offset := 0, type := spaControlMidi, body }) ∧
      q.chunkSize = podSize (midiBodies constants seq.events) ∧ q.chunkSize ≤ 8192 ∧
      (8192 ≤ q.maxsize →
        q.chunkSize ≤ q.maxsize ∧ q.midi = midiBodies constants seq.events) := by
  have htrace := seq.postRunTrace constants
  have hloop := postRunTrace_snd constants seq.block (seq.events.length + 1)
    (8 + spanAll seq.events : Nat) sizeofAtomSequence Builder.pushSequence
  rw [htrace, Option.map_some, sizeofAtomSequence, Nat.cast_ofNat] at hloop
  have hpost : postRunAtomOutput constants (seq.events.length + 1) ⟨seq.block, some id, pool⟩ = _ :=
    postRunAtomOutput_walk seq.isSequence.size (WrittenSequence.sixteen_lt hne) _ pool
  rw [← hloop, Option.map_some] at hpost
  have hbound := seq.isSequence.bound
  rw [seq.size] at hbound
  have hle := podSize_le constants seq.events
  have hoffset : (Builder.pushSequence.midi (midiBodies constants seq.events)).offset =
      podSize (midiBodies constants seq.events) := by
    rw [Builder.midi_eq]
    rfl
  refine ⟨_, _, _, htrace, hpost, rfl, ?_, hoffset, by simp only [hoffset]; omega, fun hmax => ?_⟩
  · rw [Builder.midi_eq]
    rfl
  · simp only at hmax
    refine ⟨by simp only [hoffset]; omega, ?_⟩
    rw [midi_pushSequence, if_pos (by omega)]

/-- The note-on is read and built. -/
theorem postRunAtomOutput_decodes_noteOn :
    let constants : Constants := ⟨1, 2, by decide, by decide⟩
    let seq := WrittenSequence.single noteOn fits_noteOn (by decide)
    ∃ fuel builder q,
      postRunTrace constants seq.block fuel 32 sizeofAtomSequence Builder.pushSequence =
        some ([16], builder) ∧
      postRunAtomOutput constants fuel ⟨seq.block, some 0, emptyPool⟩ =
        some ⟨seq.block, some 0, Function.update emptyPool 0 q⟩ ∧
      q.midi = [[0x90, 60, 100]] ∧ q.chunkSize = 40 := by
  intro constants seq
  obtain ⟨fuel, builder, q, htrace, hpost, rfl, -, hchunk, -, hread⟩ :=
    postRunAtomOutput_decodes constants seq (List.cons_ne_nil _ _) 0 emptyPool
  exact ⟨fuel, builder, _, htrace, hpost, (hread (Nat.le_refl _)).2, hchunk⟩

end Soundcan.Lph
