import Soundcan.Galv.Traversal
import Soundcan.Lib.Transition

/-!
# Which capacities an event buffer may have

`lv2_evbuf_write` tests the unpadded size of the event against
`capacity - sizeof(LV2_Atom) - atom.size`, computed in `size_t`, and then lets `atom.size` grow by
the padded size. Where the capacity is below the two headers, or leaves a remainder modulo 8 that an
event can use up, the subtraction wraps and every later event is written, wherever it ends. Over all
sequences of calls this happens exactly for the capacities that `writes_stay_inside_iff` leaves out.
-/

namespace Soundcan.Galv

open Bytes Lv2

/-- An event buffer and the iterators that its user has obtained since the last reset. -/
structure EvbufUser where
  evbuf : Evbuf
  iters : List Nat

/-- The calls of the user. -/
inductive EvbufCall where
  | reset
  | begin
  | end
  | write (iter : Nat) (args : EventArgs)

namespace EvbufUser

/-- One call. A write outside of the allocation is undefined. -/
def step (s : EvbufUser) : EvbufCall → Option EvbufUser
  | .reset => do
    let evbuf ← s.evbuf.reset true
    some ⟨evbuf, []⟩
  | .begin => some { s with iters := s.iters ++ [0] }
  | .end => do
    let offset ← s.evbuf.endOffset
    some { s with iters := s.iters ++ [offset] }
  | .write iter args => do
    let offset ← s.iters[iter]?
    let (_, evbuf, offset) ← s.evbuf.write offset args.event
    some ⟨evbuf, s.iters.set iter offset⟩

/-- Whatever is written next, through any of the iterators, stays inside the allocation, and the
subtraction in its test does not wrap. -/
def WritesInside (s : EvbufUser) : Prop :=
  ∀ offset ∈ s.iters, (∃ size, s.evbuf.buf.loadWord 4 0 = some size ∧
    sizeofAtom + size ≤ s.evbuf.capacity) ∧
    ∀ args : EventArgs, (s.evbuf.write offset args.event).isSome

end EvbufUser

/-- The user that `lv2_evbuf_new` returns a buffer to. -/
def newEvbufUser (capacity atomChunk atomSequence : UInt32) : EvbufUser :=
  ⟨.new capacity.toNat atomChunk.toNat atomSequence.toNat, []⟩

/-- The runs of calls on a new buffer. -/
def evbufUsers (capacity atomChunk atomSequence : UInt32) : Lts EvbufUser EvbufCall where
  init s := s = newEvbufUser capacity atomChunk atomSequence
  step s call s' := s.step call = some s'

/-! ## Capacities that suffice -/

/-- What holds between the calls where the capacity suffices: there is room left in units of 8, or
so little that no event fits at all. -/
structure CapacityInv (s : EvbufUser) : Prop where
  size_buf : s.evbuf.buf.size = 32 + s.evbuf.capacity
  capacity_lt : s.evbuf.capacity < 2 ^ 32
  atomSequence_lt : s.evbuf.atomSequence < 2 ^ 32
  le_capacity : 16 ≤ s.evbuf.capacity
  size : ∃ size, s.evbuf.buf.loadWord 4 0 = some size ∧ size % 8 = 0 ∧
    8 + size ≤ s.evbuf.capacity ∧ (∀ offset ∈ s.iters, offset ≤ size) ∧
    (8 ∣ s.evbuf.capacity ∨ s.evbuf.capacity < 32 ∧ s.evbuf.capacity < 24 + size)

variable {s s' : EvbufUser} {capacity atomChunk atomSequence : UInt32}

/-- Under the invariant the next write stays inside. -/
theorem CapacityInv.writesInside (h : CapacityInv s) : s.WritesInside := by
  obtain ⟨size, hsize, -, hroom, hiters, -⟩ := h.size
  refine fun offset hoffset => ⟨⟨size, hsize, hroom⟩, fun args => ?_⟩
  by_cases hfit : 8 + size + (16 + args.event.body.length) ≤ s.evbuf.capacity
  · rw [Evbuf.write_accepted h.size_buf hsize h.capacity_lt hfit (hiters offset hoffset)]
    rfl
  · rw [Evbuf.write_refused hsize h.capacity_lt hroom (by omega)]
    rfl

/-- A reset input holds no events. -/
theorem CapacityInv.reset (h : CapacityInv s)
    (hcap : 8 ∣ s.evbuf.capacity ∨ s.evbuf.capacity < 32) :
    CapacityInv ⟨{ s.evbuf with buf := s.evbuf.resetBuf }, []⟩ := by
  have hbuf := h.size_buf
  refine ⟨hbuf, h.capacity_lt, h.atomSequence_lt, h.le_capacity, 8, ?_, rfl, h.le_capacity,
    by simp, ?_⟩
  · exact Evbuf.loadWord_size_resetBuf (by omega)
  · exact hcap.imp_right fun hlt => ⟨hlt, hlt⟩

/-- A fresh iterator is not behind the events. -/
theorem CapacityInv.endOffset (h : CapacityInv s) {offset size : Nat}
    (hend : s.evbuf.endOffset = some offset) (hsize : s.evbuf.buf.loadWord 4 0 = some size)
    (hmod : size % 8 = 0) (hroom : 8 + size ≤ s.evbuf.capacity) : offset ≤ size := by
  have hcap := h.capacity_lt
  obtain ⟨events, hevents, hoffset⟩ := Option.bind_eq_some_iff.1 hend
  obtain ⟨size', hsize', hevents⟩ := Option.bind_eq_some_iff.1 hevents
  obtain ⟨type, -, hevents⟩ := Option.bind_eq_some_iff.1 hevents
  obtain rfl : size = size' := Option.some.inj (hsize.symm.trans hsize')
  obtain rfl := Option.some.inj hoffset
  split at hevents
  · split at hevents
    · obtain rfl := Option.some.inj hevents
      rw [sizeofAtomSequenceBody, atomPadSize_eq (by omega), pad8_of_mod (by omega)]
      omega
    · cases hevents
  · obtain rfl := Option.some.inj hevents
    exact Nat.zero_le _

/-- An event is written only where the room is left in units of 8, and its padding fits that room as
well. -/
theorem CapacityInv.written (h : CapacityInv s) {size iter offset : Nat} {args : EventArgs}
    (hsize : s.evbuf.buf.loadWord 4 0 = some size) (hmod : size % 8 = 0)
    (hiters : ∀ offset ∈ s.iters, offset ≤ size)
    (hcap : 8 ∣ s.evbuf.capacity ∨ s.evbuf.capacity < 32 ∧ s.evbuf.capacity < 24 + size)
    (hfit : 8 + size + (16 + args.event.body.length) ≤ s.evbuf.capacity) (hoffset : offset ≤ size)
    {result : Bool × Evbuf × Nat} (hwrite : s.evbuf.write offset args.event = some result) :
    CapacityInv ⟨result.2.1, s.iters.set iter result.2.2⟩ := by
  have hbuf := h.size_buf
  have hlt := h.capacity_lt
  have hdvd : 8 ∣ s.evbuf.capacity := hcap.resolve_right fun hsmall => by omega
  have hspan : args.event.span = 16 + pad8 args.event.body.length := rfl
  have hpad := pad8_lt args.event.body.length
  have hspanMod := args.event.span_mod
  rw [Evbuf.write_accepted hbuf hsize hlt hfit hoffset] at hwrite
  obtain rfl := Option.some.inj hwrite
  refine ⟨hbuf, hlt, h.atomSequence_lt, h.le_capacity, size + args.event.span, ?_, by omega, ?_,
    ?_, .inl hdvd⟩
  · exact Block.loadWord_put_self (by simp only [Block.size_put]; omega) (by norm_num; omega)
  · show 8 + (size + args.event.span) ≤ s.evbuf.capacity
    omega
  · intro x hx
    rcases List.mem_or_eq_of_mem_set hx with hx | rfl
    · have := hiters x hx
      omega
    · exact Nat.add_le_add_right hoffset _

/-- Every call keeps the invariant. -/
theorem CapacityInv.step (h : CapacityInv s) {call : EvbufCall} (hstep : s.step call = some s') :
    CapacityInv s' := by
  obtain ⟨size, hsize, hmod, hroom, hiters, hcap⟩ := h.size
  have hbuf := h.size_buf
  cases call with
  | reset =>
      obtain ⟨evbuf, hreset, hs'⟩ := Option.bind_eq_some_iff.1 hstep
      rw [Evbuf.reset_input (by omega)] at hreset
      obtain rfl := Option.some.inj hreset
      obtain rfl := Option.some.inj hs'
      exact h.reset (hcap.imp_right And.left)
  | begin =>
      obtain rfl := Option.some.inj hstep
      refine ⟨hbuf, h.capacity_lt, h.atomSequence_lt, h.le_capacity, size, hsize, hmod, hroom, ?_,
        hcap⟩
      exact List.forall_mem_append.2 ⟨hiters, List.forall_mem_singleton.2 (Nat.zero_le _)⟩
  | «end» =>
      obtain ⟨offset, hend, hs'⟩ := Option.bind_eq_some_iff.1 hstep
      obtain rfl := Option.some.inj hs'
      have hoffset := h.endOffset hend hsize hmod hroom
      refine ⟨hbuf, h.capacity_lt, h.atomSequence_lt, h.le_capacity, size, hsize, hmod, hroom, ?_,
        hcap⟩
      exact List.forall_mem_append.2 ⟨hiters, List.forall_mem_singleton.2 hoffset⟩
  | write iter args =>
      obtain ⟨offset, hiter, hstep⟩ := Option.bind_eq_some_iff.1 hstep
      obtain ⟨⟨ok, evbuf, offset'⟩, hwrite, hs'⟩ := Option.bind_eq_some_iff.1 hstep
      obtain rfl := Option.some.inj hs'
      have hoffset := hiters offset (List.mem_of_getElem? hiter)
      by_cases hfit : 8 + size + (16 + args.event.body.length) ≤ s.evbuf.capacity
      · exact h.written hsize hmod hiters hcap hfit hoffset hwrite
      · rw [Evbuf.write_refused hsize h.capacity_lt hroom (by omega)] at hwrite
        obtain ⟨-, rfl, rfl⟩ : _ ∧ s.evbuf = evbuf ∧ offset = offset' := by simpa using hwrite
        refine ⟨hbuf, h.capacity_lt, h.atomSequence_lt, h.le_capacity, size, hsize, hmod, hroom,
          ?_, hcap⟩
        intro x hx
        rcases List.mem_or_eq_of_mem_set hx with hx | rfl
        · exact hiters x hx
        · exact hoffset

/-- The size in the header of a new buffer is 0. -/
theorem loadWord_newEvbufUser :
    (newEvbufUser capacity atomChunk atomSequence).evbuf.buf.loadWord 4 0 = some 0 :=
  Block.loadWord_zeroed (by omega)

/-- The invariant holds of a new buffer. -/
theorem capacityInv_new (hle : 16 ≤ capacity.toNat)
    (hcap : 8 ∣ capacity.toNat ∨ capacity.toNat < 24) :
    CapacityInv (newEvbufUser capacity atomChunk atomSequence) := by
  refine ⟨rfl, capacity.toNat_lt, atomSequence.toNat_lt, hle, 0, loadWord_newEvbufUser, rfl, ?_,
    by simp [newEvbufUser], ?_⟩
  · show 8 + 0 ≤ capacity.toNat
    omega
  · exact hcap.imp_right fun hlt => ⟨lt_of_lt_of_le hlt (by norm_num), hlt⟩

/-- The user behind the first reset. -/
def resetEvbufUser (capacity atomChunk atomSequence : UInt32) : EvbufUser :=
  let evbuf := (newEvbufUser capacity atomChunk atomSequence).evbuf
  ⟨{ evbuf with buf := evbuf.resetBuf }, []⟩

/-- A new buffer has 32 bytes and its capacity. -/
theorem size_newEvbufUser :
    (newEvbufUser capacity atomChunk atomSequence).evbuf.buf.size = 32 + capacity.toNat := rfl

/-- The first reset of a new buffer. -/
theorem step_reset_new : (newEvbufUser capacity atomChunk atomSequence).step .reset =
    some (resetEvbufUser capacity atomChunk atomSequence) := by
  rw [EvbufUser.step, Evbuf.reset_input (by rw [size_newEvbufUser]; omega)]
  rfl

/-- The size in the header behind a reset for input is 8. -/
theorem loadWord_resetEvbufUser :
    (resetEvbufUser capacity atomChunk atomSequence).evbuf.buf.loadWord 4 0 = some 8 :=
  Evbuf.loadWord_size_resetBuf (by rw [size_newEvbufUser]; omega)

/-- The invariant holds behind the reset. -/
theorem capacityInv_reset (hle : 16 ≤ capacity.toNat)
    (hcap : 8 ∣ capacity.toNat ∨ capacity.toNat < 32) :
    CapacityInv (resetEvbufUser capacity atomChunk atomSequence) :=
  ⟨rfl, capacity.toNat_lt, atomSequence.toNat_lt, hle, 8, loadWord_resetEvbufUser, rfl, hle,
    by simp [resetEvbufUser], hcap.imp_right fun hlt => ⟨hlt, hlt⟩⟩

/-! ## Capacities that do not -/

/-- Where the sequence does not fit the capacity, the subtraction wraps. -/
theorem not_writesInside {offset size : Nat} (hiter : offset ∈ s.iters)
    (hsize : s.evbuf.buf.loadWord 4 0 = some size) (hlt : s.evbuf.capacity < 8 + size) :
    ¬s.WritesInside := by
  intro h
  obtain ⟨⟨size', hsize', hroom⟩, -⟩ := h offset hiter
  obtain rfl := Option.some.inj (hsize.symm.trans hsize')
  rw [sizeofAtom] at hroom
  omega

/-- A capacity below the two headers is too small behind a reset. -/
theorem not_writesInside_reset (hlt : capacity.toNat < 16) :
    ∃ s, (evbufUsers capacity atomChunk atomSequence).Run [.reset, .begin] s ∧
      ¬s.WritesInside := by
  let s := resetEvbufUser capacity atomChunk atomSequence
  have hrun : (evbufUsers capacity atomChunk atomSequence).Run [.reset, .begin]
      { s with iters := [0] } :=
    Lts.Run.step (Lts.Run.step (.init rfl) step_reset_new) rfl
  exact ⟨_, hrun, not_writesInside (List.mem_singleton_self 0) loadWord_resetEvbufUser
    (show capacity.toNat < 16 from hlt)⟩

/-- An event that takes all of the room that is left, where that is not a multiple of 8: its padding
leaves less than nothing. -/
theorem not_writesInside_write {size : Nat} (hbuf : s.evbuf.buf.size = 32 + s.evbuf.capacity)
    (hlt : s.evbuf.capacity < 2 ^ 32) (hsize : s.evbuf.buf.loadWord 4 0 = some size)
    (hmod : size % 8 = 0) (hroom : 24 + size ≤ s.evbuf.capacity) (hdvd : ¬8 ∣ s.evbuf.capacity) :
    ∃ args s', EvbufUser.step { s with iters := [0] } (.write 0 args) = some s' ∧
      ¬s'.WritesInside := by
  let args : EventArgs := ⟨0, 0, List.replicate (s.evbuf.capacity - 24 - size) 0, by simp; omega⟩
  have hlen : args.event.body.length = s.evbuf.capacity - 24 - size := List.length_replicate
  have hspan : args.event.span = 16 + pad8 args.event.body.length := rfl
  have hpad := pad8_lt args.event.body.length
  have hspanMod := args.event.span_mod
  have hle := le_pad8 args.event.body.length
  let buf := (s.evbuf.buf.put (16 + 0) args.event.bytes).put 0
    (leBytes 4 (size + args.event.span))
  have hwrite : s.evbuf.write 0 args.event =
      some (true, { s.evbuf with buf }, 0 + args.event.span) :=
    Evbuf.write_accepted hbuf hsize hlt (by omega) (Nat.zero_le size)
  have hsize' : buf.loadWord 4 0 = some (size + args.event.span) :=
    Block.loadWord_put_self (by simp only [Block.size_put]; omega) (by norm_num; omega)
  refine ⟨args, ⟨{ s.evbuf with buf }, [0 + args.event.span]⟩, ?_, ?_⟩
  · simp only [EvbufUser.step, List.getElem?_cons_zero, Option.bind_eq_bind, Option.bind_some,
      hwrite]
    rfl
  · refine not_writesInside (List.mem_singleton_self _) hsize' ?_
    show s.evbuf.capacity < 8 + (size + args.event.span)
    omega

/-- For which capacities every sequence of calls on a new buffer writes inside its allocation and
tests for room without wrapping; and for which the sequences that begin with a reset do. -/
theorem writes_stay_inside_iff (capacity atomChunk atomSequence : UInt32) :
    ((∀ tr s, (evbufUsers capacity atomChunk atomSequence).Run tr s → s.WritesInside) ↔
      16 ≤ capacity.toNat ∧ (8 ∣ capacity.toNat ∨ capacity.toNat < 24)) ∧
    ((∀ tr s, (evbufUsers capacity atomChunk atomSequence).Run (.reset :: tr) s →
        s.WritesInside) ↔
      16 ≤ capacity.toNat ∧ (8 ∣ capacity.toNat ∨ capacity.toNat < 32)) := by
  have hsmall : ∀ tr, tr = [EvbufCall.begin] → (∀ s,
      (evbufUsers capacity atomChunk atomSequence).Run (.reset :: tr) s → s.WritesInside) →
      16 ≤ capacity.toNat := by
    rintro tr rfl h
    by_contra hlt
    have ⟨s, hrun, hnot⟩ : ∃ s, (evbufUsers capacity atomChunk atomSequence).Run
        [.reset, .begin] s ∧ ¬s.WritesInside := not_writesInside_reset (not_le.1 hlt)
    exact hnot (h s hrun)
  constructor
  · constructor
    · intro h
      refine ⟨hsmall _ rfl (h _), or_iff_not_imp_left.2 fun hdvd => ?_⟩
      by_contra hge
      obtain ⟨args, s', hstep, hnot⟩ := not_writesInside_write
        (s := newEvbufUser capacity atomChunk atomSequence) size_newEvbufUser
        capacity.toNat_lt loadWord_newEvbufUser rfl (not_lt.1 hge) hdvd
      exact hnot (h [.begin, .write 0 args] s'
        (Lts.Run.step (Lts.Run.step (.init rfl) (by rfl)) hstep))
    · rintro ⟨hle, hcap⟩ tr s hrun
      have hinv : CapacityInv s := hrun.invariant (I := fun _ s => CapacityInv s)
        (fun s hs => by
          obtain rfl : s = _ := hs
          exact capacityInv_new hle hcap)
        (fun _ _ _ _ _ hi hstep => hi.step hstep)
      exact hinv.writesInside
  · constructor
    · intro h
      refine ⟨hsmall _ rfl (h _), or_iff_not_imp_left.2 fun hdvd => ?_⟩
      by_contra hge
      obtain ⟨args, s', hstep, hnot⟩ := not_writesInside_write
        (s := resetEvbufUser capacity atomChunk atomSequence) rfl
        capacity.toNat_lt loadWord_resetEvbufUser rfl (not_lt.1 hge) hdvd
      exact hnot (h [.begin, .write 0 args] s'
        (Lts.Run.step (Lts.Run.step (Lts.Run.step (.init rfl) step_reset_new) (by rfl)) hstep))
    · rintro ⟨hle, hcap⟩ tr s hrun
      have hinv : CapacityInv s := hrun.invariant_cons (I := fun _ s => CapacityInv s)
        (fun s s' hs hstep => by
          obtain rfl : s = _ := hs
          obtain rfl := Option.some.inj (step_reset_new.symm.trans hstep)
          exact capacityInv_reset hle hcap)
        (fun _ _ _ _ hi hstep => hi.step hstep)
      exact hinv.writesInside

/-- An event of one byte. -/
def oneByteEvent : EventArgs := ⟨0, 7, [0x90], by decide⟩

/-- In a buffer of 33 bytes, one event of a byte is enough for the next write to leave the
allocation. -/
theorem oneByteEvent_overruns :
    ∃ s, (evbufUsers 33 1 2).Run [.reset, .begin, .write 0 oneByteEvent] s ∧ ¬s.WritesInside ∧
      s.iters = [24] ∧ s.evbuf.write 24 ⟨0, 7, List.replicate 100 0⟩ = none := by
  have hfold : ([.reset, .begin, .write 0 oneByteEvent].foldlM EvbufUser.step
      (newEvbufUser 33 1 2)).map (fun s => (s.iters, s.evbuf.buf.loadWord 4 0,
        decide (s.evbuf.capacity < 40),
        (s.evbuf.write 24 ⟨0, 7, List.replicate 100 0⟩).isNone)) =
      some ([24], some 32, true, true) := by rfl
  obtain ⟨s, hs, heq⟩ := Option.map_eq_some_iff.1 hfold
  simp only [Prod.mk.injEq, decide_eq_true_eq, Option.isNone_iff_eq_none] at heq
  obtain ⟨hiters, hsize, hlt, hnone⟩ := heq
  have hmem : 24 ∈ s.iters := by rw [hiters]; exact List.mem_singleton_self 24
  exact ⟨s, Lts.run_of_foldlM (fun _ _ _ h => h) rfl hs, not_writesInside hmem hsize hlt, hiters,
    hnone⟩

end Soundcan.Galv
