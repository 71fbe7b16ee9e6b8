import Soundcan.Lib.Framing

/-!
# A queue that is replaced while it is in use

Where a thread puts a new queue in the place of one that a writer and a reader use, these go on with
what they have begun: a write that is under way ends in the queue it was begun on, and the reader's
call ends there, at the space it saw on entry. Nothing is begun on a replaced queue, so what it
accepts behind the last call on it is lost. A replacement loses nothing exactly when that call reads
all that was accepted, and a write that is under way on a replaced queue loses nothing exactly when
it is refused (`Replaceable.delivered_step_iff`).
-/

namespace Framing

variable {μ η : Type}

/-- The messages that the reader's call under way is still to decode. -/
def Channel.inCall (c : Channel μ η) : List μ := (c.accepted.take c.entered).drop c.decoded.length

/-- Every accepted message is decoded, or will be by the call under way. -/
def Channel.Delivered (c : Channel μ η) : Prop := c.accepted = c.decoded ++ c.inCall

/-- A queue without messages that nobody uses. -/
def Channel.new (capacity : Nat) : Channel μ η := ⟨⟨capacity, []⟩, none, .idle, [], [], 0⟩

/-- The queue in use, and the queues that it has replaced, the oldest first. -/
structure Replaceable (μ η : Type) where
  current : Channel μ η
  replaced : List (Channel μ η)

/-- The steps of the two threads on the queue in use and on the replaced ones, by their index, and
the replacement. -/
inductive ReplaceableStep (μ : Type) where
  | current (a : ChannelStep μ)
  | replaced (i : Nat) (a : ChannelStep μ)
  | replace

/-- The operation goes on with a write or a call that is under way. -/
def ChannelStep.goesOn : ChannelStep μ → Bool
  | .finish | .read => true
  | .begin _ | .enter => false

/-- The thread of the operation has nothing under way on this queue, unless the operation goes on
with it. -/
def Channel.allows (c : Channel μ η) : ChannelStep μ → Bool
  | .begin _ => c.writing.isNone
  | .enter => match c.reader with
    | .idle => true
    | _ => false
  | .finish | .read => true

/-- A step, undefined where the reader's call fails. -/
def Channel.checkedStep (fr : Framing μ η) (c : Channel μ η) (a : ChannelStep μ) :
    Option (Channel μ η) := do
  let c ← Channel.step fr c a
  match c.reader with
  | .failed => none
  | _ => some c

namespace Replaceable

/-- One step; the new queues have the given capacity. -/
def step (fr : Framing μ η) (capacity : Nat) (s : Replaceable μ η) :
    ReplaceableStep μ → Option (Replaceable μ η)
  | .current a =>
    if s.replaced.all (·.allows a) then do
      let current ← s.current.checkedStep fr a
      some { s with current }
    else none
  | .replaced i a =>
    if a.goesOn then do
      let c ← s.replaced[i]?
      let c ← c.checkedStep fr a
      some { s with replaced := s.replaced.set i c }
    else none
  | .replace => some ⟨.new capacity, s.replaced ++ [s.current]⟩

/-- No replaced queue loses a message. -/
def Delivered (s : Replaceable μ η) : Prop := ∀ c ∈ s.replaced, c.Delivered

/-- The steps that lose nothing. -/
def Keeps (fr : Framing μ η) (s : Replaceable μ η) : ReplaceableStep μ → Prop
  | .replace => s.current.Delivered
  | .replaced i .finish => ∀ c ∈ s.replaced[i]?, ∀ w ∈ c.writing,
    w.2.free < (fr.encode w.1).length
  | _ => True

instance [DecidableEq μ] (c : Channel μ η) : Decidable c.Delivered :=
  inferInstanceAs (Decidable (_ = _))

instance [DecidableEq μ] (fr : Framing μ η) (s : Replaceable μ η) (a : ReplaceableStep μ) :
    Decidable (s.Keeps fr a) :=
  match a with
  | .replace => inferInstanceAs (Decidable (Channel.Delivered _))
  | .replaced _ .finish => inferInstanceAs (Decidable (∀ c ∈ _, ∀ w ∈ Channel.writing c, _))
  | .replaced _ (.begin _) | .replaced _ .enter | .replaced _ .read | .current _ =>
    inferInstanceAs (Decidable True)

/-- Only messages that the reader can take are written. -/
def WritesValid (fr : Framing μ η) (s : Replaceable μ η) : ReplaceableStep μ → Prop
  | .current a => Framing.WritesValid fr s.current a
  | _ => True

end Replaceable

/-- The invariant of the queues. -/
structure ReplaceableInv (fr : Framing μ η) (s : Replaceable μ η) : Prop where
  channels : ∀ c ∈ s.current :: s.replaced, fr.ChannelInv c
  oneWriter : (s.current :: s.replaced).countP (·.writing.isSome) ≤ 1

/-! ## One queue -/

variable {fr : Framing μ η} {c c' : Channel μ η}

/-- The last call of the reader began between the decoded and the accepted messages. -/
theorem ReaderInv.entered_bounds {bytes : List UInt8} {accepted decoded : List μ} {entered : Nat}
    {rd : Reader η} (h : fr.ReaderInv bytes accepted decoded entered rd) :
    decoded.length ≤ entered ∧ entered ≤ accepted.length := by
  cases h with
  | idle hf he =>
      rw [hf.accepted_eq, he, List.length_append]
      omega
  | loop hf hs he =>
      rw [hf.accepted_eq, he, List.length_append, List.length_append]
      omega
  | body hb ha hv hs he =>
      rw [ha, he, List.length_append, List.length_cons, List.length_append]
      omega

/-- All is delivered when the last call of the reader began behind the last accepted message. -/
theorem ChannelInv.delivered_iff (h : fr.ChannelInv c) :
    c.Delivered ↔ c.accepted.length ≤ c.entered := by
  obtain ⟨pending, hpending⟩ := h.reader.decoded_prefix
  have hbounds := h.reader.entered_bounds
  have hcall : c.inCall = pending.take (c.entered - c.decoded.length) := by
    rw [Channel.inCall, ← hpending, List.take_append, List.take_of_length_le hbounds.1,
      List.drop_left]
  rw [Channel.Delivered, hcall]
  constructor
  · intro hdelivered
    have hlength := congrArg List.length hdelivered
    rw [List.length_append, List.length_take] at hlength
    omega
  · intro hle
    rw [← hpending, List.length_append] at hle
    rw [List.take_of_length_le (by omega), hpending]

/-- Outside of a call all is delivered when nothing is pending. -/
theorem ChannelInv.delivered_iff_pending (h : fr.ChannelInv c) (hidle : c.reader = .idle) :
    c.Delivered ↔ c.pending = [] := by
  have hreader := h.reader
  rw [hidle] at hreader
  cases hreader with
  | idle _ he => rw [h.delivered_iff, he, Channel.pending, List.drop_eq_nil_iff]

/-- A read touches neither what was accepted nor where the call began. -/
theorem Channel.step_read (hstep : Channel.step fr c .read = some c') :
    c'.accepted = c.accepted ∧ c'.entered = c.entered ∧ c'.writing = c.writing := by
  obtain ⟨⟨c₁, got⟩, hread, rfl⟩ := Option.map_eq_some_iff.1 hstep
  unfold Channel.readStep at hread
  split at hread
  · split at hread
    · split at hread <;> obtain ⟨rfl, -⟩ := Prod.mk.inj (Option.some.inj hread) <;>
        exact ⟨rfl, rfl, rfl⟩
    · obtain ⟨rfl, -⟩ := Prod.mk.inj (Option.some.inj hread)
      exact ⟨rfl, rfl, rfl⟩
  · split at hread <;> obtain ⟨rfl, -⟩ := Prod.mk.inj (Option.some.inj hread) <;>
      exact ⟨rfl, rfl, rfl⟩
  · cases hread

/-- The begin of a write leaves the reader. -/
theorem Channel.reader_begin {m : μ} (hstep : Channel.step fr c (.begin m) = some c') :
    c'.reader = c.reader := by
  simp only [Channel.step] at hstep
  split at hstep
  · obtain rfl := Option.some.inj hstep
    rfl
  · cases hstep

/-- A step that is checked is a step after which the reader has not failed. -/
theorem Channel.checkedStep_eq {a : ChannelStep μ} (hstep : c.checkedStep fr a = some c') :
    Channel.step fr c a = some c' ∧ c'.reader ≠ .failed := by
  obtain ⟨c₁, hc₁, hstep⟩ := Option.bind_eq_some_iff.1 hstep
  split at hstep
  next => cases hstep
  next hreader =>
    obtain rfl := Option.some.inj hstep
    exact ⟨hc₁, hreader⟩

/-- An operation that goes on keeps the queue delivered, but for a write that is accepted. -/
theorem ChannelInv.delivered_goesOn_iff (h : fr.ChannelInv c) {a : ChannelStep μ}
    (ha : a.goesOn = true) (hstep : Channel.step fr c a = some c') (hinv : fr.ChannelInv c') :
    c'.Delivered ↔ c.Delivered ∧ (a = .finish → ∀ w ∈ c.writing,
      w.2.free < (fr.encode w.1).length) := by
  have hbounds := h.reader.entered_bounds
  rw [h.delivered_iff, hinv.delivered_iff]
  cases a with
  | begin | enter => cases ha
  | read =>
      obtain ⟨haccepted, hentered, -⟩ := Channel.step_read hstep
      rw [haccepted, hentered]
      refine ⟨fun hle => ⟨hle, fun hfinish => ?_⟩, And.left⟩
      cases hfinish
  | finish =>
      obtain ⟨m, tx, hw, -, ⟨hroom, rfl⟩ | ⟨hfull, rfl⟩⟩ := h.finish hstep
      · refine iff_of_false (fun hle => ?_) (fun hle => ?_)
        · replace hle : (c.accepted ++ [m]).length ≤ c.entered := hle
          rw [List.length_append, List.length_singleton] at hle
          omega
        · exact absurd (hle.2 rfl (m, tx) hw) (Nat.not_lt.2 hroom)
      · refine ⟨fun hle => ⟨hle, fun _ w hw' => ?_⟩, And.left⟩
        obtain rfl := Option.some.inj (hw.symm.trans hw')
        exact hfull

/-- An operation that goes on begins no write. -/
theorem Channel.writing_goesOn {a : ChannelStep μ} (ha : a.goesOn = true)
    (hstep : Channel.step fr c a = some c') :
    (if c'.writing.isSome = true then 1 else 0) ≤ if c.writing.isSome = true then 1 else 0 := by
  cases a with
  | begin | enter => cases ha
  | read => rw [(Channel.step_read hstep).2.2]
  | finish =>
      obtain ⟨⟨m, tx⟩, hw, -⟩ := Option.map_eq_some_iff.1 hstep
      rw [hw, if_pos Option.isSome_some]
      split
      next => exact le_refl 1
      next => exact Nat.zero_le 1

/-! ## The queue in use and the replaced ones -/

variable {s s' : Replaceable μ η} {capacity : Nat}

namespace Replaceable

/-- What the current channel can do and the replaced ones allow can be done. -/
theorem step_of_current {a : ChannelStep μ} (hallows : ∀ c ∈ s.replaced, c.allows a = true)
    (hstep : Channel.step fr s.current a = some c') (hreader : c'.reader ≠ .failed) :
    s.step fr capacity (.current a) = some { s with current := c' } := by
  have hchecked : s.current.checkedStep fr a = some c' := by
    rw [Channel.checkedStep, hstep, Option.bind_eq_bind, Option.bind_some]
    split
    next hfailed => exact absurd hfailed hreader
    next => rfl
  rw [step, if_pos (List.all_eq_true.2 hallows), hchecked]
  rfl

/-- A step of the current channel is one that it can do and the replaced ones allow. -/
theorem step_current {a : ChannelStep μ} (h : s.step fr capacity (.current a) = some s') :
    (∀ c ∈ s.replaced, c.allows a = true) ∧ ∃ current,
      Channel.step fr s.current a = some current ∧ current.reader ≠ .failed ∧
      s' = { s with current } := by
  simp only [step] at h
  split at h
  next hallows =>
    obtain ⟨current, hcurrent, h⟩ := Option.bind_eq_some_iff.1 h
    obtain ⟨hchannel, hreader⟩ := Channel.checkedStep_eq hcurrent
    exact ⟨List.all_eq_true.1 hallows, current, hchannel, hreader, (Option.some.inj h).symm⟩
  next => cases h

/-- A step on a replaced queue goes on with what is under way there, and leaves the others. -/
theorem step_replaced {i : Nat} {a : ChannelStep μ}
    (h : s.step fr capacity (.replaced i a) = some s') :
    a.goesOn = true ∧ ∃ front c back c', s.replaced = front ++ c :: back ∧
      s.replaced[i]? = some c ∧ Channel.step fr c a = some c' ∧ c'.reader ≠ .failed ∧
      s' = { s with replaced := front ++ c' :: back } := by
  simp only [step] at h
  split at h
  next hgoes =>
    obtain ⟨c, hc, hrest⟩ := Option.bind_eq_some_iff.1 h
    obtain ⟨c', hc', hs'⟩ := Option.bind_eq_some_iff.1 hrest
    obtain ⟨hchannel, hreader⟩ := Channel.checkedStep_eq hc'
    obtain ⟨hi, rfl⟩ := List.getElem?_eq_some_iff.1 hc
    have hset : s.replaced.set i c' = s.replaced.take i ++ c' :: s.replaced.drop (i + 1) :=
      List.set_eq_take_append_cons_drop.trans (if_pos hi)
    rw [hset] at hs'
    refine ⟨hgoes, _, _, _, c', ?_, hc, hchannel, hreader, (Option.some.inj hs').symm⟩
    rw [← List.drop_eq_getElem_cons hi, List.take_append_drop]
  next => cases h

end Replaceable

/-- An empty queue that has replaced none. -/
theorem replaceableInv_new (fr : Framing μ η) (capacity : Nat) :
    fr.ReplaceableInv ⟨.new capacity, []⟩ where
  channels := List.forall_mem_singleton.2 (channelInv_empty capacity)
  oneWriter := Nat.zero_le _

section
variable {a : ChannelStep μ}

/-- A write on the queue in use is begun where none is under way on the others. -/
theorem ReplaceableInv.stepCurrent (h : fr.ReplaceableInv s)
    (ha : Framing.WritesValid fr s.current a) (hallows : ∀ c ∈ s.replaced, c.allows a = true)
    {current : Channel μ η} (hchannel : Channel.step fr s.current a = some current) :
    fr.ReplaceableInv { s with current } := by
  obtain ⟨hcurrent, hreplaced⟩ := List.forall_mem_cons.1 h.channels
  refine ⟨List.forall_mem_cons.2 ⟨hcurrent.step ha hchannel, hreplaced⟩, ?_⟩
  have hone := h.oneWriter
  rw [List.countP_cons] at hone ⊢
  cases a with
  | begin m =>
      have hnone : s.replaced.countP (·.writing.isSome) = 0 := by
        refine List.countP_eq_zero.2 fun c hc => ?_
        have hfree : c.writing.isNone = true := hallows c hc
        simpa using hfree
      rw [hnone]
      split <;> omega
  | enter =>
      rw [(Channel.pending_enter hchannel).1]
      exact hone
  | finish | read =>
      exact le_trans (Nat.add_le_add_left (Channel.writing_goesOn rfl hchannel) _) hone

/-- On a replaced queue the threads go on with what is under way there. -/
theorem ReplaceableInv.stepReplaced (h : fr.ReplaceableInv s) (hgoes : a.goesOn = true)
    {front back : List (Channel μ η)} (hreplaced : s.replaced = front ++ c :: back)
    (hchannel : Channel.step fr c a = some c') :
    fr.ReplaceableInv { s with replaced := front ++ c' :: back } := by
  have hone := h.oneWriter
  have hall := h.channels
  rw [hreplaced] at hone hall
  simp only [List.forall_mem_cons, List.forall_mem_append] at hall
  obtain ⟨hcurrent, hfront, hc, hback⟩ := hall
  have hvalid : Framing.WritesValid fr c a := by
    cases a with
    | begin m => cases hgoes
    | enter | finish | read => trivial
  refine ⟨?_, ?_⟩
  · simp only [List.forall_mem_cons, List.forall_mem_append]
    exact ⟨hcurrent, hfront, hc.step hvalid hchannel, hback⟩
  · have hwriting := Channel.writing_goesOn hgoes hchannel
    simp only [List.countP_cons, List.countP_append] at hone ⊢
    omega

end

/-- The new queue is empty, and the one that it replaces goes to the others. -/
theorem ReplaceableInv.replace (h : fr.ReplaceableInv s) (capacity : Nat) :
    fr.ReplaceableInv ⟨.new capacity, s.replaced ++ [s.current]⟩ where
  channels := by
    rw [List.forall_mem_cons, List.forall_mem_append, List.forall_mem_singleton]
    exact ⟨channelInv_empty capacity, (List.forall_mem_cons.1 h.channels).2,
      (List.forall_mem_cons.1 h.channels).1⟩
  oneWriter := by
    have hone := h.oneWriter
    rw [List.countP_cons] at hone
    rw [List.countP_cons, List.countP_append, List.countP_singleton]
    exact hone

/-- Every step keeps the invariant. -/
theorem ReplaceableInv.step (h : fr.ReplaceableInv s) {a : ReplaceableStep μ}
    (ha : s.WritesValid fr a) (hstep : s.step fr capacity a = some s') : fr.ReplaceableInv s' := by
  cases a with
  | current a =>
      obtain ⟨hallows, current, hchannel, -, rfl⟩ := Replaceable.step_current hstep
      exact h.stepCurrent ha hallows hchannel
  | replaced i a =>
      obtain ⟨hgoes, front, c, back, c', hreplaced, -, hchannel, -, rfl⟩ :=
        Replaceable.step_replaced hstep
      exact h.stepReplaced hgoes hreplaced hchannel
  | replace =>
      obtain rfl := Option.some.inj hstep
      exact h.replace capacity

/-- There is one writer, so none is left behind the end of a write to a replaced queue. -/
theorem ReplaceableInv.writing_eq_none (h : fr.ReplaceableInv s) {i : Nat}
    (hstep : s.step fr capacity (.replaced i .finish) = some s') :
    ∀ c ∈ s'.current :: s'.replaced, c.writing = none := by
  obtain ⟨-, front, c, back, c', hreplaced, -, hchannel, -, rfl⟩ := Replaceable.step_replaced hstep
  have hone := h.oneWriter
  have hc : fr.ChannelInv c := h.channels c (by simp [hreplaced])
  obtain ⟨m, tx, hw, hnone, -⟩ := hc.pending_finish hchannel
  have hzero : (s.current :: (front ++ c' :: back)).countP (·.writing.isSome) = 0 := by
    simp only [hreplaced, List.countP_cons, List.countP_append, hw, hnone, Option.isSome_some,
      Option.isSome_none, Bool.false_eq_true, if_true, if_false] at hone ⊢
    omega
  intro x hx
  simpa using List.countP_eq_zero.1 hzero x hx

/-- A step loses nothing exactly when it keeps: a replacement when the reader's call under way, or
the last one, reads all that was accepted, and a write on a replaced queue when it is refused. -/
theorem Replaceable.delivered_step_iff (h : fr.ReplaceableInv s) {a : ReplaceableStep μ}
    (ha : s.WritesValid fr a) (hstep : s.step fr capacity a = some s') :
    s'.Delivered ↔ s.Delivered ∧ s.Keeps fr a := by
  have hinv := h.step ha hstep
  cases a with
  | current a =>
      obtain ⟨-, current, -, -, rfl⟩ := step_current hstep
      exact ⟨fun hall => ⟨hall, trivial⟩, And.left⟩
  | replaced i a =>
      obtain ⟨hgoes, front, c, back, c', hreplaced, hi, hchannel, -, rfl⟩ := step_replaced hstep
      have hc : fr.ChannelInv c := h.channels c (by simp [hreplaced])
      have hc' : fr.ChannelInv c' := hinv.channels c' (by simp)
      have hkeeps : s.Keeps fr (.replaced i a) ↔ (a = .finish → ∀ w ∈ c.writing,
          w.2.free < (fr.encode w.1).length) := by
        cases a with
        | begin | enter => cases hgoes
        | read =>
            refine ⟨fun _ hfinish => ?_, fun _ => trivial⟩
            cases hfinish
        | finish =>
            constructor
            · exact fun hall _ => hall c hi
            · intro hall x hx
              obtain rfl := Option.some.inj (hi.symm.trans hx)
              exact hall rfl
      rw [hkeeps]
      simp only [Delivered, hreplaced, List.forall_mem_append, List.forall_mem_cons]
      rw [hc.delivered_goesOn_iff hgoes hchannel hc']
      tauto
  | replace =>
      obtain rfl := Option.some.inj hstep
      simp only [Delivered, List.forall_mem_append, List.forall_mem_singleton]
      exact Iff.rfl

end Framing
