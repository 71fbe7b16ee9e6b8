import Mathlib.Data.List.Basic
import Mathlib.Tactic

/-!
# Message queues of the kernel

A named queue of bounded messages with one priority. A sender that finds it full waits, and its
message comes in when there is room; a receiver that does not wait gets the oldest message. The
receiver's buffer must hold the largest message the queue allows, whatever the queue holds: a
smaller buffer gets nothing and leaves the queue as it is.
-/

/-- A queue with its attributes. `blocked` are the messages of the senders that wait for room, in
their order. -/
structure MessageQueue where
  maxMsg : Nat
  msgSize : Nat
  messages : List (List UInt8)
  blocked : List (List UInt8)

namespace MessageQueue

/-- A queue as it is created. -/
def new (maxMsg msgSize : Nat) : MessageQueue := ⟨maxMsg, msgSize, [], []⟩

/-- Send a message. One that is larger than the queue allows is refused. -/
def send (q : MessageQueue) (m : List UInt8) : MessageQueue :=
  if q.msgSize < m.length then q
  else if q.messages.length < q.maxMsg ∧ q.blocked = [] then
    { q with messages := q.messages ++ [m] }
  else { q with blocked := q.blocked ++ [m] }

/-- Receive a message into a buffer of `n` bytes, without waiting. -/
def receive (q : MessageQueue) (n : Nat) : Option (List UInt8 × MessageQueue) :=
  if n < q.msgSize then none
  else match q.messages, q.blocked with
    | [], _ => none
    | m :: ms, [] => some (m, { q with messages := ms })
    | m :: ms, w :: ws => some (m, { q with messages := ms ++ [w], blocked := ws })

variable {q q' : MessageQueue} {m : List UInt8} {n : Nat}

@[simp] theorem msgSize_send : (q.send m).msgSize = q.msgSize := by
  rw [send]
  split
  · rfl
  · split <;> rfl

@[simp] theorem maxMsg_send : (q.send m).maxMsg = q.maxMsg := by
  rw [send]
  split
  · rfl
  · split <;> rfl

/-- Receiving leaves the size of the messages. -/
theorem msgSize_receive (h : q.receive n = some (m, q')) : q'.msgSize = q.msgSize := by
  rw [receive] at h
  split at h
  · cases h
  · split at h
    · cases h
    · obtain ⟨-, rfl⟩ := Prod.mk.inj (Option.some.inj h)
      rfl
    · obtain ⟨-, rfl⟩ := Prod.mk.inj (Option.some.inj h)
      rfl

/-- A buffer that is too small gets nothing. -/
theorem receive_eq_none_of_lt (h : n < q.msgSize) : q.receive n = none := by
  rw [receive, if_pos h]

/-- Nothing comes out of an empty queue. -/
theorem receive_eq_none_of_nil (h : q.messages = []) : q.receive n = none := by
  rw [receive, h]
  split <;> rfl

/-- A buffer that is large enough gets a message where there is one. -/
theorem exists_receive (hn : q.msgSize ≤ n) (h : q.messages ≠ []) :
    ∃ m q', q.receive n = some (m, q') := by
  obtain ⟨m, ms, hms⟩ := List.exists_cons_of_ne_nil h
  rw [receive, if_neg (by omega), hms]
  cases q.blocked with
  | nil => exact ⟨m, _, rfl⟩
  | cons w ws => exact ⟨m, _, rfl⟩

/-- A queue that holds a message still does behind a send. -/
theorem messages_send_ne_nil (h : q.messages ≠ []) : (q.send m).messages ≠ [] := by
  rw [send]
  split
  · exact h
  · split
    · simp
    · exact h

/-- A message that the queue allows comes into an empty one. -/
theorem messages_send_of_room (hm : m.length ≤ q.msgSize) (hmax : q.messages.length < q.maxMsg)
    (hb : q.blocked = []) : (q.send m).messages = q.messages ++ [m] := by
  rw [send, if_neg (by omega), if_pos ⟨hmax, hb⟩]

/-- What is still to be received, in the order in which it was sent. -/
def contents (q : MessageQueue) : List (List UInt8) := q.messages ++ q.blocked

/-- A message that the queue allows comes behind what there is, whether its sender waits or not. -/
theorem contents_send (hm : m.length ≤ q.msgSize) : (q.send m).contents = q.contents ++ [m] := by
  rw [send, if_neg (by omega), contents, contents]
  split
  next h => simp [h.2]
  next => simp

/-- What is received was in front. -/
theorem contents_receive (h : q.receive n = some (m, q')) : q.contents = m :: q'.contents := by
  rw [receive] at h
  split at h
  next => cases h
  next =>
    split at h
    next => cases h
    next ms hms hb =>
      obtain ⟨rfl, rfl⟩ := Prod.mk.inj (Option.some.inj h)
      rw [contents, contents, hms, hb]
      rfl
    next ms w ws hms hb =>
      obtain ⟨rfl, rfl⟩ := Prod.mk.inj (Option.some.inj h)
      rw [contents, contents, hms, hb, List.append_assoc]
      rfl

end MessageQueue
