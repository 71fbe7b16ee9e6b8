import Mathlib.Data.List.Basic
import Mathlib.Data.List.Nodup
import Mathlib.Tactic

/-!
# Interners

An interner numbers what it is given from 1 on, in the order of first appearance, and finds the
number of a value and the value of a number. Its state is the list of the values so far.
-/

universe u

/-- The requests to an interner. A request to number a new value is refused where there is no
room. -/
inductive InternerCall (α : Type u) where
  | map (a : α) (room : Bool)
  | tryMap (a : α)
  | unmap (id : Nat)
  deriving DecidableEq

/-- Its answers: a number, 0 for none, or the value of a number. -/
inductive InternerReply (α : Type u) where
  | id (n : Nat)
  | value (a : Option α)
  deriving DecidableEq

namespace Interner

variable {α : Type u} [DecidableEq α]

/-- The number of a value that has one. -/
def idOf (as : List α) (a : α) : Nat := as.idxOf a + 1

/-- The value of a number. -/
def valueOf (as : List α) : Nat → Option α
  | 0 => none
  | id + 1 => as[id]?

/-- The answer to a request, and the values behind it. -/
def step (as : List α) : InternerCall α → List α × InternerReply α
  | .map a room =>
    if a ∈ as then (as, .id (idOf as a))
    else if room then (as ++ [a], .id (as.length + 1))
    else (as, .id 0)
  | .tryMap a => (as, .id (if a ∈ as then idOf as a else 0))
  | .unmap id => (as, .value (valueOf as id))

variable {as bs : List α} {a : α} {call : InternerCall α}

/-- An identifier is at most the number of what is interned. -/
theorem idOf_le (h : a ∈ as) : idOf as a ≤ as.length := List.idxOf_lt_length_iff.2 h

/-- A number leads back to its value. -/
theorem valueOf_idOf (h : a ∈ as) : valueOf as (idOf as a) = some a := by
  rw [idOf, valueOf, List.getElem?_eq_getElem (List.idxOf_lt_length_iff.2 h), List.getElem_idxOf]

/-- Numbers stay as they are when values are added. -/
theorem idOf_append (h : a ∈ as) : idOf (as ++ bs) a = idOf as a := by
  rw [idOf, idOf, List.idxOf_append_of_mem h]

/-- The next value gets the next number. -/
theorem idOf_concat (h : a ∉ as) : idOf (as ++ [a]) a = as.length + 1 := by
  rw [idOf, List.idxOf_append_of_notMem h]
  simp

/-- The numbers are 1, 2, and so on. -/
theorem map_idOf (h : as.Nodup) : as.map (idOf as) = List.range' 1 as.length := by
  refine List.ext_getElem (by simp) fun i hi _ => ?_
  rw [List.length_map] at hi
  simp only [List.getElem_map, List.getElem_range', idOf, h.idxOf_getElem i hi]
  omega

/-- No value gets lost or moves. -/
theorem prefix_step : as <+: (step as call).1 := by
  cases call with
  | map a room =>
      rw [step]
      split
      · exact List.prefix_rfl
      · split
        · exact List.prefix_append _ _
        · exact List.prefix_rfl
  | tryMap | unmap => exact List.prefix_rfl

/-- Only values that are to be mapped come in. -/
theorem mem_step (h : a ∈ (step as call).1) : a ∈ as ∨ ∃ room, call = .map a room := by
  cases call with
  | map b room =>
      rw [step] at h
      split at h
      · exact .inl h
      · split at h
        · rcases List.mem_append.1 h with h | h
          · exact .inl h
          · obtain rfl := List.mem_singleton.1 h
            exact .inr ⟨room, rfl⟩
        · exact .inl h
  | tryMap | unmap => exact .inl h

end Interner
