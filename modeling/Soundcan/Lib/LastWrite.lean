import Mathlib.Data.List.Induction
import Mathlib.Logic.Function.Basic

/-!
# The last write

Values that are stored one after the other, each at a place or nowhere: what is found at a place is
the last value that was stored there (`storeAll_apply`).
-/

namespace LastWrite

universe u v w

variable {α : Type u} {ι : Type v} {β : Type w} [DecidableEq ι]

/-- One item is stored at its place, if it has one. -/
def store (target : α → Option ι) (value : α → β) (f : ι → β) (x : α) : ι → β :=
  match target x with
  | some i => Function.update f i (value x)
  | none => f

/-- The items are stored in order. -/
def storeAll (target : α → Option ι) (value : α → β) (f : ι → β) (xs : List α) : ι → β :=
  xs.foldl (store target value) f

/-- What the last of some items for a place stores there, or what has been there. -/
def last (target : α → Option ι) (value : α → β) (f : ι → β) (xs : List α) (i : ι) : β :=
  match xs.reverse.find? fun x => target x = some i with
  | some x => value x
  | none => f i

variable {target : α → Option ι} {value : α → β} {f : ι → β}

/-- A write changes its target only. -/
theorem store_apply (x : α) (i : ι) :
    store target value f x i = if target x = some i then value x else f i := by
  rw [store]
  cases target x with
  | none => exact (if_neg (Option.some_ne_none i).symm).symm
  | some j => simp only [Function.update_apply, Option.some.injEq, eq_comm]

/-- The last write to a target is the one that counts. -/
theorem last_concat (xs : List α) (x : α) (i : ι) :
    last target value f (xs ++ [x]) i =
      if target x = some i then value x else last target value f xs i := by
  rw [last, List.reverse_append, List.reverse_singleton, List.singleton_append, List.find?_cons]
  by_cases hi : target x = some i
  · rw [if_pos hi, decide_eq_true hi]
  · rw [if_neg hi, decide_eq_false hi, last]

/-- The last item for a place decides. -/
theorem storeAll_apply (xs : List α) (i : ι) :
    storeAll target value f xs i = last target value f xs i := by
  induction xs using List.reverseRecOn with
  | nil => rfl
  | append_singleton xs x ih =>
      rw [storeAll, List.foldl_append, List.foldl_cons, List.foldl_nil, store_apply, last_concat,
        ← ih]
      rfl

end LastWrite
