import Mathlib.Data.List.Nodup
import Mathlib.Logic.Function.Basic

/-!
# Resources and the places that hold them

A program keeps what it has acquired in places: variables, fields of records, elements of arrays. A
`Memory` says which allocation each place points to, and which allocations have been released. A
new allocation is a fresh one, so no two places point to the same. As in C, a release leaves the
place as it is: a second release through it releases the same allocation again. In a sound memory
nothing has been released twice and no place points to anything that has been released.
-/

namespace Ownership

universe u

/-- Allocations are numbered in the order of the requests for them, of which there have been `next`.
`freed` lists the releases. -/
structure Memory (ρ : Type u) where
  ptr : ρ → Option Nat
  next : Nat
  freed : List Nat
  ptr_lt : ∀ p a, ptr p = some a → a < next
  ptr_inj : ∀ p q a, ptr p = some a → ptr q = some a → p = q
  freed_lt : ∀ a ∈ freed, a < next

namespace Memory

variable {ρ : Type u}

/-- Every place is `NULL`. -/
def zeroed : Memory ρ where
  ptr _ := none
  next := 0
  freed := []
  ptr_lt _ _ h := by cases h
  ptr_inj _ _ _ h := by cases h
  freed_lt _ h := absurd h List.not_mem_nil

/-- A release of what the place points to. The place is not changed. -/
def free (m : Memory ρ) (p : ρ) : Memory ρ where
  ptr := m.ptr
  next := m.next
  freed := m.freed ++ (m.ptr p).toList
  ptr_lt := m.ptr_lt
  ptr_inj := m.ptr_inj
  freed_lt a ha := by
    rcases List.mem_append.1 ha with ha | ha
    · exact m.freed_lt a ha
    · exact m.ptr_lt p a (by simpa using ha)

/-- A request that is refused; the result is not assigned. -/
def refuse (m : Memory ρ) : Memory ρ where
  ptr := m.ptr
  next := m.next + 1
  freed := m.freed
  ptr_lt p a h := Nat.lt_succ_of_lt (m.ptr_lt p a h)
  ptr_inj := m.ptr_inj
  freed_lt a h := Nat.lt_succ_of_lt (m.freed_lt a h)

/-- Releases through a list of places. -/
def freeAll (m : Memory ρ) (ps : List ρ) : Memory ρ := ps.foldl free m

section
variable [DecidableEq ρ]

/-- The place is set to `NULL`. -/
def clear (m : Memory ρ) (p : ρ) : Memory ρ where
  ptr := Function.update m.ptr p none
  next := m.next
  freed := m.freed
  ptr_lt q a h := by
    rw [Function.update_apply] at h
    split at h
    · cases h
    · exact m.ptr_lt q a h
  ptr_inj q r a hq hr := by
    rw [Function.update_apply] at hq hr
    split at hq
    · cases hq
    · split at hr
      · cases hr
      · exact m.ptr_inj q r a hq hr
  freed_lt := m.freed_lt

/-- A new allocation in a place. -/
def alloc (m : Memory ρ) (p : ρ) : Memory ρ where
  ptr := Function.update m.ptr p (some m.next)
  next := m.next + 1
  freed := m.freed
  ptr_lt q a h := by
    rw [Function.update_apply] at h
    split at h
    · exact Option.some.inj h ▸ Nat.lt_succ_self _
    · exact Nat.lt_succ_of_lt (m.ptr_lt q a h)
  ptr_inj q r a hq hr := by
    have hlt := m.ptr_lt
    rw [Function.update_apply] at hq hr
    split at hq <;> split at hr
    · exact ‹q = p›.trans ‹r = p›.symm
    · obtain rfl := Option.some.inj hq
      exact absurd (hlt r _ hr) (Nat.lt_irrefl _)
    · obtain rfl := Option.some.inj hr
      exact absurd (hlt q _ hq) (Nat.lt_irrefl _)
    · exact m.ptr_inj q r a hq hr
  freed_lt a h := Nat.lt_succ_of_lt (m.freed_lt a h)

/-- A request whose result is assigned to a place, `NULL` if it is refused. -/
def tryAlloc (m : Memory ρ) (granted : Nat → Bool) (p : ρ) : Memory ρ :=
  if granted m.next then m.alloc p else m.refuse.clear p

end

/-! ## What the operations change -/

section
variable (m : Memory ρ) (p q : ρ)

@[simp] theorem ptr_free : (m.free p).ptr = m.ptr := rfl
@[simp] theorem freed_free : (m.free p).freed = m.freed ++ (m.ptr p).toList := rfl

/-- The releases through a list of places, in its order. -/
theorem freed_freeAll (ps : List ρ) :
    (m.freeAll ps).freed = m.freed ++ ps.filterMap m.ptr := by
  induction ps generalizing m with
  | nil => exact (List.append_nil _).symm
  | cons p ps ih =>
      rw [freeAll, List.foldl_cons, ← freeAll, ih]
      cases hp : m.ptr p <;> simp [hp]

variable [DecidableEq ρ]

@[simp] theorem freed_clear : (m.clear p).freed = m.freed := rfl
@[simp] theorem freed_alloc : (m.alloc p).freed = m.freed := rfl

/-- Forgetting one object leaves the other pointers. -/
theorem ptr_clear_of_ne (h : q ≠ p) : (m.clear p).ptr q = m.ptr q := Function.update_of_ne h _ _

/-- Allocating one object leaves the other pointers. -/
theorem ptr_alloc_of_ne (h : q ≠ p) : (m.alloc p).ptr q = m.ptr q := Function.update_of_ne h _ _

@[simp] theorem ptr_clear_self : (m.clear p).ptr p = none := Function.update_self ..

/-- An attempt to allocate one object leaves the other pointers. -/
theorem ptr_tryAlloc_of_ne (granted : Nat → Bool) (h : q ≠ p) :
    (m.tryAlloc granted p).ptr q = m.ptr q := by
  unfold tryAlloc
  split
  · exact ptr_alloc_of_ne m p q h
  · exact ptr_clear_of_ne m.refuse p q h

end

/-! ## Soundness -/

/-- Nothing has been released twice, and no place points to what has been released. -/
structure Sound (m : Memory ρ) : Prop where
  once : m.freed.Nodup
  live : ∀ p a, m.ptr p = some a → a ∉ m.freed

/-- A memory with nothing in it is sound. -/
theorem sound_zeroed : (zeroed : Memory ρ).Sound :=
  ⟨List.nodup_nil, fun _ _ h => by cases h⟩

namespace Sound

variable {m : Memory ρ} {p : ρ}

/-- A refused allocation keeps the memory sound. -/
theorem refuse (h : m.Sound) : m.refuse.Sound := ⟨h.once, h.live⟩

/-- Releases through different places of a sound memory are of different allocations, none of which
had been released. -/
theorem freeAll (h : m.Sound) {ps : List ρ} (hps : ps.Nodup) : (m.freeAll ps).freed.Nodup := by
  rw [freed_freeAll, List.nodup_append']
  refine ⟨h.once, hps.filterMap fun p q a hp hq => m.ptr_inj p q a hp hq, ?_⟩
  intro a ha hmem
  obtain ⟨p, -, hp⟩ := List.mem_filterMap.1 hmem
  exact h.live p a hp ha

variable [DecidableEq ρ]

/-- Forgetting an object leaks it, and keeps the memory sound. -/
theorem clear (h : m.Sound) : (m.clear p).Sound := by
  refine ⟨h.once, fun q a hq => ?_⟩
  change Function.update m.ptr p none q = some a at hq
  rw [Function.update_apply] at hq
  split at hq
  · cases hq
  · exact h.live q a hq

/-- Allocating an object keeps the memory sound. -/
theorem alloc (h : m.Sound) : (m.alloc p).Sound := by
  refine ⟨h.once, fun q a hq hfreed => ?_⟩
  change Function.update m.ptr p (some m.next) q = some a at hq
  rw [Function.update_apply] at hq
  split at hq
  · obtain rfl := Option.some.inj hq
    exact absurd (m.freed_lt _ hfreed) (Nat.lt_irrefl _)
  · exact h.live q a hq hfreed

/-- Granted or refused, an allocation keeps the memory sound. -/
theorem tryAlloc (h : m.Sound) {granted : Nat → Bool} : (m.tryAlloc granted p).Sound := by
  unfold Memory.tryAlloc
  split
  · exact h.alloc
  · exact h.refuse.clear

/-- A place that is released and set to `NULL`. -/
theorem free_clear (h : m.Sound) : ((m.free p).clear p).Sound := by
  refine ⟨?_, fun q a hq => ?_⟩
  · exact h.freeAll (List.nodup_singleton p)
  · change Function.update m.ptr p none q = some a at hq
    rw [Function.update_apply] at hq
    split at hq
    · cases hq
    · rename_i hne
      simp only [freed_clear, freed_free, List.mem_append, Option.mem_toList, not_or]
      exact ⟨h.live q a hq, fun hp => hne (m.ptr_inj q p a hq hp)⟩

/-- A place that is released and given a new allocation. -/
theorem free_alloc (h : m.Sound) : ((m.free p).alloc p).Sound := by
  have heq : ((m.free p).alloc p).ptr = (((m.free p).clear p).alloc p).ptr := by
    exact (Function.update_idem _ _ _).symm
  exact ⟨h.free_clear.once, heq ▸ h.free_clear.alloc.live⟩

end Sound

end Memory

end Ownership
