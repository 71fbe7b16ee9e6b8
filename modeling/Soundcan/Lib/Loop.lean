import Mathlib.Data.Nat.Init
import Mathlib.Logic.Relation

/-!
# Loops

A loop tests its state and runs its body while the test succeeds; either may be undefined. Two rules
decide whether it ends: it does where an invariant makes every round defined and a measure decrease
(`Loop.ends_of_measure`), and does not where an invariant makes every test succeed
(`Loop.not_ends_of_invariant`).
-/

universe u

/-- The test and the body of a loop over states `σ`. -/
structure Loop (σ : Type u) where
  test : σ → Option Bool
  body : σ → Option σ

namespace Loop

variable {σ : Type u}

/-- The state behind the loop, for a number of tests that it may make. -/
def run (l : Loop σ) : Nat → σ → Option σ
  | 0, _ => none
  | fuel + 1, s =>
    match l.test s with
    | some true => (l.body s).bind (l.run fuel)
    | some false => some s
    | none => none

/-- The loop, begun in a state, comes to its end. -/
def Ends (l : Loop σ) (s : σ) : Prop := ∃ fuel last, l.run fuel s = some last

/-- One round. -/
def Round (l : Loop σ) (s s' : σ) : Prop := l.test s = some true ∧ l.body s = some s'

/-- The states that the loop comes to, begun in the first. -/
def Visits (l : Loop σ) : σ → σ → Prop := Relation.ReflTransGen l.Round

variable {l : Loop σ} {s₀ : σ} {I : σ → Prop}

/-- A loop whose test fails has ended. -/
theorem run_of_test_false {s : σ} (h : l.test s = some false) (fuel : Nat) :
    l.run (fuel + 1) s = some s := by
  rw [run, h]

/-- A round of the loop takes one unit of the fuel. -/
theorem run_of_round {s s' : σ} (h : l.Round s s') (fuel : Nat) :
    l.run (fuel + 1) s = l.run fuel s' := by
  rw [run, h.1, h.2]
  rfl

/-- A loop ends in a state that it comes to and where its test fails. -/
theorem visits_of_run {fuel : Nat} {s last : σ} (h : l.run fuel s = some last) :
    l.Visits s last ∧ l.test last = some false := by
  induction fuel generalizing s with
  | zero => cases h
  | succ fuel ih =>
      rw [run] at h
      split at h
      next htest =>
        obtain ⟨s', hbody, hrun⟩ := Option.bind_eq_some_iff.1 h
        obtain ⟨hvisits, hlast⟩ := ih hrun
        exact ⟨.head ⟨htest, hbody⟩ hvisits, hlast⟩
      next htest =>
        obtain rfl := Option.some.inj h
        exact ⟨.refl, htest⟩
      next => cases h

/-- The number of tests that a loop may make does not matter, if it ends. -/
theorem run_unique {fuel fuel' : Nat} {s last last' : σ} (h : l.run fuel s = some last)
    (h' : l.run fuel' s = some last') : last = last' := by
  induction fuel generalizing s fuel' with
  | zero => cases h
  | succ fuel ih =>
      cases fuel' with
      | zero => cases h'
      | succ fuel' =>
          rw [run] at h h'
          split at h
          next htest =>
            rw [htest] at h'
            obtain ⟨s₁, hbody, hrest⟩ := Option.bind_eq_some_iff.1 h
            obtain ⟨s₁', hbody', hrest'⟩ := Option.bind_eq_some_iff.1 h'
            obtain rfl := Option.some.inj (hbody.symm.trans hbody')
            exact ih hrest hrest'
          next htest =>
            rw [htest] at h'
            exact Option.some.inj (h.symm.trans h')
          next => cases h

/-- What holds at the beginning and is kept by every round holds wherever the loop comes. -/
theorem Visits.invariant (h0 : I s₀) (hround : ∀ s s', I s → l.Round s s' → I s') {s : σ}
    (h : l.Visits s₀ s) : I s := by
  induction h with
  | refl => exact h0
  | tail _ hs ih => exact hround _ _ ih hs

/-- A loop ends whose rounds are defined and decrease a measure. -/
theorem ends_of_measure (μ : σ → Nat) (h0 : I s₀)
    (hround : ∀ s, I s →
      l.test s = some false ∨ ∃ s', l.Round s s' ∧ I s' ∧ μ s' < μ s) : l.Ends s₀ := by
  have hends : ∀ n s, I s → μ s < n → ∃ last, l.run n s = some last := by
    intro n
    induction n with
    | zero => exact fun s _ hlt => absurd hlt (Nat.not_lt_zero _)
    | succ n ih =>
        intro s hs hlt
        rcases hround s hs with htest | ⟨s', hs', hI, hdecreases⟩
        · exact ⟨s, run_of_test_false htest n⟩
        · rw [run_of_round hs' n]
          exact ih s' hI (by omega)
  exact ⟨μ s₀ + 1, hends _ s₀ h0 (Nat.lt_succ_self _)⟩

/-- A loop does not end whose test keeps succeeding. -/
theorem not_ends_of_invariant (h0 : I s₀) (htest : ∀ s, I s → l.test s = some true)
    (hbody : ∀ s s', I s → l.body s = some s' → I s') : ¬l.Ends s₀ := by
  rintro ⟨fuel, last, hrun⟩
  induction fuel generalizing s₀ with
  | zero => cases hrun
  | succ fuel ih =>
      rw [run, htest s₀ h0] at hrun
      obtain ⟨s, hs, hrun⟩ := Option.bind_eq_some_iff.1 hrun
      exact ih (hbody s₀ s h0 hs) hrun

end Loop
