import Mathlib.Data.List.Basic
import Mathlib.Tactic

/-!
# Labelled transition systems and their runs

A system is given by its initial states and its labelled steps; a run is the list of labels of its
steps, oldest first, with the state it ends in. Three rules carry the proofs over runs:
`Lts.Run.invariant` (what holds initially and is preserved by each step holds at the end of every
run), `Lts.Run.guard_invariant` (the same when every step of the run meets a condition), and
`Lts.Run.refine` (a simulation carries every run of one system to a run of another with the same
labels). `Lts.ofStep` is the system of a deterministic step function with inputs and outputs;
`Lts.iterate_exit_le_card` bounds how long the iterates of a function stay in a finite set.
-/

universe u v w

/-- A labelled transition system over states `σ` and labels `α`. -/
structure Lts (σ : Type u) (α : Type v) where
  init : σ → Prop
  step : σ → α → σ → Prop

namespace Lts

variable {σ : Type u} {τ : Type w} {α : Type v}

/-- `M.Run tr s`: the steps labelled `tr`, oldest first, lead from an initial state to `s`. -/
inductive Run (M : Lts σ α) : List α → σ → Prop
  /-- The empty run, at an initial state. -/
  | init {s : σ} : M.init s → Run M [] s
  /-- A run, extended by one step. -/
  | step {tr : List α} {s s' : σ} {a : α} : Run M tr s → M.step s a s' → Run M (tr ++ [a]) s'

/-- The states some run ends in. -/
def Reachable (M : Lts σ α) (s : σ) : Prop := ∃ tr, M.Run tr s

/-- The system with the steps that meet a condition on the state before them and the label. -/
def guard (M : Lts σ α) (G : σ → α → Prop) : Lts σ α where
  init := M.init
  step s a s' := G s a ∧ M.step s a s'

/-- The system, begun in a given state. -/
def after (M : Lts σ α) (s₀ : σ) : Lts σ α := { M with init := fun s => s = s₀ }

variable {M : Lts σ α}

/-- The invariant rule: `I` may speak of the labels so far. -/
theorem Run.invariant {I : List α → σ → Prop} (h0 : ∀ s, M.init s → I [] s)
    (hstep : ∀ tr s a s', M.Run tr s → I tr s → M.step s a s' → I (tr ++ [a]) s')
    {tr : List α} {s : σ} (h : M.Run tr s) : I tr s := by
  induction h with
  | init hs => exact h0 _ hs
  | step hr ht ih => exact hstep _ _ _ _ hr ih ht

/-- The invariant rule at a reachable state. -/
theorem Reachable.invariant {I : σ → Prop} (h0 : ∀ s, M.init s → I s)
    (hstep : ∀ s a s', I s → M.step s a s' → I s') {s : σ} (h : M.Reachable s) : I s := by
  obtain ⟨tr, hr⟩ := h
  exact hr.invariant (I := fun _ s => I s) h0 fun _ s a s' _ hi ht => hstep s a s' hi ht

/-- The invariant rule for the runs that begin with a given step; `I` speaks of the labels behind
it. -/
theorem Run.invariant_cons {I : List α → σ → Prop} {a₀ : α}
    (h0 : ∀ s s', M.init s → M.step s a₀ s' → I [] s')
    (hstep : ∀ tr s a s', I tr s → M.step s a s' → I (tr ++ [a]) s') {tr : List α} {s : σ}
    (h : M.Run (a₀ :: tr) s) : I tr s := by
  have hinv := h.invariant
    (I := fun tr s => (tr = [] → M.init s) ∧ ∀ rest, tr = a₀ :: rest → I rest s)
    (fun s hs => ⟨fun _ => hs, nofun⟩) ?_
  · exact hinv.2 tr rfl
  · rintro tr s a s' - ⟨hinit, hI⟩ ht
    refine ⟨by simp, fun rest heq => ?_⟩
    cases tr with
    | nil =>
        obtain ⟨rfl, rfl⟩ := List.cons_eq_cons.1 heq
        exact h0 s s' (hinit rfl) ht
    | cons b tr =>
        obtain ⟨rfl, rfl⟩ := List.cons_eq_cons.1 heq
        exact hstep tr s a s' (hI tr rfl) ht

/-- A run without steps. -/
theorem run_nil {s : σ} : M.Run [] s ↔ M.init s := by
  constructor
  · intro h
    generalize htr : [] = tr at h
    cases h with
    | init hs => exact hs
    | step => simp at htr
  · exact .init

/-- The last step of a run. -/
theorem run_concat {tr : List α} {a : α} {s' : σ} :
    M.Run (tr ++ [a]) s' ↔ ∃ s, M.Run tr s ∧ M.step s a s' := by
  constructor
  · intro h
    generalize htr : tr ++ [a] = tr' at h
    cases h with
    | init => simp at htr
    | step hr ht =>
        obtain ⟨rfl, hab⟩ := List.append_inj' htr rfl
        obtain rfl := List.head_eq_of_cons_eq hab
        exact ⟨_, hr, ht⟩
  · rintro ⟨s, hr, ht⟩
    exact hr.step ht

/-- A run, cut in two: the rest of it begins where the first part ends. -/
theorem run_append {tr₁ tr₂ : List α} {s' : σ} :
    M.Run (tr₁ ++ tr₂) s' ↔ ∃ s, M.Run tr₁ s ∧ (M.after s).Run tr₂ s' := by
  induction tr₂ using List.reverseRecOn generalizing s' with
  | nil =>
      rw [List.append_nil]
      constructor
      · exact fun h => ⟨s', h, .init rfl⟩
      · rintro ⟨s, h, hnil⟩
        obtain rfl : s' = s := run_nil.1 hnil
        exact h
  | append_singleton tr₂ a ih =>
      rw [← List.append_assoc, run_concat]
      constructor
      · rintro ⟨t, ht, hstep⟩
        obtain ⟨s, hs, hrest⟩ := ih.1 ht
        exact ⟨s, hs, hrest.step hstep⟩
      · rintro ⟨s, hs, hrest⟩
        obtain ⟨t, ht, hstep⟩ := run_concat.1 hrest
        exact ⟨t, ih.2 ⟨s, hs, ht⟩, hstep⟩

/-- The first step of a run. -/
theorem run_cons {a : α} {tr : List α} {s' : σ} :
    M.Run (a :: tr) s' ↔ ∃ s₀ s, M.init s₀ ∧ M.step s₀ a s ∧ (M.after s).Run tr s' := by
  constructor
  · intro h
    obtain ⟨s, hs, hrest⟩ := run_append.1 (show M.Run ([a] ++ tr) s' from h)
    obtain ⟨s₀, hs₀, hstep⟩ := run_concat.1 (show M.Run ([] ++ [a]) s from hs)
    exact ⟨s₀, s, run_nil.1 hs₀, hstep, hrest⟩
  · rintro ⟨s₀, s, hs₀, hstep, hrest⟩
    exact run_append.2 ⟨s, (Run.init hs₀).step hstep, hrest⟩

/-- Steps that a function takes one after the other are a run. -/
theorem run_of_foldlM {f : σ → α → Option σ} (hf : ∀ s a s', f s a = some s' → M.step s a s')
    {as : List α} {s s' : σ} (hs : M.init s) (h : as.foldlM f s = some s') : M.Run as s' := by
  induction as using List.reverseRecOn generalizing s' with
  | nil =>
      obtain rfl : s = s' := Option.some.inj h
      exact .init hs
  | append_singleton as a ih =>
      rw [List.foldlM_append] at h
      obtain ⟨t, ht, hstep⟩ := Option.bind_eq_some_iff.1 h
      rw [List.foldlM_cons] at hstep
      obtain ⟨t', ht', hs'⟩ := Option.bind_eq_some_iff.1 hstep
      obtain rfl : t' = s' := Option.some.inj hs'
      exact (ih ht).step (hf _ _ _ ht')

/-- The invariant rule for such steps; `I` may speak of those taken so far. -/
theorem invariant_of_foldlM {I : List α → σ → Prop} {f : σ → α → Option σ} {as : List α} {s s' : σ}
    (h : as.foldlM f s = some s') (h0 : I [] s)
    (hstep : ∀ taken s a s', I taken s → f s a = some s' → I (taken ++ [a]) s') : I as s' := by
  have hrun : (Lts.mk (· = s) fun s a s' => f s a = some s').Run as s' :=
    run_of_foldlM (fun _ _ _ h => h) rfl h
  refine hrun.invariant ?_ fun taken s a s' _ => hstep taken s a s'
  rintro _ rfl
  exact h0

/-- Such steps that meet a condition are a run of the guarded system. -/
theorem run_guard_of_foldlM {G : σ → α → Prop} [∀ s a, Decidable (G s a)]
    {f : σ → α → Option σ} (hf : ∀ s a s', f s a = some s' → M.step s a s') {as : List α}
    {s s' : σ} (hs : M.init s)
    (h : as.foldlM (fun s a => if G s a then f s a else none) s = some s') :
    (M.guard G).Run as s' := by
  refine run_of_foldlM (M := M.guard G) (fun s a s' hstep => ?_) hs h
  split at hstep
  next hG => exact ⟨hG, hf s a s' hstep⟩
  next => cases hstep

/-- A run of the guarded system is a run of the system. -/
theorem Run.of_guard {G : σ → α → Prop} {tr : List α} {s : σ} (h : (M.guard G).Run tr s) :
    M.Run tr s := by
  induction h with
  | init hs => exact .init hs
  | step _ ht ih => exact .step ih ht.2

/-- A run whose labels meet the condition in every state is a run of the guarded system. -/
theorem Run.guard {G : σ → α → Prop} {tr : List α} {s : σ} (h : M.Run tr s)
    (hG : ∀ a ∈ tr, ∀ s, G s a) : (M.guard G).Run tr s := by
  induction h with
  | init hs => exact .init hs
  | step _ ht ih =>
      have hlast := hG _ (List.mem_append_right _ List.mem_cons_self)
      exact .step (ih fun a ha => hG a (List.mem_append_left _ ha)) ⟨hlast _, ht⟩

/-- The invariant rule for the runs whose steps all meet the condition `G`. -/
theorem Run.guard_invariant {G : σ → α → Prop} {I : List α → σ → Prop}
    (h0 : ∀ s, M.init s → I [] s)
    (hstep : ∀ tr s a s', I tr s → G s a → M.step s a s' → I (tr ++ [a]) s')
    {tr : List α} {s : σ} (h : (M.guard G).Run tr s) : I tr s :=
  Run.invariant (M := M.guard G) (I := I) h0
    (fun tr s a s' _ hi ht => hstep tr s a s' hi ht.1 ht.2) h

/-- In a deterministic system the labels of a run determine the state it ends in. -/
theorem Run.unique (hinit : ∀ s s', M.init s → M.init s' → s = s')
    (hstep : ∀ s a s' s'', M.step s a s' → M.step s a s'' → s' = s'') {tr : List α} {s s' : σ}
    (h : M.Run tr s) (h' : M.Run tr s') : s = s' := by
  induction h generalizing s' with
  | init hs => exact hinit _ _ hs (run_nil.1 h')
  | step _ ht ih =>
      obtain ⟨t, hr, ht'⟩ := run_concat.1 h'
      obtain rfl := ih hr
      exact hstep _ _ _ _ ht ht'

/-- The first part of a run is a run. -/
theorem Run.initialPart {pre tr : List α} {s : σ} (h : M.Run tr s) (hpre : pre <+: tr) :
    ∃ s', M.Run pre s' := by
  obtain ⟨post, rfl⟩ := hpre
  obtain ⟨s', hr, -⟩ := run_append.1 h
  exact ⟨s', hr⟩

/-- A property of the states of a deterministic system holds in every state along the runs of the
guarded system, and only along those, when the guard is what a step needs to lead to it. -/
theorem Run.forall_initialPart_iff_guard {G : σ → α → Prop} {P : σ → Prop}
    (hinit : ∀ s s', M.init s → M.init s' → s = s')
    (hstep : ∀ s a s' s'', M.step s a s' → M.step s a s'' → s' = s'')
    (hholds : ∀ tr s, (M.guard G).Run tr s → P s)
    (hneeds : ∀ s a s', M.step s a s' → P s' → G s a) {tr : List α} {s : σ} (h : M.Run tr s) :
    (∀ pre s', pre <+: tr → M.Run pre s' → P s') ↔ (M.guard G).Run tr s := by
  constructor
  · intro hall
    induction h with
    | init hs => exact .init hs
    | step hr ht ih =>
        have hrest := ih fun pre s' hpre hrun =>
          hall pre s' (hpre.trans (List.prefix_append _ _)) hrun
        exact hrest.step ⟨hneeds _ _ _ ht (hall _ _ List.prefix_rfl (hr.step ht)), ht⟩
  · intro hguard pre s' hpre hrun
    obtain ⟨s'', hguard'⟩ := hguard.initialPart hpre
    obtain rfl := hrun.unique hinit hstep hguard'.of_guard
    exact hholds _ _ hguard'

/-- A property that a step leads to exactly from the property and with the guard holds at the end of
the runs of the guarded system, and only there. -/
theorem Run.iff_guard {G : σ → α → Prop} {P : σ → Prop} (h0 : ∀ s, M.init s → P s)
    (hstep : ∀ tr s a s', M.Run tr s → M.step s a s' → (P s' ↔ P s ∧ G s a)) {tr : List α} {s : σ}
    (h : M.Run tr s) : P s ↔ (M.guard G).Run tr s := by
  constructor
  · intro hP
    induction h with
    | init hs => exact .init hs
    | step hr ht ih =>
        obtain ⟨hbefore, hg⟩ := (hstep _ _ _ _ hr ht).1 hP
        exact (ih hbefore).step ⟨hg, ht⟩
  · intro hguard
    refine (hguard.guard_invariant (I := fun tr s => M.Run tr s ∧ P s) ?_ ?_).2
    · exact fun s hs => ⟨.init hs, h0 s hs⟩
    · rintro tr s a s' ⟨hr, hP⟩ hg ht
      exact ⟨hr.step ht, (hstep _ _ _ _ hr ht).2 ⟨hP, hg⟩⟩

/-- Forward simulation: related states stay related over equally labelled steps, so every run of
the first system is a run of the second. -/
theorem Run.refine {N : Lts τ α} {R : σ → τ → Prop}
    (h0 : ∀ s, M.init s → ∃ t, N.init t ∧ R s t)
    (hstep : ∀ s a s' t, R s t → M.step s a s' → ∃ t', N.step t a t' ∧ R s' t')
    {tr : List α} {s : σ} (h : M.Run tr s) : ∃ t, N.Run tr t ∧ R s t := by
  induction h with
  | init hs =>
      obtain ⟨t, ht, hR⟩ := h0 _ hs
      exact ⟨t, .init ht, hR⟩
  | step _ ht ih =>
      obtain ⟨t, hr, hR⟩ := ih
      obtain ⟨t', ht', hR'⟩ := hstep _ _ _ _ hR ht
      exact ⟨t', .step hr ht', hR'⟩

/-! ## Properties of each step of a run -/

/-- Every step of the run has the property, which may speak of the labels before it. -/
def EachStep (P : List α → α → Prop) (tr : List α) : Prop :=
  ∀ pre a post, tr = pre ++ a :: post → P pre a

@[simp] theorem eachStep_nil {P : List α → α → Prop} : EachStep P [] := by
  intro pre a post h
  simp at h

/-- One step more: the steps before it and the step itself. -/
theorem eachStep_concat {P : List α → α → Prop} {tr : List α} {a : α} :
    EachStep P (tr ++ [a]) ↔ EachStep P tr ∧ P tr a := by
  constructor
  · refine fun h => ⟨fun pre b post hb => h pre b (post ++ [a]) (by simp [hb]), ?_⟩
    exact h tr a [] rfl
  · rintro ⟨h, ha⟩ pre b post hb
    rcases List.eq_nil_or_concat post with rfl | ⟨post, c, rfl⟩
    · obtain ⟨rfl, hab⟩ := List.append_inj' hb rfl
      rw [← List.head_eq_of_cons_eq hab]
      exact ha
    · rw [List.concat_eq_append, ← List.cons_append, ← List.append_assoc] at hb
      exact h pre b post (List.append_inj' hb rfl).1

/-- A property of the label alone holds at every step if it holds of every label. -/
theorem eachStep_iff_forall_mem {Q : α → Prop} {tr : List α} :
    EachStep (fun _ a => Q a) tr ↔ ∀ a ∈ tr, Q a := by
  constructor
  · intro h a ha
    obtain ⟨pre, post, rfl⟩ := List.append_of_mem ha
    exact h pre a post rfl
  · rintro h pre a post rfl
    exact h a (List.mem_append_right _ List.mem_cons_self)

/-- Two properties that agree at each step of a run, where an invariant of the run may be used,
agree on the whole run. -/
theorem Run.eachStep_iff {I : List α → σ → Prop} {P Q : List α → α → Prop}
    (h0 : ∀ s, M.init s → I [] s)
    (hstep : ∀ tr s a s', I tr s → M.step s a s' → I (tr ++ [a]) s' ∧ (P tr a ↔ Q tr a))
    {tr : List α} {s : σ} (h : M.Run tr s) : EachStep P tr ↔ EachStep Q tr := by
  have hI : ∀ {tr s}, M.Run tr s → I tr s := fun h =>
    h.invariant h0 fun tr s a s' _ hi ht => (hstep tr s a s' hi ht).1
  induction h with
  | init => simp
  | step hr ht ih =>
      rw [eachStep_concat, eachStep_concat]
      exact and_congr ih (hstep _ _ _ _ (hI hr) ht).2

/-! ## Deterministic systems -/

variable {ι ο : Type v}

/-- The system of a step function from inputs to outputs: a step is labelled with its input and
its output. Where the function is undefined the system has no step. -/
def ofStep (s₀ : σ) (f : σ → ι → Option (σ × ο)) : Lts σ (ι × ο) where
  init s := s = s₀
  step s a s' := f s a.1 = some (s', a.2)

variable {s₀ : σ} {f : σ → ι → Option (σ × ο)}

/-- A step function that is defined wherever an invariant holds never gets stuck: every input list
has a run. -/
theorem ofStep_total {I : σ → Prop} (h0 : I s₀)
    (hstep : ∀ s i, I s → ∃ s' o, f s i = some (s', o) ∧ I s') (is : List ι) :
    ∃ tr s, (ofStep s₀ f).Run tr s ∧ tr.map Prod.fst = is ∧ I s := by
  induction is using List.reverseRecOn with
  | nil => exact ⟨[], s₀, .init rfl, rfl, h0⟩
  | append_singleton is i ih =>
      obtain ⟨tr, s, hr, hmap, hi⟩ := ih
      obtain ⟨s', o, hf, hi'⟩ := hstep s i hi
      exact ⟨tr ++ [(i, o)], s', .step hr hf, by simp [hmap], hi'⟩

/-- The inputs of a run of a step function determine its outputs and the state it ends in. -/
theorem ofStep_unique {tr tr' : List (ι × ο)} {s t : σ} (hs : (ofStep s₀ f).Run tr s)
    (ht : (ofStep s₀ f).Run tr' t) (hinputs : tr.map Prod.fst = tr'.map Prod.fst) :
    tr = tr' ∧ s = t := by
  induction hs generalizing tr' t with
  | init hs =>
      obtain rfl : tr' = [] := List.map_eq_nil_iff.1 hinputs.symm
      exact ⟨rfl, hs.trans (run_nil.1 ht).symm⟩
  | @step tr s s' a _ hstep ih =>
      rcases List.eq_nil_or_concat tr' with rfl | ⟨tr', b, rfl⟩
      · simp at hinputs
      · rw [List.concat_eq_append] at hinputs ht ⊢
        rw [List.map_append, List.map_append] at hinputs
        obtain ⟨hrest, hab⟩ := List.append_inj' hinputs rfl
        have hfst : a.1 = b.1 := List.head_eq_of_cons_eq hab
        obtain ⟨t₀, ht₀, hstep'⟩ := run_concat.1 ht
        obtain ⟨rfl, rfl⟩ := ih ht₀ hrest
        have hstep'' : f s a.1 = some (t, b.2) := hfst ▸ hstep'
        obtain ⟨rfl, hsnd⟩ := Prod.mk.inj (Option.some.inj (hstep.symm.trans hstep''))
        exact ⟨by rw [Prod.ext hfst hsnd], rfl⟩

/-- A run whose inputs all come from requests is a run of the system that takes the requests. -/
theorem ofStep_run_requests {κ : Type v} {c : κ → ι} {requests : List κ} {tr : List (ι × ο)}
    {s : σ} (h : (ofStep s₀ f).Run tr s) (hinputs : tr.map Prod.fst = requests.map c) :
    (ofStep s₀ fun s k => f s (c k)).Run (requests.zip (tr.map Prod.snd)) s := by
  induction requests using List.reverseRecOn generalizing tr s with
  | nil =>
      obtain rfl := List.map_eq_nil_iff.1 hinputs
      exact .init (show s = s₀ from run_nil.1 h)
  | append_singleton requests k ih =>
      rcases List.eq_nil_or_concat tr with rfl | ⟨tr, a, rfl⟩
      · simp at hinputs
      · rw [List.concat_eq_append] at hinputs h ⊢
        rw [List.map_append, List.map_append] at hinputs
        obtain ⟨hrest, hab⟩ := List.append_inj' hinputs rfl
        have hfst : a.1 = c k := List.head_eq_of_cons_eq hab
        have hlength : requests.length = (tr.map Prod.snd).length := by
          simpa using (congrArg List.length hrest).symm
        obtain ⟨t, ht, hstep⟩ := run_concat.1 h
        rw [List.map_append, List.zip_append hlength]
        have hstep' : f t (c k) = some (s, a.2) := by
          rw [← hfst]
          exact hstep
        exact (ih ht hrest).step hstep'

/-! ## Leaving a finite set -/

/-- The iterates of a function meet no element of a finite set twice before they leave the set, so
they leave it within as many steps as it has elements. -/
theorem iterate_exit_le_card {f : σ → σ} {x : σ} {S : Finset σ} {n : Nat}
    (hin : ∀ k < n, f^[k] x ∈ S) (hout : f^[n] x ∉ S) : n ≤ S.card := by
  by_contra hlt
  have hcard : S.card < (Finset.range n).card := by
    rw [Finset.card_range]
    omega
  obtain ⟨i, hi, j, hj, hne, heq⟩ := Finset.exists_ne_map_eq_of_card_lt_of_maps_to hcard
    fun k hk => hin k (Finset.mem_range.1 hk)
  -- what follows the second of two equal iterates was already met behind the first
  have hlater : ∀ {i j : Nat}, i < j → j < n → f^[i] x ≠ f^[j] x := by
    intro i j hij hjn heq
    refine hout ?_
    have hback : f^[n] x = f^[n - j + i] x := by
      rw [Function.iterate_add_apply, heq, ← Function.iterate_add_apply, Nat.sub_add_cancel hjn.le]
    rw [hback]
    exact hin _ (by omega)
  rcases Nat.lt_or_gt_of_ne hne with hij | hji
  · exact hlater hij (Finset.mem_range.1 hj) heq
  · exact hlater hji (Finset.mem_range.1 hi) heq.symm

end Lts
