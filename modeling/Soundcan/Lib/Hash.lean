import Mathlib.Data.List.Perm.Basic
import Mathlib.Tactic

/-!
# Hashes

A hash is a list of entries with different keys. Built from pairs one after the other it has the
last value of each key (`mem_ofPairs`).
-/

namespace Hash

variable {κ ν : Type} [DecidableEq κ]

/-- The value of a key. -/
def value (h : List (κ × ν)) (key : κ) : Option ν := (h.find? fun e => e.1 = key).map Prod.snd

/-- The hash without a key. -/
def erase (h : List (κ × ν)) (key : κ) : List (κ × ν) := h.filter fun e => e.1 ≠ key

/-- The hash with a value for a key. -/
def store (h : List (κ × ν)) (e : κ × ν) : List (κ × ν) := erase h e.1 ++ [e]

/-- The hash of pairs that are stored one after the other. -/
def ofPairs (es : List (κ × ν)) : List (κ × ν) := es.foldl store []

/-- An entry is erased by its key. -/
theorem mem_erase {h : List (κ × ν)} {key : κ} {e : κ × ν} :
    e ∈ erase h key ↔ e ∈ h ∧ e.1 ≠ key := by
  rw [erase, List.mem_filter, decide_eq_true_eq]

/-- An entry that is stored replaces that of its key. -/
theorem mem_store {h : List (κ × ν)} {e e' : κ × ν} :
    e' ∈ store h e ↔ (e' ∈ h ∧ e'.1 ≠ e.1) ∨ e' = e := by
  rw [store, List.mem_append, mem_erase, List.mem_singleton]

/-- The last pair is stored last. -/
theorem ofPairs_concat (es : List (κ × ν)) (e : κ × ν) :
    ofPairs (es ++ [e]) = store (ofPairs es) e := by
  rw [ofPairs, List.foldl_append]
  rfl

/-- Keys stay different. -/
theorem nodup_keys_ofPairs (es : List (κ × ν)) : ((ofPairs es).map Prod.fst).Nodup := by
  induction es using List.reverseRecOn with
  | nil => exact List.nodup_nil
  | append_singleton es e ih =>
      rw [ofPairs_concat, store, List.map_append, List.nodup_append]
      refine ⟨ih.sublist ((List.filter_sublist).map _), List.nodup_singleton _, ?_⟩
      intro key hkey key' hkey' heq
      obtain ⟨e', he', rfl⟩ := List.mem_map.1 hkey
      rw [List.map_singleton, List.mem_singleton] at hkey'
      exact (mem_erase.1 he').2 (heq.trans hkey')

/-- Pairs with different keys are their own hash. -/
theorem ofPairs_of_nodup {es : List (κ × ν)} (h : (es.map Prod.fst).Nodup) : ofPairs es = es := by
  induction es using List.reverseRecOn with
  | nil => rfl
  | append_singleton es e ih =>
      rw [List.map_append, List.nodup_append] at h
      obtain ⟨hes, -, hdisjoint⟩ := h
      rw [ofPairs_concat, ih hes, store, erase, List.filter_eq_self.2]
      intro e' he'
      have hne : e'.1 ≠ e.1 := hdisjoint _ (List.mem_map_of_mem he') _ (by simp)
      exact decide_eq_true hne

/-- An entry is the last pair of its key. -/
theorem mem_ofPairs {es : List (κ × ν)} {e : κ × ν} :
    e ∈ ofPairs es ↔ ∃ pre post, es = pre ++ e :: post ∧ ∀ e' ∈ post, e'.1 ≠ e.1 := by
  induction es using List.reverseRecOn with
  | nil =>
      refine ⟨fun h => absurd h List.not_mem_nil, ?_⟩
      rintro ⟨pre, post, heq, -⟩
      exact absurd heq.symm (List.append_ne_nil_of_right_ne_nil _ (List.cons_ne_nil _ _))
  | append_singleton es last ih =>
      rw [ofPairs_concat, mem_store, ih]
      constructor
      · rintro (⟨⟨pre, post, rfl, hpost⟩, hne⟩ | rfl)
        · refine ⟨pre, post ++ [last], by simp, ?_⟩
          rw [List.forall_mem_append, List.forall_mem_singleton]
          exact ⟨hpost, hne.symm⟩
        · exact ⟨es, [], rfl, fun _ h => absurd h List.not_mem_nil⟩
      · rintro ⟨pre, post, heq, hpost⟩
        rcases List.eq_nil_or_concat post with rfl | ⟨post, last', rfl⟩
        · obtain ⟨-, hlast⟩ := List.append_inj' heq rfl
          exact .inr (List.cons.inj hlast).1.symm
        · rw [List.concat_eq_append] at heq hpost
          rw [← List.cons_append, ← List.append_assoc] at heq
          obtain ⟨rfl, hlast⟩ := List.append_inj' heq rfl
          obtain rfl := (List.cons.inj hlast).1
          rw [List.forall_mem_append, List.forall_mem_singleton] at hpost
          exact .inl ⟨⟨pre, post, rfl, hpost.1⟩, hpost.2.symm⟩

/-- An entry is what the last line with its key gives. -/
theorem mem_ofPairs_filterMap {α : Type} {f : α → Option (κ × ν)} {lines : List α} {e : κ × ν} :
    e ∈ ofPairs (lines.filterMap f) ↔ ∃ pre line post, lines = pre ++ line :: post ∧
      f line = some e ∧ ∀ line' ∈ post, ∀ e', f line' = some e' → e'.1 ≠ e.1 := by
  rw [mem_ofPairs]
  constructor
  · rintro ⟨es, es', heq, hpost⟩
    obtain ⟨pre, rest, rfl, rfl, hrest⟩ := List.filterMap_eq_append_iff.1 heq
    obtain ⟨skipped, line, post, rfl, -, hline, rfl⟩ := List.filterMap_eq_cons_iff.1 hrest
    refine ⟨pre ++ skipped, line, post, by simp, hline, fun line' hmem e' he' => ?_⟩
    exact hpost e' (List.mem_filterMap.2 ⟨line', hmem, he'⟩)
  · rintro ⟨pre, line, post, rfl, hline, hpost⟩
    refine ⟨pre.filterMap f, post.filterMap f, ?_, fun e' he' => ?_⟩
    · rw [List.filterMap_append, List.filterMap_cons_some hline]
    · obtain ⟨line', hmem, hline'⟩ := List.mem_filterMap.1 he'
      exact hpost line' hmem e' hline'

/-- The keys are the keys of the pairs. -/
theorem exists_mem_ofPairs {es : List (κ × ν)} {e : κ × ν} (h : e ∈ es) :
    ∃ v, (e.1, v) ∈ ofPairs es := by
  induction es using List.reverseRecOn with
  | nil => cases h
  | append_singleton es last ih =>
      rw [ofPairs_concat]
      by_cases hkey : e.1 = last.1
      · exact ⟨last.2, mem_store.2 (.inr (by rw [hkey]))⟩
      · rw [List.mem_append, List.mem_singleton] at h
        have hmem : e ∈ es := h.resolve_right fun heq => hkey (by rw [heq])
        obtain ⟨v, hv⟩ := ih hmem
        exact ⟨v, mem_store.2 (.inl ⟨hv, hkey⟩)⟩

/-- Of different keys each entry is found. -/
theorem value_eq_some {h : List (κ × ν)} (hnodup : (h.map Prod.fst).Nodup) {key : κ} {v : ν} :
    value h key = some v ↔ (key, v) ∈ h := by
  constructor
  · intro hvalue
    obtain ⟨⟨key', v'⟩, hfind, rfl⟩ := Option.map_eq_some_iff.1 hvalue
    have hkey : key' = key := by simpa using List.find?_some hfind
    rw [← hkey]
    exact List.mem_of_find?_eq_some hfind
  · intro hmem
    obtain ⟨⟨key', v'⟩, hfind⟩ : ∃ e, h.find? (fun e => e.1 = key) = some e := by
      rw [← Option.isSome_iff_exists, List.find?_isSome]
      exact ⟨_, hmem, by simp⟩
    have hkey : key' = key := by simpa using List.find?_some hfind
    have hmem' := List.mem_of_find?_eq_some hfind
    have heq : (key', v') = (key, v) :=
      List.inj_on_of_nodup_map hnodup hmem' hmem hkey
    rw [value, hfind, Option.map_some, (Prod.mk.inj heq).2]

/-- Erasing a key leaves the values of the others. -/
theorem value_erase {h : List (κ × ν)} {key key' : κ} (hne : key ≠ key') :
    value (erase h key') key = value h key := by
  rw [value, value, erase, List.find?_filter]
  congr 2
  funext e
  simp only [decide_eq_true_eq, decide_eq_decide]
  exact ⟨fun h => h.2, fun h => ⟨fun h' => hne (h.symm.trans h'), h⟩⟩

/-- The order of the entries does not matter for the values. -/
theorem value_congr {h h' : List (κ × ν)} (hnodup : (h.map Prod.fst).Nodup)
    (hnodup' : (h'.map Prod.fst).Nodup) (hperm : h.Perm h') (key : κ) :
    value h key = value h' key := by
  ext v
  rw [value_eq_some hnodup, value_eq_some hnodup', hperm.mem_iff]

omit [DecidableEq κ] in
/-- Hashes with the same entries are the same up to the order. -/
theorem perm_of_mem_iff {h h' : List (κ × ν)} (hnodup : (h.map Prod.fst).Nodup)
    (hnodup' : (h'.map Prod.fst).Nodup) (hiff : ∀ e, e ∈ h ↔ e ∈ h') : h.Perm h' :=
  (List.perm_ext_iff_of_nodup hnodup.of_map hnodup'.of_map).2 hiff

end Hash
