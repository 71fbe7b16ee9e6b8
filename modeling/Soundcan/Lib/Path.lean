import Mathlib.Data.List.Basic
import Mathlib.Data.List.DropRight
import Mathlib.Tactic

/-!
# Paths

The segments of a path, and where a walk over them ends: empty segments and `.` stay, `..` goes back
to the place above, which is the root for the root.
-/

namespace Path

/-! ## The last occurrence of a character -/

/-- The last one of the characters that are equal to `c`. -/
theorem eq_append_cons_of_mem {c : Char} {cs : List Char} (h : c ∈ cs) :
    ∃ front back, cs = front ++ c :: back ∧ c ∉ back := by
  obtain ⟨back, front, heq, hback⟩ := List.eq_append_cons_of_mem (List.mem_reverse.2 h)
  refine ⟨front.reverse, back.reverse, ?_, fun hmem => hback (List.mem_reverse.1 hmem)⟩
  rw [← List.reverse_reverse cs, heq, List.reverse_append, List.reverse_cons, List.append_assoc,
    List.singleton_append]

/-! ## Segments -/

/-- The segments of a path. -/
def segments (path : List Char) : List (List Char) := path.splitOn '/'

/-- What is behind the last slash of a path. -/
def lastSegment (path : List Char) : List Char := path.rtakeWhile (· ≠ '/')

/-- The place behind a segment. -/
def enter (place : List (List Char)) (segment : List Char) : List (List Char) :=
  if segment = [] ∨ segment = ['.'] then place
  else if segment = ['.', '.'] then place.dropLast
  else place ++ [segment]

/-- The place at the end of a walk. -/
def walk (place : List (List Char)) (ss : List (List Char)) : List (List Char) :=
  ss.foldl enter place

/-- The place of an absolute path. -/
def resolve (path : List Char) : List (List Char) := walk [] (segments path)

example : resolve "/var/www/../www/./a".toList = ["var".toList, "www".toList, "a".toList] := by
  decide +kernel

/-- A slash ends a segment. -/
theorem segments_slash (s t : List Char) : segments (s ++ '/' :: t) = segments s ++ segments t :=
  List.splitOn_append_cons_self s t

/-- A path without slashes is one segment. -/
theorem segments_of_notMem {s : List Char} (h : '/' ∉ s) : segments s = [s] :=
  List.splitOn_eq_singleton h

/-- The characters of a segment are those of the path. -/
theorem mem_of_mem_segments {path segment : List Char} {c : Char} (h : segment ∈ segments path)
    (hc : c ∈ segment) : c ∈ path := by
  induction path generalizing segment with
  | nil =>
      rw [List.mem_singleton.1 h] at hc
      exact hc
  | cons d path ih =>
      rw [segments, List.splitOn_cons_eq_if_modifyHead, ← segments] at h
      split at h
      · rcases List.mem_cons.1 h with rfl | htail
        · cases hc
        · exact List.mem_cons_of_mem _ (ih htail hc)
      · obtain ⟨first, rest, heq⟩ := List.exists_cons_of_ne_nil (List.splitOn_ne_nil '/' path)
        rw [segments, heq, List.modifyHead_cons] at h
        rw [segments, heq] at ih
        rcases List.mem_cons.1 h with rfl | htail
        · rcases List.mem_cons.1 hc with rfl | hfirst
          · exact List.mem_cons_self
          · exact List.mem_cons_of_mem _ (ih List.mem_cons_self hfirst)
        · exact List.mem_cons_of_mem _ (ih (List.mem_cons_of_mem _ htail) hc)

/-- The last segment is what is behind the last slash. -/
theorem lastSegment_slash (front : List Char) {cs : List Char} (h : '/' ∉ cs) :
    lastSegment (front ++ '/' :: cs) = cs := by
  have hall : ∀ d ∈ cs.reverse, decide (d ≠ '/') = true := by
    intro d hd
    exact decide_eq_true fun heq => h (heq ▸ List.mem_reverse.1 hd)
  rw [lastSegment, List.rtakeWhile, List.reverse_append, List.reverse_cons, List.append_assoc,
    List.singleton_append, List.takeWhile_append_of_pos hall, List.takeWhile_cons_of_neg (by simp),
    List.append_nil, List.reverse_reverse]

/-- The last segment of a path without slashes is the path. -/
theorem lastSegment_of_notMem {cs : List Char} (h : '/' ∉ cs) : lastSegment cs = cs := by
  have hall : ∀ d ∈ cs.reverse, decide (d ≠ '/') = true := by
    intro d hd
    exact decide_eq_true fun heq => h (heq ▸ List.mem_reverse.1 hd)
  rw [lastSegment, List.rtakeWhile, List.takeWhile_eq_self_iff.2 hall, List.reverse_reverse]

/-- A walk goes on where its first part has ended. -/
theorem walk_append (place ss ts : List (List Char)) :
    walk place (ss ++ ts) = walk (walk place ss) ts := List.foldl_append

/-- A walk over segments without dots goes down. -/
theorem walk_of_plain {ss : List (List Char)} (h : ∀ s ∈ ss, s ≠ ['.'] ∧ s ≠ ['.', '.'])
    (place : List (List Char)) : walk place ss = place ++ ss.filter (· ≠ []) := by
  induction ss generalizing place with
  | nil => exact (List.append_nil place).symm
  | cons s ss ih =>
      obtain ⟨hdot, hdots⟩ := h s List.mem_cons_self
      have htail := ih fun t ht => h t (List.mem_cons_of_mem _ ht)
      show walk (enter place s) ss = _
      by_cases hs : s = []
      · rw [enter, if_pos (.inl hs), htail, List.filter_cons_of_neg (by simpa using hs)]
      · have hstay : ¬(s = [] ∨ s = ['.']) := fun hor => hor.elim hs hdot
        rw [enter, if_neg hstay, if_neg hdots, htail, List.filter_cons_of_pos (by simpa using hs),
          List.append_assoc, List.singleton_append]

/-- A text without a slash goes behind the last segment. -/
theorem exists_segments_append (s : List Char) :
    ∃ front last, segments s = front ++ [last] ∧
      ∀ t, '/' ∉ t → segments (s ++ t) = front ++ [last ++ t] := by
  by_cases h : '/' ∈ s
  · obtain ⟨front, back, rfl, hback⟩ := eq_append_cons_of_mem h
    refine ⟨segments front, back, ?_, fun t ht => ?_⟩
    · rw [segments_slash, segments_of_notMem hback]
    · have htail : '/' ∉ back ++ t := fun hmem => (List.mem_append.1 hmem).elim hback ht
      rw [List.append_assoc, List.cons_append, segments_slash, segments_of_notMem htail]
  · refine ⟨[], s, segments_of_notMem h, fun t ht => segments_of_notMem ?_⟩
    exact fun hmem => (List.mem_append.1 hmem).elim h ht

end Path
