import Soundcan.Lib.Path

/-!
# Strings of Go

The expressions and library functions on strings, where a string is a sequence of bytes with one
character for each byte. A slice whose bounds are out of range is `none`.
-/

namespace GoString

open Path

/-- `xs[i:j]` of a slice. -/
def sub {α : Type} (xs : List α) (i j : Nat) : Option (List α) :=
  if i ≤ j ∧ j ≤ xs.length then some ((xs.take j).drop i) else none

/-- `s[i:j]` of a string. -/
def slice (s : String) (i j : Nat) : Option String := (sub s.toList i j).map .ofList

/-- `s[i:]`. -/
def sliceFrom (s : String) (i : Nat) : Option String := slice s i s.length

/-- A slice beyond the end panics. -/
theorem slice_eq_none {s : String} {i j : Nat} (h : s.length < j) : slice s i j = none := by
  have hrange : ¬(i ≤ j ∧ j ≤ s.toList.length) := by
    rw [String.length_toList]
    omega
  rw [slice, sub, if_neg hrange, Option.map_none]

/-- A slice inside is what is between its bounds. -/
theorem slice_eq_some {s : String} {i j : Nat} (hij : i ≤ j) (hj : j ≤ s.length) :
    slice s i j = some (.ofList ((s.toList.take j).drop i)) := by
  rw [← String.length_toList] at hj
  rw [slice, sub, if_pos ⟨hij, hj⟩, Option.map_some]

/-- A slice from a place inside is the rest. -/
theorem sliceFrom_eq_some {s : String} {i : Nat} (h : i ≤ s.length) :
    sliceFrom s i = some (.ofList (s.toList.drop i)) := by
  rw [sliceFrom, slice_eq_some h le_rfl, ← String.length_toList, List.take_length]

/-- A slice from a place beyond the end panics. -/
theorem sliceFrom_eq_none {s : String} {i : Nat} (h : s.length < i) : sliceFrom s i = none := by
  have hrange : ¬(i ≤ s.length ∧ s.length ≤ s.toList.length) := fun hrange =>
    absurd hrange.1 (not_le.2 h)
  rw [sliceFrom, slice, sub, if_neg hrange, Option.map_none]

/-- A slice takes a part of a string apart that was put together around it. -/
theorem slice_append (s t u : String) :
    slice (s ++ t ++ u) s.length (s.length + t.length) = some t := by
  have hlength : s.length + t.length ≤ (s ++ t ++ u).length := by
    rw [String.length_append, String.length_append]
    exact Nat.le_add_right _ _
  rw [slice_eq_some (Nat.le_add_right _ _) hlength]
  refine congrArg some (String.toList_injective ?_)
  have htake : (s.toList ++ t.toList ++ u.toList).take (s.toList.length + t.toList.length) =
      s.toList ++ t.toList := List.take_left' (by rw [List.length_append])
  rw [String.toList_ofList, String.toList_append, String.toList_append,
    ← String.length_toList (s := s), ← String.length_toList (s := t), htake, List.drop_left]

/-- The rest behind a prefix. -/
theorem sliceFrom_append (s t : String) : sliceFrom (s ++ t) s.length = some t := by
  have hlength : s.length ≤ (s ++ t).length := by
    rw [String.length_append]
    exact Nat.le_add_right _ _
  rw [sliceFrom_eq_some hlength, String.toList_append, ← String.length_toList (s := s),
    List.drop_left, String.ofList_toList]

/-! ## Lines -/

/-- `strings.Split` at a separator of one byte. -/
def split (s : String) (sep : Char) : List String := (s.toList.splitOn sep).map .ofList

/-- A text of lines. -/
def lines (ls : List String) : String := .join (ls.map (· ++ "\n"))

/-- Splitting gives at least one part. -/
theorem split_ne_nil (s : String) (sep : Char) : split s sep ≠ [] := by
  intro h
  exact List.splitOn_ne_nil sep s.toList (List.map_eq_nil_iff.1 h)

/-- The lines of a text, and the empty string behind the last of them. -/
theorem split_lines {ls : List String} (h : ∀ l ∈ ls, '\n' ∉ l.toList) :
    split (lines ls) '\n' = ls ++ [""] := by
  induction ls with
  | nil => rfl
  | cons l ls ih =>
      have hl : '\n' ∉ l.toList := h l List.mem_cons_self
      have hlines : (lines (l :: ls)).toList = l.toList ++ '\n' :: (lines ls).toList := by
        simp [lines]
      rw [split, hlines, List.splitOn_append_cons_self_of_not_mem hl, List.map_cons,
        String.ofList_toList, ← split, ih fun l' hl' => h l' (List.mem_cons_of_mem _ hl')]
      rfl

/-! ## The last part of a path -/

/-- `strings.LastIndex` of one byte. -/
def lastIndex (c : Char) : List Char → Int
  | [] => -1
  | d :: cs => if 0 ≤ lastIndex c cs then lastIndex c cs + 1 else if d = c then 0 else -1

/-- What is behind the last slash of a path. -/
def base (path : String) : String := .ofList (lastSegment path.toList)

/-- A character that is not there has the index -1. -/
theorem lastIndex_of_notMem {c : Char} {cs : List Char} (h : c ∉ cs) : lastIndex c cs = -1 := by
  induction cs with
  | nil => rfl
  | cons d cs ih =>
      have hd : d ≠ c := fun heq => h (heq ▸ List.mem_cons_self)
      rw [lastIndex, ih fun hcs => h (List.mem_cons_of_mem _ hcs), if_neg (by decide), if_neg hd]

/-- The index is that of the last occurrence. -/
theorem lastIndex_append {c : Char} (front : List Char) {cs : List Char} (h : c ∉ cs) :
    lastIndex c (front ++ c :: cs) = front.length := by
  induction front with
  | nil => rw [List.nil_append, lastIndex, lastIndex_of_notMem h, if_neg (by decide), if_pos rfl,
      List.length_nil, Nat.cast_zero]
  | cons d front ih =>
      rw [List.cons_append, lastIndex, ih, if_pos (Int.natCast_nonneg _), List.length_cons,
        Nat.cast_add, Nat.cast_one]

/-- A slice from behind the last slash is in range. -/
theorem sliceFrom_lastIndex (path : String) :
    sliceFrom path (lastIndex '/' path.toList + 1).toNat = some (base path) := by
  obtain ⟨cs, rfl⟩ := path.exists_eq_ofList
  rw [base, String.toList_ofList]
  by_cases h : '/' ∈ cs
  · obtain ⟨front, back, rfl, hback⟩ := eq_append_cons_of_mem h
    have hindex : (lastIndex '/' (front ++ '/' :: back) + 1).toNat = front.length + 1 := by
      rw [lastIndex_append front hback]
      rfl
    have hlength : front.length + 1 ≤ (String.ofList (front ++ '/' :: back)).length := by
      rw [String.length_ofList, List.length_append, List.length_cons]
      omega
    rw [hindex, sliceFrom_eq_some hlength, String.toList_ofList, lastSegment_slash front hback,
      ← List.drop_drop, List.drop_left, List.drop_one, List.tail_cons]
  · have hindex : (lastIndex '/' cs + 1).toNat = 0 := by
      rw [lastIndex_of_notMem h]
      rfl
    rw [hindex, sliceFrom_eq_some (Nat.zero_le _), String.toList_ofList, List.drop_zero,
      lastSegment_of_notMem h]

/-! ## Words -/

/-- The white space of Unicode, in UTF-8. -/
def spaces : List (List Char) :=
  [[' '], ['\t'], ['\n'], ['\x0b'], ['\x0c'], ['\r'], ['\xc2', '\x85'], ['\xc2', '\xa0'],
    ['\xe1', '\x9a', '\x80']] ++
  ['\x80', '\x81', '\x82', '\x83', '\x84', '\x85', '\x86', '\x87', '\x88', '\x89', '\x8a',
    '\xa8', '\xa9', '\xaf'].map (fun c => ['\xe2', '\x80', c]) ++
  [['\xe2', '\x81', '\x9f'], ['\xe3', '\x80', '\x80']]

/-- The length of the white space that a text begins with, 0 for another character. -/
def spaceLength (cs : List Char) : Nat :=
  match spaces.find? fun space => space <+: cs with
  | some space => space.length
  | none => 0

/-- The text with `none` for each white space, behind its first `skip` bytes. No byte inside of a
character begins a white space. -/
def marks : Nat → List Char → List (Option Char)
  | _, [] => []
  | 0, c :: cs =>
    if spaceLength (c :: cs) = 0 then some c :: marks 0 cs
    else none :: marks (spaceLength (c :: cs) - 1) cs
  | skip + 1, _ :: cs => marks skip cs

/-- The words between the marks. -/
def words (ms : List (Option Char)) : List String :=
  ((ms.splitOnP Option.isNone).filter fun word => word ≠ []).map fun word =>
    .ofList (word.filterMap id)

/-- `strings.Fields`. -/
def fields (s : String) : List String := words (marks 0 s.toList)

example : fields " 1  /sf/a b.sf2\xc2\xa0c" = ["1", "/sf/a", "b.sf2", "c"] := by decide +kernel

/-- White space other than the blank has no blank in it. -/
theorem blank_notMem_space : ∀ space ∈ spaces, space = [' '] ∨ ' ' ∉ space := by decide

/-- A blank is one byte of space. -/
theorem spaceLength_blank (cs : List Char) : spaceLength (' ' :: cs) = 1 := by
  have hfront : [' '] <+: ' ' :: cs := ⟨cs, rfl⟩
  rw [spaceLength, spaces, List.cons_append, List.cons_append, List.find?_cons_of_pos (by simp)]
  rfl

/-- The space at the front is part of the text. -/
theorem spaceLength_le (cs : List Char) : spaceLength cs ≤ cs.length := by
  unfold spaceLength
  split
  next space hfind =>
    have hfront := List.find?_some hfind
    exact (of_decide_eq_true hfront).length_le
  next => exact Nat.zero_le _

/-- What a text begins with is not changed by a blank behind it. -/
theorem spaceLength_append_blank {cs : List Char} (h : cs ≠ []) (rest : List Char) :
    spaceLength (cs ++ ' ' :: rest) = spaceLength cs := by
  have hfront : ∀ space ∈ spaces, (space <+: cs ++ ' ' :: rest ↔ space <+: cs) := by
    intro space hspace
    refine ⟨fun hpre => ?_, fun hpre => hpre.trans (List.prefix_append _ _)⟩
    rcases List.prefix_or_prefix_of_prefix hpre (List.prefix_append cs _) with hle | ⟨tail, rfl⟩
    · exact hle
    -- the white space would go on behind the text, with a blank
    cases tail with
    | nil => rw [List.append_nil]
    | cons d tail =>
        have hd : d = ' ' := (List.cons_prefix_cons.1 ((List.prefix_append_right_inj _).1 hpre)).1
        subst hd
        rcases blank_notMem_space _ hspace with heq | hnot
        · rw [List.append_eq_cons_iff] at heq
          rcases heq with ⟨hnil, -⟩ | ⟨_, -, heq⟩
          · exact absurd hnil h
          · cases List.append_eq_nil_iff.1 heq.symm |>.2
        · exact absurd (List.mem_append_right _ List.mem_cons_self) hnot
  have hfind : (spaces.find? fun space => space <+: cs ++ ' ' :: rest) =
      spaces.find? fun space => space <+: cs :=
    List.find?_congr fun space hspace => decide_eq_decide.2 (hfront space hspace)
  rw [spaceLength, spaceLength, hfind]

/-- A blank ends the text in front of it. -/
theorem marks_append_blank (cs rest : List Char) {skip : Nat} (h : skip ≤ cs.length) :
    marks skip (cs ++ ' ' :: rest) = marks skip cs ++ none :: marks 0 rest := by
  induction cs generalizing skip with
  | nil =>
      obtain rfl : skip = 0 := Nat.le_zero.1 h
      have hblank : marks 0 (' ' :: rest) = none :: marks 0 rest := by
        rw [marks, spaceLength_blank, if_neg Nat.one_ne_zero]
      exact hblank
  | cons c cs ih =>
      rw [List.cons_append]
      cases skip with
      | zero =>
          have hlength := spaceLength_append_blank (List.cons_ne_nil c cs) rest
          rw [List.cons_append] at hlength
          have hle := spaceLength_le (c :: cs)
          rw [List.length_cons] at hle
          rw [marks, marks, hlength]
          split
          · rw [ih (Nat.zero_le _), List.cons_append]
          · rw [ih (by omega), List.cons_append]
      | succ skip => exact ih (Nat.le_of_succ_le_succ h)

/-- The words on the two sides of a blank. -/
theorem fields_append_blank (s t : String) : fields (s ++ " " ++ t) = fields s ++ fields t := by
  have htext : (s ++ " " ++ t).toList = s.toList ++ ' ' :: t.toList := by simp
  rw [fields, htext, marks_append_blank _ _ (Nat.zero_le _), words,
    List.splitOnP_append_cons _ _ rfl, List.filter_append, List.map_append]
  rfl

end GoString
