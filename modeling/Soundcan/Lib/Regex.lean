import Mathlib.Data.List.Basic
import Mathlib.Data.List.TakeWhile
import Mathlib.Tactic

/-!
# Greedy regular expressions

Regular expressions with captures as a backtracking matcher tries them: each match of a part is
followed by the matches of what comes behind it, and a repetition tries the longest text first.
`Regex.tries` lists the matches at the beginning of a text in the order in which they are tried; the
first one counts.
-/

/-- A regular expression over classes of characters. -/
inductive Regex where
  /-- A character of the class. -/
  | one (p : Char → Bool)
  /-- Characters of the class, as many as possible. -/
  | many (p : Char → Bool)
  /-- The end of the text, also in front of a newline at the end. -/
  | eol
  /-- A group whose text is captured. -/
  | group (r : Regex)
  | seq (r r' : Regex)

/-- A match: its text, the captures in it and what is left behind it. -/
structure Match where
  text : List Char
  captures : List (List Char)
  rest : List Char

/-- Two matches behind each other. -/
def Match.append (m m' : Match) : Match :=
  ⟨m.text ++ m'.text, m.captures ++ m'.captures, m'.rest⟩

namespace Regex

/-- The beginnings of a text with characters of a class, the longest first, and what is left. -/
def splits (p : Char → Bool) : List Char → List (List Char × List Char)
  | [] => [([], [])]
  | c :: s =>
    if p c then (splits p s).map (fun (t, rest) => (c :: t, rest)) ++ [([], c :: s)]
    else [([], c :: s)]

/-- The matches at the beginning of a text, in the order in which they are tried. -/
def tries : Regex → List Char → List Match
  | one _, [] => []
  | one p, c :: s => if p c then [⟨[c], [], s⟩] else []
  | many p, s => (splits p s).map fun (t, rest) => ⟨t, [], rest⟩
  | eol, s => if s = [] ∨ s = ['\n'] then [⟨[], [], s⟩] else []
  | group r, s => (r.tries s).map fun m => ⟨m.text, m.text :: m.captures, m.rest⟩
  | seq r r', s => (r.tries s).flatMap fun m => (r'.tries m.rest).map m.append

/-- The match at the beginning of a text. -/
def first (r : Regex) (s : List Char) : Option Match := (r.tries s).head?

/-- The leftmost match in a text and the text in front of it. -/
def search (r : Regex) : List Char → Option (List Char × Match)
  | [] => (r.first []).map fun m => ([], m)
  | c :: s =>
    match r.first (c :: s) with
    | some m => some ([], m)
    | none => (search r s).map fun (t, m) => (c :: t, m)

/-- The text with its leftmost match replaced. -/
def replace (r : Regex) (t s : List Char) : List Char :=
  match r.search s with
  | some (front, m) => front ++ t ++ m.rest
  | none => s

/-- One character of the class or more. -/
def oneOrMore (p : Char → Bool) : Regex := seq (one p) (many p)

variable {p : Char → Bool} {r r' : Regex} {s : List Char}

/-! What the matches of each form are. -/

/-- One character matches, or none. -/
theorem tries_one_cons (p : Char → Bool) (c : Char) (s : List Char) :
    (one p).tries (c :: s) = if p c then [⟨[c], [], s⟩] else [] := rfl

/-- A repetition matches each prefix that its class allows, the longest one first. -/
theorem tries_many (p : Char → Bool) (s : List Char) :
    (many p).tries s = (splits p s).map fun (t, rest) => ⟨t, [], rest⟩ := rfl

/-- The end of the line is also in front of a last line break. -/
theorem tries_eol (s : List Char) :
    eol.tries s = if s = [] ∨ s = ['\n'] then [⟨[], [], s⟩] else [] := rfl

/-- A group captures what it matches. -/
theorem tries_group (r : Regex) (s : List Char) :
    (group r).tries s = (r.tries s).map fun m => ⟨m.text, m.text :: m.captures, m.rest⟩ := rfl

/-- A sequence matches what its first part leaves to its second. -/
theorem tries_seq (r r' : Regex) (s : List Char) :
    (seq r r').tries s = (r.tries s).flatMap fun m => (r'.tries m.rest).map m.append := rfl

/-- The first split is the longest. -/
theorem splits_head (p : Char → Bool) (s : List Char) :
    (splits p s).head? = some (s.takeWhile p, s.dropWhile p) := by
  induction s with
  | nil => rfl
  | cons c s ih =>
      rw [splits]
      split
      next hc =>
        rw [List.head?_append, List.head?_map, ih, List.takeWhile_cons_of_pos hc,
          List.dropWhile_cons_of_pos hc]
        rfl
      next hc =>
        rw [List.takeWhile_cons_of_neg hc, List.dropWhile_cons_of_neg hc]
        rfl

/-- A repetition takes all it can. -/
theorem first_many (p : Char → Bool) (s : List Char) :
    (many p).first s = some ⟨s.takeWhile p, [], s.dropWhile p⟩ := by
  rw [first, tries_many, List.head?_map, splits_head]
  rfl

/-- The first match of a class that the character is in. -/
theorem first_one {c : Char} (h : p c = true) (s : List Char) :
    (one p).first (c :: s) = some ⟨[c], [], s⟩ := by
  rw [first, tries_one_cons, if_pos h]
  rfl

/-- The first match of the end of a line. -/
theorem first_eol (h : s = [] ∨ s = ['\n']) : eol.first s = some ⟨[], [], s⟩ := by
  rw [first, tries_eol, if_pos h]
  rfl

/-- The first match of a group. -/
theorem first_group {m : Match} (h : r.first s = some m) :
    (group r).first s = some ⟨m.text, m.text :: m.captures, m.rest⟩ := by
  rw [first, tries_group, List.head?_map]
  rw [first] at h
  rw [h]
  rfl

/-- Where the first match of a part can be continued, nothing else is tried. -/
theorem first_seq {m m' : Match} (h : r.first s = some m) (h' : r'.first m.rest = some m') :
    (seq r r').first s = some (m.append m') := by
  unfold first at h h' ⊢
  obtain ⟨ms, hms⟩ := List.head?_eq_some_iff.1 h
  obtain ⟨ms', hms'⟩ := List.head?_eq_some_iff.1 h'
  rw [tries_seq, hms, List.flatMap_cons, hms']
  rfl

/-- Where the first match of a part cannot be continued, the second one is tried. -/
theorem first_seq_second {m₁ m₂ m' : Match} {ms : List Match} (h : r.tries s = m₁ :: m₂ :: ms)
    (h₁ : r'.tries m₁.rest = []) (h₂ : r'.first m₂.rest = some m') :
    (seq r r').first s = some (m₂.append m') := by
  unfold first at h₂ ⊢
  obtain ⟨ms', hms'⟩ := List.head?_eq_some_iff.1 h₂
  rw [tries_seq, h, List.flatMap_cons, h₁, List.map_nil, List.nil_append, List.flatMap_cons, hms']
  rfl

/-- A repetition that has taken what it can gives back its last character. -/
theorem splits_concat_append {t rest : List Char} {c : Char} (ht : ∀ c ∈ t, p c = true)
    (hc : p c = true) (hrest : ∀ c ∈ rest.head?, ¬p c = true) :
    ∃ more, splits p (t ++ c :: rest) = (t ++ [c], rest) :: (t, c :: rest) :: more := by
  induction t with
  | nil =>
      have hsplits : splits p rest = [([], rest)] := by
        cases rest with
        | nil => rfl
        | cons d rest => rw [splits, if_neg (hrest d rfl)]
      rw [List.nil_append, splits, if_pos hc, hsplits]
      exact ⟨[], rfl⟩
  | cons d t ih =>
      obtain ⟨hd, ht⟩ := List.forall_mem_cons.1 ht
      obtain ⟨more, hmore⟩ := ih ht
      rw [List.cons_append, splits, if_pos hd, hmore]
      exact ⟨_, rfl⟩

/-- A repetition takes what it can in front of a character that it cannot take. -/
theorem first_many_append {t rest : List Char} (ht : ∀ c ∈ t, p c = true)
    (hrest : ∀ c ∈ rest.head?, ¬p c = true) :
    (many p).first (t ++ rest) = some ⟨t, [], rest⟩ := by
  rw [first_many, List.takeWhile_append_of_pos ht, List.dropWhile_append_of_pos ht]
  cases rest with
  | nil => rw [List.takeWhile_nil, List.dropWhile_nil, List.append_nil]
  | cons c rest =>
      have hc : ¬p c = true := hrest c rfl
      rw [List.takeWhile_cons_of_neg hc, List.dropWhile_cons_of_neg hc, List.append_nil]

/-- The first match of a repetition is the whole run of characters. -/
theorem first_oneOrMore_append {t rest : List Char} (hne : t ≠ []) (ht : ∀ c ∈ t, p c = true)
    (hrest : ∀ c ∈ rest.head?, ¬p c = true) :
    (oneOrMore p).first (t ++ rest) = some ⟨t, [], rest⟩ := by
  obtain ⟨c, t, rfl⟩ := List.exists_cons_of_ne_nil hne
  obtain ⟨hc, ht⟩ := List.forall_mem_cons.1 ht
  exact first_seq (first_one hc _) (first_many_append ht hrest)

/-- A split is of the text. -/
theorem splits_append {t rest : List Char} (h : (t, rest) ∈ splits p s) : s = t ++ rest := by
  induction s generalizing t rest with
  | nil =>
      rw [splits, List.mem_singleton] at h
      obtain ⟨rfl, rfl⟩ := Prod.mk.inj h
      rfl
  | cons c s ih =>
      rw [splits] at h
      split at h
      next =>
        rw [List.mem_append, List.mem_map, List.mem_singleton] at h
        rcases h with ⟨⟨t', rest'⟩, hmem, heq⟩ | heq
        · obtain ⟨rfl, rfl⟩ : c :: t' = t ∧ rest' = rest := Prod.mk.inj heq
          rw [ih hmem, List.cons_append]
        · obtain ⟨rfl, rfl⟩ := Prod.mk.inj heq
          rfl
      next =>
        rw [List.mem_singleton] at h
        obtain ⟨rfl, rfl⟩ := Prod.mk.inj h
        rfl

/-- A match is of the beginning of its text. -/
theorem tries_append {m : Match} (h : m ∈ r.tries s) : s = m.text ++ m.rest := by
  induction r generalizing s m with
  | one p =>
      cases s with
      | nil => cases h
      | cons c s =>
          rw [tries_one_cons] at h
          split at h
          next =>
            rw [List.mem_singleton] at h
            rw [h]
            rfl
          next => cases h
  | many p =>
      rw [tries_many, List.mem_map] at h
      obtain ⟨⟨t, rest⟩, hmem, rfl⟩ := h
      exact splits_append hmem
  | eol =>
      rw [tries_eol] at h
      split at h
      next =>
        rw [List.mem_singleton] at h
        rw [h]
        rfl
      next => cases h
  | group r ih =>
      rw [tries_group, List.mem_map] at h
      obtain ⟨m', hmem, rfl⟩ := h
      have hm' := ih hmem
      exact hm'
  | seq r r' ih ih' =>
      rw [tries_seq, List.mem_flatMap] at h
      obtain ⟨m₁, hmem₁, h⟩ := h
      obtain ⟨m₂, hmem₂, rfl⟩ := List.mem_map.1 h
      rw [ih hmem₁, ih' hmem₂, Match.append, List.append_assoc]

/-- There is no match where a part behind others has none in any end of the text. -/
theorem tries_seq_eq_nil (h : ∀ rest, rest <:+ s → r'.tries rest = []) :
    (seq r r').tries s = [] := by
  rw [tries_seq, List.flatMap_eq_nil_iff]
  intro m hm
  rw [h m.rest ⟨m.text, (tries_append hm).symm⟩, List.map_nil]

/-- A match at the beginning is the leftmost one. -/
theorem search_of_first {c : Char} {m : Match} (h : r.first (c :: s) = some m) :
    r.search (c :: s) = some ([], m) := by
  rw [search, h]

/-- Nothing is replaced where nothing matches. -/
theorem replace_of_search_none {t : List Char} (h : r.search s = none) : r.replace t s = s := by
  rw [replace, h]

/-- The text in front of the match stays, and the text behind it. -/
theorem replace_of_search_some {t front : List Char} {m : Match}
    (h : r.search s = some (front, m)) : r.replace t s = front ++ t ++ m.rest := by
  rw [replace, h]

/-- Characters at which there is no match are passed over. -/
theorem search_append {front : List Char} (h : ∀ c ∈ front, ∀ s, r.first (c :: s) = none)
    (s : List Char) : r.search (front ++ s) = (r.search s).map fun (t, m) => (front ++ t, m) := by
  induction front with
  | nil =>
      rw [List.nil_append]
      cases r.search s <;> rfl
  | cons c front ih =>
      have htail := ih fun c' hc' => h c' (List.mem_cons_of_mem c hc')
      rw [List.cons_append, search, h c List.mem_cons_self]
      show (r.search (front ++ s)).map _ = _
      rw [htail, Option.map_map]
      rfl

end Regex
