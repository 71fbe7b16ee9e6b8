import Soundcan.Lib.CText

/-!
# sscanf

`sscanf` for formats of literal characters, white space, `%u`, `%f` and sets with a width. A
conversion takes the longest text that is the beginning of one it could convert, and fails where
that is none; for `%f` the texts are those of `strtof`, which `FloatState` reads from left to right.
A float stands for itself, as its text.
-/

namespace Scanf

open CText

/-- The characters that are white space. -/
theorem isspace_cases {c : Char} (h : isspace c = true) :
    c = ' ' ∨ c = '\t' ∨ c = '\n' ∨ c = '\x0b' ∨ c = '\x0c' ∨ c = '\r' := by
  simpa [isspace] using h

/-! ## Floats -/

/-- How far a float has been read. -/
inductive FloatState where
  | start
  | sign
  /-- A leading zero. -/
  | zero
  | int
  /-- A point without a digit in front of it. -/
  | point
  | frac
  | exp
  | expSign
  | expDigits
  /-- Behind `0x`. -/
  | hexX
  | hexInt
  | hexPoint
  | hexFrac
  /-- So many letters of `infinity`. -/
  | inf (n : Nat)
  /-- So many letters of `nan`. -/
  | nan (n : Nat)
  | nanOpen
  | nanClose
  deriving DecidableEq

/-- Hexadecimal digits. -/
def isHexDigit (c : Char) : Bool := c.isDigit ∨ c.toLower ∈ ['a', 'b', 'c', 'd', 'e', 'f']

/-- The letters of `infinity` and `nan`. -/
def infinity : List Char := ['i', 'n', 'f', 'i', 'n', 'i', 't', 'y']
def notANumber : List Char := ['n', 'a', 'n']

namespace FloatState

/-- The first character behind the sign. -/
def unsigned (c : Char) : Option FloatState :=
  if c = '0' then some .zero
  else if c.isDigit then some .int
  else if c = '.' then some .point
  else if c.toLower = 'i' then some (.inf 1)
  else if c.toLower = 'n' then some (.nan 1)
  else none

/-- A character behind the first digit. -/
def digits (c : Char) : Option FloatState :=
  if c.isDigit then some .int
  else if c = '.' then some .frac
  else if c.toLower = 'e' then some .exp
  else none

/-- The next character, unless no float goes on with it. -/
def next : FloatState → Char → Option FloatState
  | .start, c => if c = '+' ∨ c = '-' then some .sign else unsigned c
  | .sign, c => unsigned c
  | .zero, c => if c.toLower = 'x' then some .hexX else digits c
  | .int, c => digits c
  | .point, c => if c.isDigit then some .frac else none
  | .frac, c =>
    if c.isDigit then some .frac else if c.toLower = 'e' then some .exp else none
  | .exp, c =>
    if c = '+' ∨ c = '-' then some .expSign else if c.isDigit then some .expDigits else none
  | .expSign, c => if c.isDigit then some .expDigits else none
  | .expDigits, c => if c.isDigit then some .expDigits else none
  | .hexX, c =>
    if isHexDigit c then some .hexInt else if c = '.' then some .hexPoint else none
  | .hexInt, c =>
    if isHexDigit c then some .hexInt
    else if c = '.' then some .hexFrac
    else if c.toLower = 'p' then some .exp
    else none
  | .hexPoint, c => if isHexDigit c then some .hexFrac else none
  | .hexFrac, c =>
    if isHexDigit c then some .hexFrac else if c.toLower = 'p' then some .exp else none
  | .inf n, c => if infinity[n]? = some c.toLower then some (.inf (n + 1)) else none
  | .nan n, c =>
    if notANumber[n]? = some c.toLower then some (.nan (n + 1))
    else if n = 3 ∧ c = '(' then some .nanOpen
    else none
  | .nanOpen, c =>
    if c.isAlphanum ∨ c = '_' then some .nanOpen else if c = ')' then some .nanClose else none
  | .nanClose, _ => none

/-- What has been read is a float. -/
def accepting : FloatState → Bool
  | .zero | .int | .frac | .expDigits | .hexInt | .hexFrac | .nanClose => true
  | .inf n => n = 3 ∨ n = 8
  | .nan n => n = 3
  | _ => false

/-- No float goes on with white space. -/
theorem next_of_isspace {c : Char} (h : isspace c = true) (q : FloatState) : q.next c = none := by
  have hclass : c.isDigit = false ∧ c.isAlphanum = false ∧ c.toLower = c ∧
      c ∉ ['+', '-', '0', '.', 'i', 'n', 'e', 'x', 'p', '(', '_', ')', 'a', 'b', 'c', 'd', 'f'] ∧
      c ∉ infinity ∧ c ∉ notANumber := by
    rcases isspace_cases h with rfl | rfl | rfl | rfl | rfl | rfl <;> decide
  obtain ⟨hdigit, halnum, hlower, hmem, hinfinity, hnan⟩ := hclass
  simp only [List.mem_cons, List.not_mem_nil, or_false, not_or] at hmem
  have hinf : ∀ n, infinity[n]? ≠ some c := fun n heq => hinfinity (List.mem_of_getElem? heq)
  have hnan' : ∀ n, notANumber[n]? ≠ some c := fun n heq => hnan (List.mem_of_getElem? heq)
  cases q <;> simp [next, unsigned, digits, isHexDigit, hdigit, halnum, hlower, hmem, hinf, hnan']

end FloatState

/-- The longest beginning of a text that a float can begin with, how far the float has been read
with it, and the text behind it. -/
def floatItem : FloatState → List Char → List Char × FloatState × List Char
  | q, [] => ([], q, [])
  | q, c :: s =>
    match q.next c with
    | some q' => (c :: (floatItem q' s).1, (floatItem q' s).2)
    | none => ([], q, c :: s)

/-- `%f`: the text of the float and what is behind it. -/
def scanF (s : List Char) : Option (List Char × List Char) :=
  let item := floatItem .start (s.dropWhile isspace)
  if item.2.1.accepting then some (item.1, item.2.2) else none

/-- A number is read where its longest prefix is one. -/
theorem scanF_eq_some {s t rest : List Char} : scanF s = some (t, rest) ↔
    ∃ q, floatItem .start (s.dropWhile isspace) = (t, q, rest) ∧ q.accepting = true := by
  rw [scanF]
  constructor
  · intro h
    split at h
    next hq =>
      obtain ⟨ht, hrest⟩ := Prod.mk.inj (Option.some.inj h)
      exact ⟨_, Prod.ext ht (Prod.ext rfl hrest), hq⟩
    next => cases h
  · rintro ⟨q, hitem, hq⟩
    rw [hitem]
    exact if_pos hq

/-- A text that is a float. -/
def FloatText (t : List Char) : Prop := scanF t = some (t, [])

instance (t : List Char) : Decidable (FloatText t) := inferInstanceAs (Decidable (_ = _))

/-- What is taken for a number is a prefix of the text. -/
theorem floatItem_append {q : FloatState} {s t rest : List Char} {q' : FloatState}
    (h : floatItem q s = (t, q', rest)) : s = t ++ rest := by
  induction s generalizing q t with
  | nil =>
      obtain ⟨rfl, -, rfl⟩ : [] = t ∧ q = q' ∧ [] = rest := by simpa [floatItem] using h
      rfl
  | cons c s ih =>
      rw [floatItem] at h
      split at h
      next q₁ _ =>
        obtain ⟨rfl, hrest⟩ := Prod.mk.inj h
        rw [List.cons_append, ← ih (Prod.ext rfl hrest)]
      next =>
        obtain ⟨rfl, hrest⟩ := Prod.mk.inj h
        exact congrArg Prod.snd hrest

/-- An item has no white space. -/
theorem notMem_floatItem {q q' : FloatState} {s t rest : List Char}
    (h : floatItem q s = (t, q', rest)) : ∀ c ∈ t, ¬isspace c = true := by
  induction s generalizing q t with
  | nil =>
      obtain ⟨rfl, -, -⟩ : [] = t ∧ q = q' ∧ [] = rest := by simpa [floatItem] using h
      exact nofun
  | cons c s ih =>
      rw [floatItem] at h
      split at h
      next q₁ hnext =>
        obtain ⟨rfl, hrest⟩ := Prod.mk.inj h
        refine List.forall_mem_cons.2 ⟨fun hc => ?_, ih (Prod.ext rfl hrest)⟩
        rw [FloatState.next_of_isspace hc] at hnext
        cases hnext
      next =>
        obtain ⟨rfl, -⟩ := Prod.mk.inj h
        exact nofun

/-- No item goes beyond white space. -/
theorem floatItem_append_space {q q' : FloatState} {t item rest s : List Char}
    (h : floatItem q t = (item, q', rest)) (hs : ∀ c ∈ s.head?, isspace c = true) :
    floatItem q (t ++ s) = (item, q', rest ++ s) := by
  induction t generalizing q item with
  | nil =>
      obtain ⟨rfl, rfl, rfl⟩ : [] = item ∧ q = q' ∧ [] = rest := by simpa [floatItem] using h
      cases s with
      | nil => rfl
      | cons c s =>
          rw [List.nil_append, floatItem, FloatState.next_of_isspace (hs c rfl)]
  | cons c t ih =>
      rw [floatItem] at h
      rw [List.cons_append, floatItem]
      split at h
      next q₁ hnext =>
        obtain ⟨rfl, hrest⟩ := Prod.mk.inj h
        have hitem := ih (Prod.ext rfl hrest)
        simp only [hitem]
      next hnext =>
        obtain ⟨rfl, hrest⟩ := Prod.mk.inj h
        obtain ⟨rfl, rfl⟩ := Prod.mk.inj hrest
        rw [List.cons_append]

/-- So `%f` converts the same in front of it. -/
theorem scanF_append_space {c : Char} {t s : List Char} (hc : ¬isspace c = true)
    (hs : ∀ c ∈ s.head?, isspace c = true) :
    scanF (c :: t ++ s) = (scanF (c :: t)).map fun (item, rest) => (item, rest ++ s) := by
  rw [scanF, scanF, List.dropWhile_cons_of_neg hc, List.cons_append, List.dropWhile_cons_of_neg hc,
    ← List.cons_append]
  obtain ⟨item, q, rest, hitem⟩ : ∃ item q rest, floatItem .start (c :: t) = (item, q, rest) :=
    ⟨_, _, _, rfl⟩
  rw [floatItem_append_space hitem hs, hitem]
  cases q.accepting <;> rfl

/-- A text that begins with none of the characters of a float. -/
theorem scanF_eq_none {s : List Char}
    (h : ∀ c ∈ (s.dropWhile isspace).head?, FloatState.next .start c = none) : scanF s = none := by
  rw [scanF]
  cases hs : s.dropWhile isspace with
  | nil => rfl
  | cons c s' =>
      have hnext := h c (by rw [hs]; rfl)
      simp only [floatItem, hnext]
      rfl

/-- A float does not begin with white space. -/
theorem FloatText.dropWhile {t : List Char} (h : FloatText t) (s : List Char) :
    (t ++ s).dropWhile isspace = t ++ s := by
  obtain ⟨q, hitem, hq⟩ := scanF_eq_some.1 h
  have htext := floatItem_append hitem
  rw [List.append_nil] at htext
  cases t with
  | nil =>
      obtain rfl : FloatState.start = q := (Prod.mk.inj (Prod.mk.inj hitem).2).1
      cases hq
  | cons c t =>
      have hc : ¬isspace c = true := by
        intro hc
        rw [List.dropWhile_cons_of_pos hc] at htext
        have hlength := (List.dropWhile_sublist (l := t) isspace).length_le
        rw [htext, List.length_cons] at hlength
        omega
      rw [List.cons_append, List.dropWhile_cons_of_neg hc]

/-- The text of a number has no blank. -/
theorem FloatText.not_isspace {t : List Char} (h : FloatText t) : ∀ c ∈ t, ¬isspace c = true := by
  obtain ⟨q, hitem, -⟩ := scanF_eq_some.1 h
  exact notMem_floatItem hitem

/-- A float in front of white space is read to its end. -/
theorem FloatText.scanF_append {t s : List Char} (h : FloatText t)
    (hs : ∀ c ∈ s.head?, isspace c = true) : scanF (t ++ s) = some (t, s) := by
  obtain ⟨q, hitem, hq⟩ := scanF_eq_some.1 h
  have hdrop := h.dropWhile []
  rw [List.append_nil] at hdrop
  rw [hdrop] at hitem
  rw [scanF_eq_some, h.dropWhile]
  exact ⟨q, floatItem_append_space hitem hs, hq⟩

example : FloatText "-1.5e+3".toList := by decide

example : scanF "0x1p-2 1e".toList = some ("0x1p-2".toList, " 1e".toList) := by decide

example : scanF "1e".toList = none := by decide

/-! ## Numbers -/

/-- What `strtoul` makes of the digits behind a sign, cut to 32 bits. -/
def scanDigits (negative : Bool) (s : List Char) : Option (Nat × List Char) :=
  if s.takeWhile Char.isDigit = [] then none
  else
    let n := digits s
    let long := if 2 ^ 64 ≤ n then 2 ^ 64 - 1 else if negative then 2 ^ 64 - n else n
    some (long % 2 ^ 32, s.dropWhile Char.isDigit)

/-- `%u` into a `uint32_t`. -/
def scanU (s : List Char) : Option (Nat × List Char) :=
  match s.dropWhile isspace with
  | [] => none
  | c :: s =>
    if c = '-' then scanDigits true s
    else if c = '+' then scanDigits false s
    else scanDigits false (c :: s)

/-- A number begins with a sign or a digit. -/
theorem scanU_eq_none {s : List Char}
    (h : ∀ c ∈ (s.dropWhile isspace).head?, c ≠ '-' ∧ c ≠ '+' ∧ ¬c.isDigit = true) :
    scanU s = none := by
  rw [scanU]
  cases hs : s.dropWhile isspace with
  | nil => rfl
  | cons c s' =>
      obtain ⟨hminus, hplus, hdigit⟩ := h c (by rw [hs]; rfl)
      simp only [if_neg hminus, if_neg hplus, scanDigits, List.takeWhile_cons_of_neg hdigit,
        if_true]

/-- What is behind a number is the end of the text. -/
theorem scanU_suffix {s rest : List Char} {n : Nat} (h : scanU s = some (n, rest)) :
    rest <:+ s := by
  have hdigits : ∀ {negative s}, scanDigits negative s = some (n, rest) → rest <:+ s := by
    intro negative s h
    rw [scanDigits] at h
    split at h
    next => cases h
    next =>
      obtain ⟨-, rfl⟩ := Prod.mk.inj (Option.some.inj h)
      exact List.dropWhile_suffix _
  rw [scanU] at h
  split at h
  next => cases h
  next c s' hs =>
    have hsuffix : s' <:+ s :=
      ((List.suffix_cons c s').trans (hs ▸ List.suffix_refl _)).trans
        (List.dropWhile_suffix isspace)
    split at h
    next => exact (hdigits h).trans hsuffix
    next =>
      split at h
      next => exact (hdigits h).trans hsuffix
      next => exact (hdigits h).trans (hs ▸ List.dropWhile_suffix isspace)

/-- A blank is no digit. -/
theorem isDigit_of_isspace {c : Char} (h : isspace c = true) : ¬c.isDigit = true := by
  rcases isspace_cases h with rfl | rfl | rfl | rfl | rfl | rfl <;> decide

/-- No digits go beyond white space. -/
theorem takeWhile_isDigit_append {s : List Char} (hs : ∀ c ∈ s.head?, isspace c = true)
    (u : List Char) : (u ++ s).takeWhile Char.isDigit = u.takeWhile Char.isDigit ∧
      (u ++ s).dropWhile Char.isDigit = u.dropWhile Char.isDigit ++ s := by
  induction u with
  | nil =>
      cases s with
      | nil => exact ⟨rfl, rfl⟩
      | cons d s =>
          have hd := isDigit_of_isspace (hs d rfl)
          exact ⟨List.takeWhile_cons_of_neg hd, List.dropWhile_cons_of_neg hd⟩
  | cons d u ih =>
      by_cases hd : d.isDigit = true
      · rw [List.cons_append, List.takeWhile_cons_of_pos hd, List.takeWhile_cons_of_pos hd,
          List.dropWhile_cons_of_pos hd, List.dropWhile_cons_of_pos hd, ih.1]
        exact ⟨rfl, ih.2⟩
      · rw [List.cons_append, List.takeWhile_cons_of_neg hd, List.takeWhile_cons_of_neg hd,
          List.dropWhile_cons_of_neg hd, List.dropWhile_cons_of_neg hd]
        exact ⟨rfl, rfl⟩

/-- Digits end in front of a blank. -/
theorem scanDigits_append_space {s : List Char} (hs : ∀ c ∈ s.head?, isspace c = true)
    (negative : Bool) (u : List Char) : scanDigits negative (u ++ s) =
      (scanDigits negative u).map fun (n, rest) => (n, rest ++ s) := by
  obtain ⟨htake, hdrop⟩ := takeWhile_isDigit_append hs u
  simp only [scanDigits, digits, htake, hdrop]
  split <;> rfl

/-- So `%u` converts the same in front of it. -/
theorem scanU_append_space {c : Char} {t s : List Char} (hc : ¬isspace c = true)
    (hs : ∀ c ∈ s.head?, isspace c = true) :
    scanU (c :: t ++ s) = (scanU (c :: t)).map fun (n, rest) => (n, rest ++ s) := by
  rw [scanU, scanU, List.cons_append, List.dropWhile_cons_of_neg hc, List.dropWhile_cons_of_neg hc]
  simp only [scanDigits_append_space hs, ← List.cons_append]
  split
  next => rfl
  next =>
    split <;> rfl

/-! ## Formats -/

/-- A directive of a format. -/
inductive Directive where
  | space
  | lit (c : Char)
  /-- `%` with a width and a set. -/
  | set (width : Nat) (p : Char → Bool)
  | u
  | f

/-- What a conversion stores. -/
inductive Value where
  | text (s : List Char)
  | number (n : Nat)
  /-- A float, by its text. -/
  | float (s : List Char)
  deriving DecidableEq

/-- The values that `sscanf` stores; it returns their number, or -1 where the input ends before the
first of them. -/
def sscanf : List Directive → List Char → List Value
  | [], _ => []
  | .space :: ds, s => sscanf ds (s.dropWhile isspace)
  | .lit _ :: _, [] => []
  | .lit c :: ds, d :: s => if d = c then sscanf ds s else []
  | .set width p :: ds, s =>
    let t := (s.take width).takeWhile p
    if t = [] then [] else .text t :: sscanf ds (s.drop t.length)
  | .u :: ds, s =>
    match scanU s with
    | some (n, s) => .number n :: sscanf ds s
    | none => []
  | .f :: ds, s =>
    match scanF s with
    | some (t, s) => .float t :: sscanf ds s
    | none => []

/-- The directives of a word. -/
def lits (word : List Char) : List Directive := word.map .lit

variable {ds : List Directive}

/-- A word must stand there. -/
theorem sscanf_lits (word s : List Char) :
    sscanf (lits word ++ ds) s =
      if word.isPrefixOf s then sscanf ds (s.drop word.length) else [] := by
  induction word generalizing s with
  | nil => rfl
  | cons c word ih =>
      cases s with
      | nil => rfl
      | cons d s =>
          show (if d = c then sscanf (lits word ++ ds) s else []) = _
          rw [ih, List.isPrefixOf_cons_cons]
          by_cases hd : d = c
          · subst hd
            simp
          · have hne : (c == d) = false := beq_eq_false_iff_ne.2 (Ne.symm hd)
            simp [hd, hne]

/-- Nothing is taken where the first character is none of the class. -/
theorem takeWhile_take_eq_nil {p : Char → Bool} {s : List Char}
    (hs : ∀ c ∈ s.head?, ¬p c = true) (width : Nat) : (s.take width).takeWhile p = [] := by
  cases s with
  | nil => simp
  | cons c s =>
      cases width with
      | zero => rfl
      | succ width => rw [List.take_succ_cons, List.takeWhile_cons_of_neg (hs c rfl)]

/-- A set takes a word of it in front of another character. -/
theorem sscanf_set {width : Nat} {p : Char → Bool} {t s : List Char} (hne : t ≠ [])
    (ht : ∀ c ∈ t, p c = true) (hwidth : t.length ≤ width) (hs : ∀ c ∈ s.head?, ¬p c = true) :
    sscanf (.set width p :: ds) (t ++ s) = .text t :: sscanf ds s := by
  have htake : ((t ++ s).take width).takeWhile p = t := by
    rw [List.take_append, List.take_of_length_le hwidth, List.takeWhile_append_of_pos ht,
      takeWhile_take_eq_nil hs, List.append_nil]
  rw [sscanf, htake]
  simp only [if_neg hne, List.drop_left]

/-- Where it can take nothing, the conversion fails. -/
theorem sscanf_set_eq_nil {width : Nat} {p : Char → Bool} {s : List Char}
    (hs : ∀ c ∈ s.head?, ¬p c = true) : sscanf (.set width p :: ds) s = [] := by
  rw [sscanf, takeWhile_take_eq_nil hs]
  exact if_pos rfl

end Scanf
