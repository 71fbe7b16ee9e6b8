import Mathlib.Data.List.Basic
import Mathlib.Data.List.TakeWhile
import Mathlib.Algebra.BigOperators.Group.List.Basic
import Mathlib.Algebra.Order.Group.Nat
import Mathlib.Data.Rat.Defs
import Mathlib.Algebra.Order.Field.Rat
import Mathlib.Tactic

/-!
# JSON texts

A parser of JSON texts, with strings as lists of 16-bit code units. Two families of lemmas carry the
proofs about printers: `Reads` composes texts that the parser reads back whatever follows them, and
`cost_le_weight` bounds from below the text of a value, where a quote or a backslash in a string
takes an escape. Characters that escapes need weigh `k` more than the others, so a text has to pay
for an escape with a character of its own and not with the length of something else.
-/

/-- A JSON value. The members of an object are in the order of the text. -/
inductive Json where
  | null
  | bool (b : Bool)
  | num (value : Rat)
  | str (units : List Nat)
  | arr (elements : List Json)
  | obj (members : List (List Nat × Json))

namespace Json

/-! ## Lexical parts -/

/-- White space is skipped. -/
def skipWs (s : List Char) : List Char := s.dropWhile fun c => c ∈ [' ', '\t', '\n', '\r']

/-- The code units of a character. -/
def utf16 (c : Char) : List Nat :=
  if c.toNat < 0x10000 then [c.toNat]
  else [0xd800 + (c.toNat - 0x10000) / 0x400, 0xdc00 + (c.toNat - 0x10000) % 0x400]

/-- The code units of a text. -/
def units (s : List Char) : List Nat := s.flatMap utf16

/-- The value of a hexadecimal digit. -/
def hexDigit (c : Char) : Option Nat :=
  if c.isDigit then some (c.toNat - '0'.toNat)
  else if 'a' ≤ c ∧ c ≤ 'f' then some (c.toNat - 'a'.toNat + 10)
  else if 'A' ≤ c ∧ c ≤ 'F' then some (c.toNat - 'A'.toNat + 10)
  else none

/-- The character behind a backslash, for the escapes of one character. -/
def escape (c : Char) : Option Nat :=
  match c with
  | '"' => some 0x22
  | '\\' => some 0x5c
  | '/' => some 0x2f
  | 'b' => some 0x08
  | 'f' => some 0x0c
  | 'n' => some 0x0a
  | 'r' => some 0x0d
  | 't' => some 0x09
  | _ => none

/-- A string behind its opening quote. -/
def parseString : List Char → Option (List Nat × List Char)
  | [] => none
  | '"' :: s => some ([], s)
  | '\\' :: 'u' :: a :: b :: c :: d :: s => do
    let unit := (← hexDigit a) * 0x1000 + (← hexDigit b) * 0x100 + (← hexDigit c) * 0x10 +
      (← hexDigit d)
    let (us, rest) ← parseString s
    some (unit :: us, rest)
  | '\\' :: c :: s => do
    let unit ← escape c
    let (us, rest) ← parseString s
    some (unit :: us, rest)
  | c :: s =>
    if c.toNat < 0x20 ∨ c = '\\' then none
    else do
      let (us, rest) ← parseString s
      some (utf16 c ++ us, rest)

/-- One digit or more. -/
def parseDigits (s : List Char) : Option (List Char × List Char) :=
  if s.takeWhile Char.isDigit = [] then none
  else some (s.takeWhile Char.isDigit, s.dropWhile Char.isDigit)

/-- The value of decimal digits. -/
def digitsValue (ds : List Char) : Nat := ds.foldl (fun n d => 10 * n + (d.toNat - '0'.toNat)) 0

/-- The digits behind a point, if there is one. -/
def parseFraction : List Char → Option (List Char × List Char)
  | '.' :: s => parseDigits s
  | s => some ([], s)

/-- The exponent, if there is one. -/
def parseExponent : List Char → Option (Int × List Char)
  | c :: s =>
    if c = 'e' ∨ c = 'E' then
      match s with
      | '-' :: s => (parseDigits s).map fun (ds, s) => (-(digitsValue ds : Int), s)
      | '+' :: s => (parseDigits s).map fun (ds, s) => ((digitsValue ds : Int), s)
      | s => (parseDigits s).map fun (ds, s) => ((digitsValue ds : Int), s)
    else some (0, c :: s)
  | [] => some (0, [])

/-- A number without its sign. -/
def parseUnsigned (s : List Char) : Option (Rat × List Char) := do
  let (int, s) ← parseDigits s
  if int.length > 1 ∧ int.head? = some '0' then none
  else
    let (fraction, s) ← parseFraction s
    let (exponent, s) ← parseExponent s
    some (digitsValue (int ++ fraction) * 10 ^ (exponent - fraction.length), s)

/-- A number. -/
def parseNumber : List Char → Option (Json × List Char)
  | '-' :: s => (parseUnsigned s).map fun (q, s) => (.num (-q), s)
  | s => (parseUnsigned s).map fun (q, s) => (.num q, s)

/-! ## Values -/

mutual

/-- A value, within a bound on the depth of the recursion. -/
def parseValue : Nat → List Char → Option (Json × List Char)
  | 0, _ => none
  | fuel + 1, s =>
    match skipWs s with
    | '{' :: s =>
      match skipWs s with
      | '}' :: s => some (.obj [], s)
      | _ => (parseMembers fuel s).map fun (members, s) => (.obj members, s)
    | '[' :: s =>
      match skipWs s with
      | ']' :: s => some (.arr [], s)
      | _ => (parseElements fuel s).map fun (elements, s) => (.arr elements, s)
    | '"' :: s => (parseString s).map fun (us, s) => (.str us, s)
    | 't' :: 'r' :: 'u' :: 'e' :: s => some (.bool true, s)
    | 'f' :: 'a' :: 'l' :: 's' :: 'e' :: s => some (.bool false, s)
    | 'n' :: 'u' :: 'l' :: 'l' :: s => some (.null, s)
    | s => parseNumber s

/-- The elements of an array and its closing bracket. -/
def parseElements : Nat → List Char → Option (List Json × List Char)
  | 0, _ => none
  | fuel + 1, s => do
    let (v, s) ← parseValue fuel s
    match skipWs s with
    | ',' :: s => (parseElements fuel s).map fun (vs, s) => (v :: vs, s)
    | ']' :: s => some ([v], s)
    | _ => none

/-- The members of an object and its closing brace. -/
def parseMembers : Nat → List Char → Option (List (List Nat × Json) × List Char)
  | 0, _ => none
  | fuel + 1, s =>
    match skipWs s with
    | '"' :: s => do
      let (key, s) ← parseString s
      match skipWs s with
      | ':' :: s => do
        let (v, s) ← parseValue fuel s
        match skipWs s with
        | ',' :: s => (parseMembers fuel s).map fun (members, s) => ((key, v) :: members, s)
        | '}' :: s => some ([(key, v)], s)
        | _ => none
      | _ => none
    | _ => none

end

/-- The value of a text. -/
def parse (s : List Char) : Option Json := do
  let (v, rest) ← parseValue (s.length + 1) s
  if skipWs rest = [] then some v else none

/-- The value of a key: of members with equal keys the last one counts. -/
def lookup (members : List (List Nat × Json)) (key : List Nat) : Option Json :=
  (members.reverse.find? fun m => m.1 = key).map Prod.snd

/-! ## A lower bound of the text -/

section Cost

variable (k : Nat)

/-- The weight of a character: `k` more for what begins an escape and for the `u` of the long
one. -/
def charWeight (c : Char) : Nat := if c = '\\' ∨ c = 'u' then k + 1 else 1

/-- The weight of a text. -/
def weight (s : List Char) : Nat := (s.map (charWeight k)).sum

/-- The weight of the characters that a code unit takes at least. -/
def unitCost (u : Nat) : Nat :=
  if u = 0x22 then k + 2
  else if u = 0x5c then 2 * k + 2
  else if u = 0x75 then k + 1
  else if u < 0x80 then 1
  else 0

/-- The weight of the characters that a string takes at least between its quotes. -/
def unitsCost (us : List Nat) : Nat := (us.map (unitCost k)).sum

mutual

/-- The weight of the characters that a value takes at least. -/
def cost : Json → Nat
  | .null => 4
  | .bool _ => 4
  | .num q => if q.den = 1 ∧ 0 ≤ q.num ∧ q.num < 10 then 1 else 2
  | .str us => 2 + unitsCost k us
  | .arr vs => 1 + elementsCost vs
  | .obj ms => 1 + membersCost ms

/-- Each element comes with a comma or the closing bracket. -/
def elementsCost : List Json → Nat
  | [] => 0
  | v :: vs => cost v + 1 + elementsCost vs

/-- Each member comes with a colon, and a comma or the closing brace. -/
def membersCost : List (List Nat × Json) → Nat
  | [] => 0
  | (key, v) :: ms => 2 + unitsCost k key + 1 + cost v + 1 + membersCost ms

end

variable {k}

@[simp] theorem weight_nil : weight k [] = 0 := rfl

@[simp] theorem weight_cons (c : Char) (s : List Char) :
    weight k (c :: s) = charWeight k c + weight k s := List.sum_cons

@[simp] theorem weight_append (s t : List Char) :
    weight k (s ++ t) = weight k s + weight k t := by
  rw [weight, List.map_append, List.sum_append]
  rfl

/-- Every character weighs something. -/
theorem one_le_charWeight (c : Char) : 1 ≤ charWeight k c := by
  rw [charWeight]
  split <;> omega

/-- A text weighs at least its length. -/
theorem length_le_weight (s : List Char) : s.length ≤ weight k s := by
  induction s with
  | nil => rfl
  | cons c s ih =>
      have hc := one_le_charWeight (k := k) c
      rw [weight_cons, List.length_cons]
      omega

/-- Skipping blanks adds no weight. -/
theorem weight_skipWs_le (s : List Char) : weight k (skipWs s) ≤ weight k s :=
  ((List.dropWhile_sublist _).map _).sum_le_sum fun _ _ => Nat.zero_le _

@[simp] theorem unitsCost_nil : unitsCost k [] = 0 := rfl

@[simp] theorem unitsCost_cons (u : Nat) (us : List Nat) :
    unitsCost k (u :: us) = unitCost k u + unitsCost k us := List.sum_cons

@[simp] theorem unitsCost_append (us vs : List Nat) :
    unitsCost k (us ++ vs) = unitsCost k us + unitsCost k vs := by
  rw [unitsCost, List.map_append, List.sum_append]
  rfl

/-- The dearest unit is the backslash, which is escaped by itself. -/
theorem unitCost_le (u : Nat) : unitCost k u ≤ 2 * k + 2 := by
  unfold unitCost
  split
  · omega
  · split
    · omega
    · split
      · omega
      · split <;> omega

/-- A character that stands for itself costs no more than itself. -/
theorem unitsCost_utf16 {c : Char} (hquote : c ≠ '"') (hbackslash : c ≠ '\\') :
    unitsCost k (utf16 c) ≤ charWeight k c := by
  have hne : ∀ d : Char, c ≠ d → c.toNat ≠ d.toNat := fun d h heq => h (Char.toNat_inj.1 heq)
  have hquote' : c.toNat ≠ 0x22 := hne '"' hquote
  have hbackslash' : c.toNat ≠ 0x5c := hne '\\' hbackslash
  have hone := one_le_charWeight (k := k) c
  rw [utf16]
  split
  · rw [unitsCost_cons, unitsCost_nil, unitCost, if_neg hquote', if_neg hbackslash']
    split
    next hu =>
      have hu' : c = 'u' := Char.toNat_inj.1 hu
      rw [charWeight, if_pos (.inr hu')]
    next => split <;> omega
  · have hhigh : ∀ n, unitCost k (0xd800 + n) = 0 ∧ unitCost k (0xdc00 + n) = 0 := by
      intro n
      unfold unitCost
      constructor
      all_goals rw [if_neg (by omega), if_neg (by omega), if_neg (by omega), if_neg (by omega)]
    rw [unitsCost_cons, unitsCost_cons, unitsCost_nil, (hhigh _).1, (hhigh _).2]
    omega

/-- An escape of one character weighs as much as what it stands for costs. -/
theorem unitCost_escape {c : Char} {u : Nat} (h : escape c = some u) :
    unitCost k u ≤ charWeight k '\\' + charWeight k c := by
  have hbackslash : charWeight k '\\' = k + 1 := if_pos (.inl rfl)
  unfold escape at h
  split at h
  case h_2 =>
    obtain rfl := Option.some.inj h
    have hcost : unitCost k 0x5c = 2 * k + 2 := rfl
    omega
  case h_9 => cases h
  all_goals
    obtain rfl := Option.some.inj h
    rw [hbackslash]
    simp [unitCost, charWeight]

/-- A string costs no more than what it is parsed from, its closing quote included. -/
theorem unitsCost_le_weight {s rest : List Char} {us : List Nat}
    (h : parseString s = some (us, rest)) : unitsCost k us + 1 + weight k rest ≤ weight k s := by
  induction s using parseString.induct generalizing us rest with
  | case1 => simp [parseString] at h
  | case2 s =>
      simp only [parseString, Option.some.injEq, Prod.mk.injEq] at h
      obtain ⟨rfl, rfl⟩ := h
      have hone := one_le_charWeight (k := k) '"'
      rw [unitsCost_nil, weight_cons]
      omega
  | case3 a b c d s ih =>
      simp only [parseString, Option.bind_eq_bind, Option.bind_eq_some_iff, Option.some.injEq,
        Prod.mk.injEq, Prod.exists] at h
      obtain ⟨x, -, y, -, z, -, w, -, us, rest, hs, rfl, rfl⟩ := h
      have hle := ih hs
      have hunit := unitCost_le (k := k) (x * 0x1000 + y * 0x100 + z * 0x10 + w)
      have hbackslash : charWeight k '\\' = k + 1 := if_pos (.inl rfl)
      have hu : charWeight k 'u' = k + 1 := if_pos (.inr rfl)
      rw [unitsCost_cons]
      simp only [weight_cons]
      omega
  | case4 c s hnot ih =>
      rw [parseString] at h
      · simp only [Option.bind_eq_bind, Option.bind_eq_some_iff, Option.some.injEq,
          Prod.mk.injEq, Prod.exists] at h
        obtain ⟨unit, hescape, us, rest, hs, rfl, rfl⟩ := h
        have hle := ih hs
        have hunit := unitCost_escape (k := k) hescape
        rw [unitsCost_cons]
        simp only [weight_cons]
        omega
      · exact hnot
  | case5 c s hnot hnot' hnot'' hbad =>
      rw [parseString, if_pos hbad] at h
      · cases h
      · exact hnot
      · exact hnot'
      · exact hnot''
  | case6 c s hnot hnot' hnot'' hgood ih =>
      rw [parseString, if_neg hgood] at h
      · simp only [Option.bind_eq_bind, Option.bind_eq_some_iff, Option.some.injEq,
          Prod.mk.injEq, Prod.exists] at h
        obtain ⟨us, rest, hs, rfl, rfl⟩ := h
        have hle := ih hs
        have hunits := unitsCost_utf16 (k := k) hnot fun heq => hgood (.inr heq)
        rw [unitsCost_append]
        simp only [weight_cons]
        omega
      · exact hnot
      · exact hnot'
      · exact hnot''

/-- Digits weigh what is cut off for them, and there is at least one. -/
theorem weight_parseDigits {s ds rest : List Char} (h : parseDigits s = some (ds, rest)) :
    weight k ds + weight k rest = weight k s ∧ 0 < ds.length ∧ ∀ d ∈ ds, d.isDigit = true := by
  rw [parseDigits] at h
  split at h
  · cases h
  next hne =>
    obtain ⟨rfl, rfl⟩ := Prod.mk.inj (Option.some.inj h)
    refine ⟨?_, List.length_pos_of_ne_nil hne, fun d hd => List.mem_takeWhile_imp hd⟩
    rw [← weight_append, List.takeWhile_append_dropWhile]

/-- Digits weigh at least one. -/
theorem weight_parseDigits_lt {s ds rest : List Char} (h : parseDigits s = some (ds, rest)) :
    1 + weight k rest ≤ weight k s := by
  obtain ⟨hweight, hpos, -⟩ := weight_parseDigits (k := k) h
  have hle := length_le_weight (k := k) ds
  omega

/-- A fraction is empty, or weighs its point and a digit. -/
theorem weight_parseFraction {s ds rest : List Char} (h : parseFraction s = some (ds, rest)) :
    (ds = [] ∧ rest = s) ∨ 2 + weight k rest ≤ weight k s := by
  unfold parseFraction at h
  split at h
  next s =>
    have hweight := weight_parseDigits_lt (k := k) h
    have hone := one_le_charWeight (k := k) '.'
    rw [weight_cons]
    omega
  next =>
    obtain ⟨rfl, rfl⟩ := Prod.mk.inj (Option.some.inj h)
    exact .inl ⟨rfl, rfl⟩

/-- An exponent is empty, or weighs its letter and a digit. -/
theorem weight_parseExponent {s rest : List Char} {e : Int}
    (h : parseExponent s = some (e, rest)) :
    (e = 0 ∧ rest = s) ∨ 2 + weight k rest ≤ weight k s := by
  unfold parseExponent at h
  split at h
  next c s =>
    have hone := one_le_charWeight (k := k) c
    split at h
    next =>
      right
      split at h
      all_goals
        obtain ⟨⟨ds, rest'⟩, hdigits, heq⟩ := Option.map_eq_some_iff.1 h
        obtain ⟨-, rfl⟩ := Prod.mk.inj heq
        have hweight := weight_parseDigits_lt (k := k) hdigits
        simp only [weight_cons]
        omega
    next =>
      obtain ⟨rfl, rfl⟩ := Prod.mk.inj (Option.some.inj h)
      exact .inl ⟨rfl, rfl⟩
  next =>
    obtain ⟨rfl, rfl⟩ := Prod.mk.inj (Option.some.inj h)
    exact .inl ⟨rfl, rfl⟩

/-- One digit is below ten. -/
theorem digitsValue_singleton {d : Char} (h : d.isDigit = true) : digitsValue [d] < 10 := by
  have hle : d.toNat ≤ '9'.toNat := by
    simp only [Char.isDigit, Bool.and_eq_true, decide_eq_true_eq] at h
    exact h.2
  show 10 * 0 + (d.toNat - '0'.toNat) < 10
  have h9 : '9'.toNat = 57 := rfl
  have h0 : '0'.toNat = 48 := rfl
  omega

/-- A number of one character is a digit. -/
theorem weight_parseUnsigned {s rest : List Char} {q : Rat}
    (h : parseUnsigned s = some (q, rest)) :
    1 + weight k rest ≤ weight k s ∧
      (2 + weight k rest ≤ weight k s ∨ ∃ n < 10, q = (n : Nat)) := by
  simp only [parseUnsigned, Option.bind_eq_bind, Option.bind_eq_some_iff, Prod.exists] at h
  obtain ⟨int, s₁, hint, h⟩ := h
  split at h
  · cases h
  · simp only [Option.bind_eq_some_iff, Prod.exists, Option.some.injEq, Prod.mk.injEq] at h
    obtain ⟨fraction, s₂, hfraction, exponent, s₃, hexponent, rfl, rfl⟩ := h
    obtain ⟨hweight, hpos, hdigit⟩ := weight_parseDigits (k := k) hint
    have hlt := weight_parseDigits_lt (k := k) hint
    rcases weight_parseFraction (k := k) hfraction with ⟨rfl, rfl⟩ | hfraction
    · rcases weight_parseExponent (k := k) hexponent with ⟨rfl, rfl⟩ | hexponent
      · refine ⟨hlt, ?_⟩
        cases int with
        | nil => simp at hpos
        | cons d ds =>
            cases ds with
            | nil =>
                refine .inr ⟨_, digitsValue_singleton (hdigit d List.mem_cons_self), ?_⟩
                simp
            | cons d' ds =>
                have hd := one_le_charWeight (k := k) d
                have hd' := one_le_charWeight (k := k) d'
                simp only [weight_cons] at hweight
                exact .inl (by omega)
      · exact ⟨by omega, .inl (by omega)⟩
    · have hle : weight k s₃ ≤ weight k s₂ := by
        rcases weight_parseExponent (k := k) hexponent with ⟨-, rfl⟩ | hexponent
        · exact le_rfl
        · omega
      exact ⟨by omega, .inl (by omega)⟩

/-- A number costs no more than what it is parsed from. -/
theorem cost_parseNumber {s rest : List Char} {v : Json} (h : parseNumber s = some (v, rest)) :
    cost k v + weight k rest ≤ weight k s := by
  unfold parseNumber at h
  split at h
  all_goals
    obtain ⟨⟨q, rest'⟩, hunsigned, heq⟩ := Option.map_eq_some_iff.1 h
    obtain ⟨rfl, rfl⟩ := Prod.mk.inj heq
    obtain ⟨hone, htwo⟩ := weight_parseUnsigned (k := k) hunsigned
  · have hsign := one_le_charWeight (k := k) '-'
    rw [cost, weight_cons]
    split <;> omega
  · rw [cost]
    split
    · omega
    next hnot =>
      rcases htwo with htwo | hn
      · exact htwo
      · obtain ⟨n, hlt, rfl⟩ := hn
        refine absurd ⟨Rat.den_natCast n, ?_, ?_⟩ hnot
        · rw [Rat.num_natCast]
          omega
        · rw [Rat.num_natCast]
          omega

/-- What the recursive calls on a value, on elements and on members leave of a text. -/
structure CostBound (k fuel : Nat) : Prop where
  value : ∀ s v rest, parseValue fuel s = some (v, rest) → cost k v + weight k rest ≤ weight k s
  elements : ∀ s vs rest, parseElements fuel s = some (vs, rest) →
    elementsCost k vs + weight k rest ≤ weight k s
  members : ∀ s ms rest, parseMembers fuel s = some (ms, rest) →
    membersCost k ms + weight k rest ≤ weight k s

variable {fuel : Nat}

/-- White space and a character behind it weigh at least one. -/
theorem weight_of_skipWs {c : Char} {s s' : List Char} (h : skipWs s = c :: s') :
    1 + weight k s' ≤ weight k s := by
  have hws := weight_skipWs_le (k := k) s
  have hone := one_le_charWeight (k := k) c
  rw [h, weight_cons] at hws
  omega

/-- A value, where the bound holds of what is in it. -/
theorem CostBound.parseValue (h : CostBound k fuel) {s rest : List Char} {v : Json}
    (hparse : parseValue (fuel + 1) s = some (v, rest)) :
    cost k v + weight k rest ≤ weight k s := by
  have hword : ∀ {w s' : List Char}, skipWs s = w ++ s' →
      w.length + weight k s' ≤ weight k s := by
    intro w s' heq
    have hws := weight_skipWs_le (k := k) s
    have hlength := length_le_weight (k := k) w
    rw [heq, weight_append] at hws
    omega
  unfold Json.parseValue at hparse
  split at hparse
  next s' heq =>
    have hws := weight_of_skipWs (k := k) heq
    split at hparse
    next s'' heq' =>
      have hws' := weight_of_skipWs (k := k) heq'
      obtain ⟨rfl, rfl⟩ := Prod.mk.inj (Option.some.inj hparse)
      rw [cost, membersCost]
      omega
    next =>
      obtain ⟨⟨ms, rest'⟩, hmembers, heq'⟩ := Option.map_eq_some_iff.1 hparse
      obtain ⟨rfl, rfl⟩ := Prod.mk.inj heq'
      have hle := h.members _ _ _ hmembers
      rw [cost]
      omega
  next s' heq =>
    have hws := weight_of_skipWs (k := k) heq
    split at hparse
    next s'' heq' =>
      have hws' := weight_of_skipWs (k := k) heq'
      obtain ⟨rfl, rfl⟩ := Prod.mk.inj (Option.some.inj hparse)
      rw [cost, elementsCost]
      omega
    next =>
      obtain ⟨⟨vs, rest'⟩, helements, heq'⟩ := Option.map_eq_some_iff.1 hparse
      obtain ⟨rfl, rfl⟩ := Prod.mk.inj heq'
      have hle := h.elements _ _ _ helements
      rw [cost]
      omega
  next s' heq =>
    have hws := weight_of_skipWs (k := k) heq
    obtain ⟨⟨us, rest'⟩, hstring, heq'⟩ := Option.map_eq_some_iff.1 hparse
    obtain ⟨rfl, rfl⟩ := Prod.mk.inj heq'
    have hle := unitsCost_le_weight (k := k) hstring
    rw [cost]
    omega
  next s' heq =>
    obtain ⟨rfl, rfl⟩ := Prod.mk.inj (Option.some.inj hparse)
    exact hword (w := ['t', 'r', 'u', 'e']) heq
  next s' heq =>
    obtain ⟨rfl, rfl⟩ := Prod.mk.inj (Option.some.inj hparse)
    have hle := hword (w := ['f', 'a', 'l', 's', 'e']) heq
    simp only [List.length_cons, List.length_nil] at hle
    rw [cost]
    omega
  next s' heq =>
    obtain ⟨rfl, rfl⟩ := Prod.mk.inj (Option.some.inj hparse)
    exact hword (w := ['n', 'u', 'l', 'l']) heq
  next => exact (cost_parseNumber hparse).trans (weight_skipWs_le s)

/-- The elements of an array, one by one. -/
theorem CostBound.parseElements (h : CostBound k fuel) {s rest : List Char} {vs : List Json}
    (hparse : parseElements (fuel + 1) s = some (vs, rest)) :
    elementsCost k vs + weight k rest ≤ weight k s := by
  simp only [Json.parseElements, Option.bind_eq_bind, Option.bind_eq_some_iff,
    Prod.exists] at hparse
  obtain ⟨v, s₁, hvalue, hparse⟩ := hparse
  have hle := h.value _ _ _ hvalue
  split at hparse
  next s₂ heq =>
    have hws := weight_of_skipWs (k := k) heq
    obtain ⟨⟨vs', rest'⟩, helements, heq'⟩ := Option.map_eq_some_iff.1 hparse
    obtain ⟨rfl, rfl⟩ : v :: vs' = vs ∧ rest' = rest := Prod.mk.inj heq'
    have hle' := h.elements _ _ _ helements
    rw [elementsCost]
    omega
  next s₂ heq =>
    have hws := weight_of_skipWs (k := k) heq
    obtain ⟨rfl, rfl⟩ := Prod.mk.inj (Option.some.inj hparse)
    rw [elementsCost, elementsCost]
    omega
  next => cases hparse

/-- The members of an object, one by one. -/
theorem CostBound.parseMembers (h : CostBound k fuel) {s rest : List Char}
    {ms : List (List Nat × Json)} (hparse : parseMembers (fuel + 1) s = some (ms, rest)) :
    membersCost k ms + weight k rest ≤ weight k s := by
  rw [Json.parseMembers] at hparse
  split at hparse
  next s₁ heq =>
    have hws := weight_of_skipWs (k := k) heq
    simp only [Option.bind_eq_bind, Option.bind_eq_some_iff, Prod.exists] at hparse
    obtain ⟨key, s₂, hkey, hparse⟩ := hparse
    have hle := unitsCost_le_weight (k := k) hkey
    split at hparse
    next s₃ heq₃ =>
      have hws₃ := weight_of_skipWs (k := k) heq₃
      simp only [Option.bind_eq_some_iff, Prod.exists] at hparse
      obtain ⟨v, s₄, hvalue, hparse⟩ := hparse
      have hle₄ := h.value _ _ _ hvalue
      split at hparse
      next s₅ heq₅ =>
        have hws₅ := weight_of_skipWs (k := k) heq₅
        obtain ⟨⟨ms', rest'⟩, hmembers, heq'⟩ := Option.map_eq_some_iff.1 hparse
        obtain ⟨rfl, rfl⟩ : (key, v) :: ms' = ms ∧ rest' = rest := Prod.mk.inj heq'
        have hle₅ := h.members _ _ _ hmembers
        rw [membersCost]
        omega
      next s₅ heq₅ =>
        have hws₅ := weight_of_skipWs (k := k) heq₅
        obtain ⟨rfl, rfl⟩ := Prod.mk.inj (Option.some.inj hparse)
        rw [membersCost, membersCost]
        omega
      next => cases hparse
    next => cases hparse
  next => cases hparse

/-- The bound holds at every depth, by induction on the fuel. -/
theorem costBound (k fuel : Nat) : CostBound k fuel := by
  induction fuel with
  | zero => exact ⟨nofun, nofun, nofun⟩
  | succ fuel ih =>
      exact ⟨fun _ _ _ h => ih.parseValue h, fun _ _ _ h => ih.parseElements h,
        fun _ _ _ h => ih.parseMembers h⟩

/-- A text weighs at least as much as its value costs. -/
theorem cost_le_weight {s : List Char} {v : Json} (h : parse s = some v) :
    cost k v ≤ weight k s := by
  simp only [parse, Option.bind_eq_bind, Option.bind_eq_some_iff, Prod.exists] at h
  obtain ⟨v', rest, hvalue, h⟩ := h
  split at h
  next =>
    obtain rfl := Option.some.inj h
    have hle := (costBound k _).value _ _ _ hvalue
    omega
  next => cases h

/-- The cost of the members is the sum of theirs. -/
theorem membersCost_eq_sum (ms : List (List Nat × Json)) :
    membersCost k ms = (ms.map fun m => 2 + unitsCost k m.1 + 1 + cost k m.2 + 1).sum := by
  induction ms with
  | nil => rfl
  | cons m ms ih => rw [membersCost, ih, List.map_cons, List.sum_cons]

/-- What is looked up is a member. -/
theorem mem_of_lookup {ms : List (List Nat × Json)} {key : List Nat} {v : Json}
    (h : lookup ms key = some v) : (key, v) ∈ ms := by
  obtain ⟨m, hfind, rfl⟩ := Option.map_eq_some_iff.1 h
  have hkey : m.1 = key := by simpa using List.find?_some hfind
  rw [← hkey]
  exact List.mem_reverse.1 (List.mem_of_find?_eq_some hfind)

/-- An object costs at least as much as what is found in it under distinct keys. -/
theorem membersCost_le_of_lookup {ms found : List (List Nat × Json)}
    (hkeys : (found.map Prod.fst).Nodup) (h : ∀ m ∈ found, lookup ms m.1 = some m.2) :
    membersCost k found ≤ membersCost k ms := by
  have hsubset : found ⊆ ms := fun m hm => mem_of_lookup (h m hm)
  obtain ⟨found', hperm, hsub⟩ := List.subperm_of_subset hkeys.of_map hsubset
  rw [membersCost_eq_sum, membersCost_eq_sum, ← (hperm.map _).sum_eq]
  exact (hsub.map _).sum_le_sum fun _ _ => Nat.zero_le _

end Cost

/-! ## Texts that are read back -/

/-- What may follow a value in a text without white space. -/
def Ends (rest : List Char) : Prop := rest = [] ∨ ∃ c s, rest = c :: s ∧ c ∈ [',', ']', '}']

/-- The parser reads the value of the text and stops behind it. -/
def Reads (text : List Char) (v : Json) : Prop :=
  ∀ fuel rest, text.length < fuel → Ends rest → parseValue fuel (text ++ rest) = some (v, rest)

/-- Characters that stand for themselves in a string. -/
def Plain (s : List Char) : Prop := ∀ c ∈ s, c ≠ '"' ∧ c ≠ '\\' ∧ 0x20 ≤ c.toNat

instance (s : List Char) : Decidable (Plain s) := List.decidableBAll _ _

/-- A string without quotes or backslashes is read as it is. -/
theorem parseString_plain {s : List Char} (h : Plain s) (rest : List Char) :
    parseString (s ++ '"' :: rest) = some (units s, rest) := by
  induction s with
  | nil => rfl
  | cons c s ih =>
      obtain ⟨hquote, hbackslash, hcontrol⟩ := h c List.mem_cons_self
      have htail := ih fun d hd => h d (List.mem_cons_of_mem c hd)
      rw [List.cons_append, parseString, if_neg, htail]
      · rfl
      · rintro (hlt | heq)
        · omega
        · exact hbackslash heq
      · exact hquote
      · exact fun _ _ _ _ _ heq _ => hbackslash heq
      · exact fun _ _ heq _ => hbackslash heq

/-- White space is not skipped where there is none. -/
theorem skipWs_cons {c : Char} {s : List Char} (h : c ∉ [' ', '\t', '\n', '\r']) :
    skipWs (c :: s) = c :: s := by
  rw [skipWs, List.dropWhile_cons_of_neg (by simpa using h)]

/-- Plain text between quotes is read as a string of its units. -/
theorem reads_str {s : List Char} (h : Plain s) : Reads ('"' :: s ++ ['"']) (.str (units s)) := by
  intro fuel rest hfuel _
  obtain ⟨fuel, rfl⟩ : ∃ n, fuel = n + 1 := ⟨fuel - 1, by omega⟩
  rw [List.cons_append, List.cons_append, List.append_assoc, parseValue, skipWs_cons (by decide)]
  show (parseString (s ++ '"' :: rest)).map _ = _
  rw [parseString_plain h]
  rfl

/-- Behind a value no digits, fraction or exponent follow. -/
theorem Ends.number {rest : List Char} (h : Ends rest) :
    rest.takeWhile Char.isDigit = [] ∧ rest.dropWhile Char.isDigit = rest ∧
      parseFraction rest = some ([], rest) ∧ parseExponent rest = some (0, rest) := by
  obtain rfl | ⟨c, s, rfl, hc⟩ := h
  · exact ⟨rfl, rfl, rfl, rfl⟩
  · simp only [List.mem_cons, List.not_mem_nil, or_false] at hc
    obtain rfl | rfl | rfl := hc
    · exact ⟨rfl, rfl, rfl, rfl⟩
    · exact ⟨rfl, rfl, rfl, rfl⟩
    · exact ⟨rfl, rfl, rfl, rfl⟩

/-- A value that begins with a digit is a number. -/
theorem parseValue_digit {d : Char} (h : d.isDigit = true) (fuel : Nat) (s : List Char) :
    parseValue (fuel + 1) (d :: s) =
      (parseUnsigned (d :: s)).map fun (q, s) => (.num q, s) := by
  have hne : ∀ c : Char, c.isDigit = false → d ≠ c := by
    rintro c hc rfl
    rw [h] at hc
    cases hc
  have hws : skipWs (d :: s) = d :: s := by
    refine skipWs_cons fun hmem => ?_
    simp only [List.mem_cons, List.not_mem_nil, or_false] at hmem
    rcases hmem with heq | heq | heq | heq <;> exact hne _ rfl heq
  rw [parseValue, hws]
  split
  next heq => exact absurd (List.head_eq_of_cons_eq heq) (hne _ rfl)
  next heq => exact absurd (List.head_eq_of_cons_eq heq) (hne _ rfl)
  next heq => exact absurd (List.head_eq_of_cons_eq heq) (hne _ rfl)
  next heq => exact absurd (List.head_eq_of_cons_eq heq) (hne _ rfl)
  next heq => exact absurd (List.head_eq_of_cons_eq heq) (hne _ rfl)
  next heq => exact absurd (List.head_eq_of_cons_eq heq) (hne _ rfl)
  next => rw [parseNumber]; exact fun _ heq => hne '-' rfl (List.head_eq_of_cons_eq heq)

/-- A number without fraction and exponent. -/
theorem reads_num {ds : List Char} (hne : ds ≠ []) (hdigit : ∀ d ∈ ds, d.isDigit = true)
    (hzero : ds.length > 1 → ds.head? ≠ some '0') : Reads ds (.num (digitsValue ds)) := by
  intro fuel rest hfuel hends
  obtain ⟨fuel, rfl⟩ : ∃ n, fuel = n + 1 := ⟨fuel - 1, by omega⟩
  obtain ⟨htake, hdrop, hfraction, hexponent⟩ := hends.number
  have hdigits : parseDigits (ds ++ rest) = some (ds, rest) := by
    rw [parseDigits, List.takeWhile_append_of_pos hdigit, List.dropWhile_append_of_pos hdigit,
      htake, hdrop, List.append_nil, if_neg hne]
  have hunsigned : parseUnsigned (ds ++ rest) = some ((digitsValue ds : Rat), rest) := by
    simp only [parseUnsigned, hdigits, hfraction, hexponent, Option.bind_eq_bind,
      Option.bind_some, List.append_nil, List.length_nil]
    rw [if_neg fun h => hzero h.1 h.2]
    simp
  obtain ⟨d, ds', rfl⟩ := List.exists_cons_of_ne_nil hne
  rw [List.cons_append, parseValue_digit (hdigit d List.mem_cons_self), ← List.cons_append,
    hunsigned]
  rfl

/-- Texts with commas between them. -/
def joined : List (List Char) → List Char
  | [] => []
  | [t] => t
  | t :: u :: ts => t ++ ',' :: joined (u :: ts)

/-- A text that is read does not begin with a closing bracket. -/
theorem Reads.ne_bracket {text : List Char} {v : Json} (h : Reads text v) {rest : List Char}
    (hends : Ends rest) (s : List Char) : skipWs (text ++ rest) ≠ ']' :: s := by
  intro heq
  have hparse := h (text.length + 1) rest (Nat.lt_succ_self _) hends
  rw [parseValue, heq] at hparse
  cases hparse

/-- A list of texts starts with its first, and a text ends where a comma or a bracket follows. -/
theorem joined_cons (t : List Char) (ts : List (List Char)) (c : Char) (rest : List Char)
    (hc : c ∈ [',', ']', '}']) :
    ∃ rest', Ends rest' ∧ joined (t :: ts) ++ c :: rest = t ++ rest' := by
  cases ts with
  | nil => exact ⟨c :: rest, .inr ⟨c, rest, rfl, hc⟩, rfl⟩
  | cons u ts =>
      refine ⟨',' :: (joined (u :: ts) ++ c :: rest), .inr ⟨',', _, rfl, by simp⟩, ?_⟩
      rw [joined, List.append_assoc, List.cons_append]

/-- The elements of an array and its closing bracket. -/
theorem parseElements_joined {items : List (List Char × Json)} (hne : items ≠ [])
    (h : ∀ i ∈ items, Reads i.1 i.2) (rest : List Char) (fuel : Nat)
    (hfuel : (joined (items.map Prod.fst)).length + 1 < fuel) :
    parseElements fuel (joined (items.map Prod.fst) ++ ']' :: rest) =
      some (items.map Prod.snd, rest) := by
  induction items generalizing fuel with
  | nil => exact absurd rfl hne
  | cons item items ih =>
      obtain ⟨fuel, rfl⟩ : ∃ n, fuel = n + 1 := ⟨fuel - 1, by omega⟩
      have hitem := h item List.mem_cons_self
      cases items with
      | nil =>
          have hread := hitem fuel (']' :: rest) (by simpa [joined] using hfuel)
            (.inr ⟨_, _, rfl, by simp⟩)
          simp only [List.map_cons, List.map_nil, joined, parseElements, hread,
            Option.bind_eq_bind, Option.bind_some]
          rw [skipWs_cons (by decide)]
          rfl
      | cons item' items =>
          simp only [List.map_cons, joined, List.length_append, List.length_cons] at hfuel
          have hread := hitem fuel (',' :: (joined ((item' :: items).map Prod.fst) ++ ']' :: rest))
            (by omega) (.inr ⟨_, _, rfl, by simp⟩)
          have htail := ih (by simp) (fun i hi => h i (List.mem_cons_of_mem _ hi)) fuel
            (by simp only [List.map_cons]; omega)
          simp only [List.map_cons] at hread htail
          simp only [List.map_cons, joined, List.append_assoc, List.cons_append, parseElements,
            hread, Option.bind_eq_bind, Option.bind_some]
          rw [skipWs_cons (by decide)]
          simp only [htail]
          rfl

/-- The text of an array. -/
def arrText (ts : List (List Char)) : List Char := '[' :: joined ts ++ [']']

/-- An array of such texts. -/
theorem reads_arr {items : List (List Char × Json)} (h : ∀ i ∈ items, Reads i.1 i.2) :
    Reads (arrText (items.map Prod.fst)) (.arr (items.map Prod.snd)) := by
  intro fuel rest hfuel _
  obtain ⟨fuel, rfl⟩ : ∃ n, fuel = n + 1 := ⟨fuel - 1, by omega⟩
  rw [arrText] at hfuel ⊢
  rw [List.cons_append, List.cons_append, List.append_assoc, parseValue, skipWs_cons (by decide)]
  cases items with
  | nil => rfl
  | cons item items =>
      have helements := parseElements_joined (List.cons_ne_nil item items) h rest fuel (by
        simp only [List.length_cons, List.length_append, List.length_nil] at hfuel
        omega)
      obtain ⟨rest', hends, htext⟩ :=
        joined_cons item.1 (items.map Prod.fst) ']' rest (by simp)
      have hne := (h item List.mem_cons_self).ne_bracket hends
      show (match skipWs (joined ((item :: items).map Prod.fst) ++ ']' :: rest) with
        | ']' :: s => some (arr [], s)
        | _ => (parseElements fuel _).map fun (vs, s) => (arr vs, s)) = _
      split
      next s heq => exact absurd (htext ▸ heq) (hne s)
      next =>
        show (parseElements fuel (joined ((item :: items).map Prod.fst) ++ ']' :: rest)).map _ = _
        rw [helements]
        rfl

/-- A member of an object: its key, the text of its value and the value. -/
structure Member where
  key : List Char
  text : List Char
  value : Json

namespace Member

/-- The text of a member. -/
def whole (m : Member) : List Char := '"' :: m.key ++ '"' :: ':' :: m.text

/-- A member with a string that is printed as it is. -/
def str (key s : List Char) : Member := ⟨key, '"' :: s ++ ['"'], .str (units s)⟩

/-- A member as the parser gives it. -/
def read (m : Member) : List Nat × Json := (units m.key, m.value)

/-- The parser reads the key and the value. -/
structure Reads (m : Member) : Prop where
  key : Plain m.key
  value : Json.Reads m.text m.value

end Member

/-- The members of an object and its closing brace. -/
theorem parseMembers_joined {ms : List Member} (hne : ms ≠ []) (h : ∀ m ∈ ms, m.Reads)
    (rest : List Char) (fuel : Nat) (hfuel : (joined (ms.map Member.whole)).length + 1 < fuel) :
    parseMembers fuel (joined (ms.map Member.whole) ++ '}' :: rest) =
      some (ms.map Member.read, rest) := by
  induction ms generalizing fuel with
  | nil => exact absurd rfl hne
  | cons m ms ih =>
      obtain ⟨fuel, rfl⟩ : ∃ n, fuel = n + 1 := ⟨fuel - 1, by omega⟩
      obtain ⟨hkey, hvalue⟩ := h m List.mem_cons_self
      cases ms with
      | nil =>
          simp only [List.map_cons, List.map_nil, joined, Member.whole, List.length_append,
            List.length_cons] at hfuel
          have hread := hvalue fuel ('}' :: rest) (by omega) (.inr ⟨_, _, rfl, by simp⟩)
          simp only [List.map_cons, List.map_nil, joined, Member.whole, List.append_assoc,
            List.cons_append, parseMembers]
          rw [skipWs_cons (by decide)]
          simp only [parseString_plain hkey, Option.bind_eq_bind, Option.bind_some]
          rw [skipWs_cons (by decide)]
          simp only [hread, Option.bind_some]
          rw [skipWs_cons (by decide)]
          rfl
      | cons m' ms =>
          simp only [List.map_cons, joined, List.length_append, List.length_cons] at hfuel
          have hread := hvalue fuel (',' :: (joined ((m' :: ms).map Member.whole) ++ '}' :: rest))
            (by simp only [Member.whole, List.length_append, List.length_cons] at hfuel; omega)
            (.inr ⟨_, _, rfl, by simp⟩)
          have htail := ih (by simp) (fun i hi => h i (List.mem_cons_of_mem _ hi)) fuel
            (by simp only [List.map_cons]; omega)
          have hwhole : m.whole = '"' :: m.key ++ '"' :: ':' :: m.text := rfl
          simp only [List.map_cons] at hread htail
          simp only [List.map_cons, joined, hwhole, List.append_assoc, List.cons_append,
            parseMembers]
          rw [skipWs_cons (by decide)]
          simp only [parseString_plain hkey, Option.bind_eq_bind, Option.bind_some]
          rw [skipWs_cons (by decide)]
          simp only [hread, Option.bind_some]
          rw [skipWs_cons (by decide)]
          simp only [htail]
          rfl

/-- The text of an object. -/
def objText (ms : List Member) : List Char := '{' :: joined (ms.map Member.whole) ++ ['}']

/-- An object of such members. -/
theorem reads_obj {ms : List Member} (h : ∀ m ∈ ms, m.Reads) :
    Reads (objText ms) (.obj (ms.map Member.read)) := by
  intro fuel rest hfuel _
  obtain ⟨fuel, rfl⟩ : ∃ n, fuel = n + 1 := ⟨fuel - 1, by omega⟩
  rw [objText] at hfuel ⊢
  rw [List.cons_append, List.cons_append, List.append_assoc, parseValue, skipWs_cons (by decide)]
  cases ms with
  | nil => rfl
  | cons m ms =>
      have hmembers := parseMembers_joined (List.cons_ne_nil m ms) h rest fuel (by
        simp only [List.length_cons, List.length_append, List.length_nil] at hfuel
        omega)
      obtain ⟨rest', -, htext⟩ :=
        joined_cons m.whole (ms.map Member.whole) '}' rest (by simp)
      have hws : skipWs (joined ((m :: ms).map Member.whole) ++ '}' :: rest) =
          m.whole ++ rest' := by
        rw [List.map_cons, htext, Member.whole, List.cons_append, List.cons_append,
          skipWs_cons (by decide)]
      show (match skipWs (joined ((m :: ms).map Member.whole) ++ '}' :: rest) with
        | '}' :: s => some (obj [], s)
        | _ => (parseMembers fuel _).map fun (ms, s) => (obj ms, s)) = _
      rw [hws]
      show (parseMembers fuel (joined ((m :: ms).map Member.whole) ++ '}' :: rest)).map _ = _
      rw [hmembers]
      rfl

/-- A text that is read is parsed. -/
theorem Reads.parse {text : List Char} {v : Json} (h : Reads text v) : parse text = some v := by
  have hread := h (text.length + 1) [] (Nat.lt_succ_self _) (.inl rfl)
  rw [List.append_nil] at hread
  rw [Json.parse, hread]
  rfl

/-- A member whose value is a plain string is read back. -/
theorem Member.reads_str {key s : List Char} (hkey : Plain key) (hs : Plain s) :
    (Member.str key s).Reads := ⟨hkey, Json.reads_str hs⟩

/-- Joining puts a comma in front of each text but the first. -/
theorem joined_eq (t : List Char) (ts : List (List Char)) :
    joined (t :: ts) = t ++ ts.flatMap fun u => ',' :: u := by
  induction ts generalizing t with
  | nil => rw [List.flatMap_nil, List.append_nil, joined]
  | cons u ts ih => rw [joined, ih, List.flatMap_cons, List.cons_append]

/-! ## What such texts weigh -/

section Weight

variable {k : Nat}

/-- Characters of one code unit and one byte. -/
def Ascii (s : List Char) : Prop := ∀ c ∈ s, c.toNat < 0x80

instance (s : List Char) : Decidable (Ascii s) := List.decidableBAll _ _

/-- The characters of a string that need an escape. -/
def escapes (s : List Char) : Nat := s.countP fun c => c = '"' ∨ c = '\\'

/-- A text without quotes and backslashes has nothing to escape. -/
theorem escapes_eq_zero {s : List Char} : escapes s = 0 ↔ ∀ c ∈ s, c ≠ '"' ∧ c ≠ '\\' := by
  simp [escapes, List.countP_eq_zero]

/-- A string that is printed as it is weighs less than its value costs where it needs escapes. -/
theorem unitsCost_units {s : List Char} (h : Ascii s) :
    unitsCost k (units s) = weight k s + (k + 1) * escapes s := by
  induction s with
  | nil => rfl
  | cons c s ih =>
      have htail := ih fun d hd => h d (List.mem_cons_of_mem c hd)
      have hc := h c List.mem_cons_self
      have hutf16 : utf16 c = [c.toNat] := if_pos (by omega)
      have hunit : unitCost k c.toNat =
          charWeight k c + (k + 1) * if c = '"' ∨ c = '\\' then 1 else 0 := by
        have hcode : ∀ d : Char, c.toNat = d.toNat ↔ c = d := fun d => Char.toNat_inj
        have hquote : c.toNat = 0x22 ↔ c = '"' := hcode '"'
        have hbackslash : c.toNat = 0x5c ↔ c = '\\' := hcode '\\'
        have hu : c.toNat = 0x75 ↔ c = 'u' := hcode 'u'
        unfold unitCost charWeight
        by_cases h1 : c = '"'
        · subst h1
          simp
          omega
        · by_cases h2 : c = '\\'
          · subst h2
            simp
            omega
          · simp only [hquote, hbackslash, hu, h1, h2, if_false, false_or, mul_zero, add_zero]
            split
            · rfl
            · rfl
      rw [units, List.flatMap_cons, unitsCost_append, hutf16, unitsCost_cons, unitsCost_nil, hunit,
        weight_cons, escapes, List.countP_cons]
      rw [units, escapes] at htail
      rw [htail]
      simp only [decide_eq_true_eq]
      ring

/-- Joined texts weigh the texts and the commas between them. -/
theorem weight_joined {ts : List (List Char)} (h : ts ≠ []) :
    weight k (joined ts) + 1 = (ts.map fun t => weight k t + 1).sum := by
  obtain ⟨t, ts, rfl⟩ := List.exists_cons_of_ne_nil h
  rw [joined_eq, weight_append, List.map_cons, List.sum_cons]
  have hcomma : charWeight k ',' = 1 := rfl
  have htail : weight k (ts.flatMap fun u => ',' :: u) = (ts.map fun t => weight k t + 1).sum := by
    induction ts with
    | nil => rfl
    | cons u ts ih =>
        rw [List.flatMap_cons, weight_append, weight_cons, ih (List.cons_ne_nil t ts),
          List.map_cons, List.sum_cons]
        omega
  omega

/-- What members weigh with a comma or the closing brace behind each. -/
def membersWeight (k : Nat) (ms : List Member) : Nat := (ms.map fun m => weight k m.whole + 1).sum

@[simp] theorem membersWeight_append (ms ns : List Member) :
    membersWeight k (ms ++ ns) = membersWeight k ms + membersWeight k ns := by
  rw [membersWeight, List.map_append, List.sum_append]
  rfl

@[simp] theorem membersCost_append (ms ns : List (List Nat × Json)) :
    membersCost k (ms ++ ns) = membersCost k ms + membersCost k ns := by
  simp only [membersCost_eq_sum, List.map_append, List.sum_append]

/-- An object weighs its members and one brace more. -/
theorem weight_objText {ms : List Member} (h : ms ≠ []) :
    weight k (objText ms) = 1 + membersWeight k ms := by
  have hjoined := weight_joined (k := k) (mt List.map_eq_nil_iff.1 h : ms.map Member.whole ≠ [])
  have hopen : charWeight k '{' = 1 := rfl
  have hclose : charWeight k '}' = 1 := rfl
  have hweight : membersWeight k ms = ((ms.map Member.whole).map fun t => weight k t + 1).sum := by
    rw [List.map_map]
    rfl
  simp only [objText, List.cons_append, weight_cons, weight_append, weight_nil, hopen, hclose]
  omega

/-- The weight of a single member. -/
theorem membersWeight_singleton (key s : List Char) (v : Json) :
    membersWeight k [⟨key, s, v⟩] = weight k key + weight k s + 4 := by
  have hquote : charWeight k '"' = 1 := rfl
  have hcolon : charWeight k ':' = 1 := rfl
  have hwhole : weight k (Member.mk key s v).whole = weight k key + weight k s + 3 := by
    show weight k ('"' :: key ++ '"' :: ':' :: s) = _
    rw [List.cons_append, weight_cons, weight_append, weight_cons, weight_cons, hquote, hcolon]
    omega
  have hsum : membersWeight k [⟨key, s, v⟩] = weight k (Member.mk key s v).whole + 1 :=
    List.sum_singleton
  omega

/-- Behind a key that needs no escapes a member differs from what it costs by its value alone. -/
theorem membersCost_singleton (key s : List Char) (v : Json) (hkey : Ascii key)
    (hescapes : escapes key = 0) :
    membersCost k [Member.read ⟨key, s, v⟩] + weight k s =
      membersWeight k [⟨key, s, v⟩] + cost k v := by
  have hunits := unitsCost_units (k := k) hkey
  rw [hescapes, Nat.mul_zero, Nat.add_zero] at hunits
  have hcost : membersCost k [Member.read ⟨key, s, v⟩] =
      2 + unitsCost k (units key) + 1 + cost k v + 1 := rfl
  rw [membersWeight_singleton]
  omega

/-- A member that is printed as it is weighs less than it costs where its string needs escapes. -/
theorem membersCost_str (key : List Char) {s : List Char} (hkey : Ascii key)
    (hescapes : escapes key = 0) (hs : Ascii s) :
    membersCost k ([Member.str key s].map Member.read) =
      membersWeight k [Member.str key s] + (k + 1) * escapes s := by
  have hquote : charWeight k '"' = 1 := rfl
  have htext : weight k ('"' :: s ++ ['"']) = weight k s + 2 := by
    rw [List.cons_append, weight_cons, weight_append, weight_cons, weight_nil, hquote]
    omega
  have hcost : cost k (.str (units s)) = weight k s + (k + 1) * escapes s + 2 := by
    rw [cost, unitsCost_units hs]
    omega
  have hmember := membersCost_singleton (k := k) key ('"' :: s ++ ['"']) (.str (units s)) hkey
    hescapes
  rw [List.map_singleton, Member.str]
  omega

/-- An array weighs its brackets, its elements and the commas at most. -/
theorem weight_arrText_le (ts : List (List Char)) :
    weight k (arrText ts) ≤ 2 + (ts.map fun t => weight k t + 1).sum := by
  have hopen : charWeight k '[' = 1 := rfl
  have hclose : charWeight k ']' = 1 := rfl
  simp only [arrText, List.cons_append, weight_cons, weight_append, weight_nil, hopen, hclose]
  cases ts with
  | nil => simp [joined]
  | cons t ts =>
      have hjoined := weight_joined (k := k) (List.cons_ne_nil t ts)
      omega

end Weight

end Json
