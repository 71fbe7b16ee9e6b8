import Mathlib.Data.List.Basic
import Mathlib.Data.List.TakeWhile
import Mathlib.Tactic

/-!
# Text in buffers

Functions of the C library on texts of characters: those that fill a buffer of fixed size give
`none` where they would write outside of it.
-/

namespace CText

/-- `sprintf` or `strcpy` of a text to a buffer of `size` bytes. -/
def sprintf (size : Nat) (s : List Char) : Option (List Char) :=
  if s.length < size then some s else none

/-- `strcat` of `t` to the text `s` in a buffer of `size` bytes. -/
def strcat (size : Nat) (s t : List Char) : Option (List Char) := sprintf size (s ++ t)

/-- A text that fits, with its zero byte, is printed. -/
theorem sprintf_of_lt {size : Nat} {s : List Char} (h : s.length < size) :
    sprintf size s = some s := if_pos h

/-- A text that fits behind another is appended. -/
theorem strcat_of_lt {size : Nat} {s t : List Char} (h : s.length + t.length < size) :
    strcat size s t = some (s ++ t) := by
  rw [strcat, sprintf_of_lt (by rwa [List.length_append])]

/-- The tokens that `strtok` finds one after the other. -/
def strtok (delimiters s : List Char) : List (List Char) :=
  (s.splitOnP fun c => c ∈ delimiters).filter fun token => token ≠ []

/-- The tokens on the two sides of a delimiter. -/
theorem strtok_append_cons {delimiters : List Char} {c : Char} (h : c ∈ delimiters)
    (s t : List Char) :
    strtok delimiters (s ++ c :: t) = strtok delimiters s ++ strtok delimiters t := by
  rw [strtok, List.splitOnP_append_cons s t (decide_eq_true h), List.filter_append]
  rfl

/-- Lines behind each other are the tokens at their ends. -/
theorem strtok_lines {lines : List (List Char)} (hne : ∀ l ∈ lines, l ≠ [])
    (hnewline : ∀ l ∈ lines, '\n' ∉ l) :
    strtok ['\n'] (lines.flatMap fun l => l ++ ['\n']) = lines := by
  induction lines with
  | nil => simp [strtok]
  | cons l ls ih =>
      have htail := ih (fun l' hl' => hne l' (List.mem_cons_of_mem _ hl'))
        fun l' hl' => hnewline l' (List.mem_cons_of_mem _ hl')
      have hl : ∀ c ∈ l, decide (c ∈ ['\n']) = false := by
        intro c hc
        have hc' : c ≠ '\n' := fun heq => hnewline l List.mem_cons_self (heq ▸ hc)
        simpa using hc'
      unfold strtok at htail ⊢
      rw [List.flatMap_cons, List.append_assoc, List.singleton_append,
        List.splitOnP_append_cons_of_forall_mem hl '\n' (by decide),
        List.filter_cons_of_pos (by simpa using hne l List.mem_cons_self), htail]

/-- `strrchr`: the index of the last `c`. -/
def strrchr (c : Char) : List Char → Option Nat
  | [] => none
  | d :: cs =>
    match strrchr c cs with
    | some i => some (i + 1)
    | none => if d = c then some 0 else none

/-- A character that is not there is not found. -/
theorem strrchr_of_notMem {c : Char} {cs : List Char} (h : c ∉ cs) : strrchr c cs = none := by
  induction cs with
  | nil => rfl
  | cons d cs ih =>
      have hd : d ≠ c := fun heq => h (heq ▸ List.mem_cons_self)
      rw [strrchr, ih fun hcs => h (List.mem_cons_of_mem _ hcs)]
      exact if_neg hd

/-- The last occurrence is found. -/
theorem strrchr_append {c : Char} (front : List Char) {cs : List Char} (h : c ∉ cs) :
    strrchr c (front ++ c :: cs) = some front.length := by
  induction front with
  | nil =>
      rw [List.nil_append, strrchr, strrchr_of_notMem h]
      exact if_pos rfl
  | cons d front ih => rw [List.cons_append, strrchr, ih, List.length_cons]

/-- White space of `isspace`. -/
def isspace (c : Char) : Bool := c ∈ [' ', '\t', '\n', '\x0b', '\x0c', '\r']

/-- Decimal digits. -/
def Digits (s : List Char) : Prop := ∀ c ∈ s, c.isDigit = true

instance (s : List Char) : Decidable (Digits s) := List.decidableBAll _ _

/-- The value of the digits that a text begins with. -/
def digits (s : List Char) : Nat :=
  (s.takeWhile Char.isDigit).foldl (fun n d => 10 * n + (d.toNat - '0'.toNat)) 0

/-- `strtol` to base 10, with a `long` of 64 bits. -/
def strtol (s : List Char) : Int :=
  match s.dropWhile isspace with
  | '-' :: s => max (-2 ^ 63) (-digits s)
  | '+' :: s => min (2 ^ 63 - 1) (digits s)
  | s => min (2 ^ 63 - 1) (digits s)

/-- `atoi`: the `long` cut to an `int` of 32 bits. -/
def atoi (s : List Char) : Int := (strtol s).bmod (2 ^ 32)

example : atoi " -17x".toList = -17 := by decide

example : atoi "4294967297".toList = 1 := by decide

/-- `%d`. -/
def d (n : Int) : List Char :=
  if n < 0 then '-' :: Nat.toDigits 10 n.natAbs else Nat.toDigits 10 n.natAbs

/-- `%03d`: the sign counts for the width. -/
def d03 (n : Int) : List Char :=
  if n < 0 then '-' :: (Nat.toDigits 10 n.natAbs).leftpad 2 '0'
  else (Nat.toDigits 10 n.natAbs).leftpad 3 '0'

example : d03 (-1) = "-01".toList := by decide

/-! ## Reading numbers back -/

/-- Digits are read to their end. -/
theorem digits_of_digits {s : List Char} (h : Digits s) : digits s = Nat.ofDigitChars 10 s 0 := by
  rw [digits, List.takeWhile_eq_self_iff.2 h]
  rfl

/-- A digit is no blank and no sign. -/
theorem isDigit_plain {c : Char} (h : c.isDigit = true) :
    isspace c = false ∧ c ≠ '-' ∧ c ≠ '+' := by
  have hother : ∀ d ∈ [' ', '\t', '\n', '\x0b', '\x0c', '\r', '-', '+'], c ≠ d := by
    intro d hd heq
    have hnot : ∀ d ∈ [' ', '\t', '\n', '\x0b', '\x0c', '\r', '-', '+'], d.isDigit = false := by
      simp
    rw [heq, hnot d hd] at h
    cases h
  refine ⟨decide_eq_false fun hspace => ?_, hother _ (by simp), hother _ (by simp)⟩
  exact hother c (List.mem_append_left ['-', '+'] hspace) rfl

/-- Digits have neither white space nor a sign in front of them. -/
theorem strtol_of_digits {s : List Char} (h : Digits s) :
    strtol s = min (2 ^ 63 - 1) (digits s : Int) := by
  cases s with
  | nil => rfl
  | cons c cs =>
      obtain ⟨hspace, hminus, hplus⟩ := isDigit_plain (h c List.mem_cons_self)
      have hdrop : (c :: cs).dropWhile isspace = c :: cs :=
        List.dropWhile_cons_of_neg (by rw [hspace]; exact Bool.false_ne_true)
      unfold strtol
      rw [hdrop]
      split
      next heq => exact absurd (List.cons.inj heq).1 hminus
      next heq => exact absurd (List.cons.inj heq).1 hplus
      next => rfl

/-- A number is padded to three digits. -/
theorem d03_natCast (n : Nat) : d03 n = (Nat.toDigits 10 n).leftpad 3 '0' := by
  rw [d03, if_neg (by omega), Int.natAbs_natCast]

/-- The text of a number is not empty. -/
theorem d03_ne_nil (n : Nat) : d03 n ≠ [] := by
  rw [d03_natCast, List.leftpad]
  exact List.append_ne_nil_of_right_ne_nil _ Nat.toDigits_ne_nil

/-- What is printed are digits. -/
theorem digits_d03 (n : Nat) : Digits (d03 n) := by
  intro c hc
  rw [d03_natCast, List.leftpad, List.mem_append] at hc
  rcases hc with hzero | hdigit
  · rw [(List.mem_replicate.1 hzero).2]
    rfl
  · exact Nat.isDigit_of_mem_toDigits (by decide) (by decide) hdigit

/-- The zeros in front do not count. -/
theorem digits_d03_eq (n : Nat) : digits (d03 n) = n := by
  rw [digits_of_digits (digits_d03 n), d03_natCast, List.leftpad, Nat.ofDigitChars_append,
    Nat.ofDigitChars_replicate_zero, Nat.mul_zero, Nat.ofDigitChars_ten_toDigits]

/-- Digits of a number below 2 ^ 31 are read as the number. -/
theorem atoi_of_digits {s : List Char} (h : Digits s) (hlt : digits s < 2 ^ 31) :
    atoi s = digits s := by
  have hmin : min (2 ^ 63 - 1) (digits s : Int) = digits s := by omega
  rw [atoi, strtol_of_digits h, hmin]
  exact Int.bmod_eq_of_le (by omega) (by omega)

/-- No number from 2 ^ 31 on is read. -/
theorem atoi_lt (s : List Char) : atoi s < 2 ^ 31 :=
  Int.bmod_lt (m := 2 ^ 32) (by decide)

/-- A number that is printed with three digits is read back. -/
theorem atoi_d03 {n : Nat} (h : n < 2 ^ 31) : atoi (d03 n) = n := by
  rw [atoi_of_digits (digits_d03 n) (by rwa [digits_d03_eq]), digits_d03_eq]

/-- A number is printed in decimal digits. -/
theorem d_natCast (n : Nat) : d n = Nat.toDigits 10 n := by
  rw [d, if_neg (by omega), Int.natAbs_natCast]

/-- What is printed are digits. -/
theorem digits_d (n : Nat) : Digits (d n) := by
  intro c hc
  rw [d_natCast] at hc
  exact Nat.isDigit_of_mem_toDigits (by decide) (by decide) hc

/-- A number that is printed is read back. -/
theorem atoi_d {n : Nat} (h : n < 2 ^ 31) : atoi (d n) = n := by
  have hvalue : digits (d n) = n := by
    rw [digits_of_digits (digits_d n), d_natCast, Nat.ofDigitChars_ten_toDigits]
  rw [atoi_of_digits (digits_d n) (by rwa [hvalue]), hvalue]

/-- A number that is printed like a number without a sign is that number. -/
theorem d03_inj_natCast {i : Int} {n : Nat} (h : d03 i = d03 n) : i = n := by
  rcases Int.lt_or_le i 0 with hneg | hpos
  · have hminus : '-' ∈ d03 n := by
      rw [← h, d03, if_pos hneg]
      exact List.mem_cons_self
    have hdigit := digits_d03 n '-' hminus
    cases hdigit
  · obtain ⟨k, rfl⟩ := Int.eq_ofNat_of_zero_le hpos
    have hvalue := digits_d03_eq k
    rw [h, digits_d03_eq] at hvalue
    rw [hvalue]

/-- A 32-bit number has ten digits at most. -/
theorem length_d_le {n : Nat} (h : n < 2 ^ 31) : (d n).length ≤ 10 := by
  rw [d_natCast, Nat.length_toDigits_le_iff (by decide) (by decide)]
  omega

/-- A 32-bit number padded to three digits has ten characters at most. -/
theorem length_d03_le {n : Nat} (h : n < 2 ^ 31) : (d03 n).length ≤ 10 := by
  have hlength := length_d_le h
  rw [d_natCast] at hlength
  rw [d03_natCast, List.length_leftpad]
  omega

end CText
