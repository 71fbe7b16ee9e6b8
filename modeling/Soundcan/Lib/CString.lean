import Mathlib.Data.List.Basic
import Mathlib.Data.List.Lex
import Mathlib.Tactic

/-!
# C strings

A string is its bytes in front of the terminating zero. `strcmp` compares the bytes as unsigned
numbers; it decides a linear order.
-/

/-- A C string, without its terminating zero. -/
structure CString where
  bytes : List UInt8
  nul_notMem : 0 ∉ bytes
  deriving DecidableEq

namespace CString

/-- Strings with the same bytes are the same. -/
theorem ext_bytes {s t : CString} (h : s.bytes = t.bytes) : s = t := by
  cases s
  cases t
  obtain rfl : _ = _ := h
  rfl

/-- The bytes as numbers. -/
def codes (s : CString) : List Nat := s.bytes.map UInt8.toNat

/-- Strings with the same codes are the same. -/
theorem codes_injective : Function.Injective codes := by
  intro s t h
  exact ext_bytes (List.map_injective_iff.2 (fun _ _ => UInt8.toNat_inj.1) h)

instance : LinearOrder CString := .lift' codes codes_injective

/-- `strcmp`, up to the sign of its result. -/
def strcmp (s t : CString) : Ordering := go s.bytes t.bytes
where
  go : List UInt8 → List UInt8 → Ordering
    | [], [] => .eq
    | [], _ :: _ => .lt
    | _ :: _, [] => .gt
    | a :: as, b :: bs => if a < b then .lt else if b < a then .gt else go as bs

/-- What the result of the comparison says. -/
theorem strcmp_go (as bs : List UInt8) :
    match strcmp.go as bs with
    | .lt => as.map UInt8.toNat < bs.map UInt8.toNat
    | .eq => as = bs
    | .gt => bs.map UInt8.toNat < as.map UInt8.toNat := by
  induction as generalizing bs with
  | nil =>
      cases bs with
      | nil => exact rfl
      | cons b bs => exact List.nil_lt_cons _ _
  | cons a as ih =>
      cases bs with
      | nil => exact List.nil_lt_cons _ _
      | cons b bs =>
          rw [strcmp.go]
          by_cases hlt : a < b
          · rw [if_pos hlt]
            exact List.cons_lt_cons_iff.2 (.inl (UInt8.lt_iff_toNat_lt.1 hlt))
          · rw [if_neg hlt]
            by_cases hgt : b < a
            · rw [if_pos hgt]
              exact List.cons_lt_cons_iff.2 (.inl (UInt8.lt_iff_toNat_lt.1 hgt))
            · rw [if_neg hgt]
              obtain rfl : a = b := by
                rw [UInt8.lt_iff_toNat_lt] at hlt hgt
                exact UInt8.toNat_inj.1 (by omega)
              have htail := ih bs
              cases hgo : strcmp.go as bs with
              | lt | gt =>
                  rw [hgo] at htail
                  exact List.cons_lt_cons_iff.2 (.inr ⟨rfl, htail⟩)
              | eq =>
                  rw [hgo] at htail
                  exact congrArg (a :: ·) htail

variable {s t : CString}

/-- What compares as smaller is smaller. -/
theorem lt_of_strcmp (h : strcmp s t = .lt) : s < t := by
  have hgo := strcmp_go s.bytes t.bytes
  rw [show strcmp.go s.bytes t.bytes = .lt from h] at hgo
  exact hgo

/-- What compares as greater is greater. -/
theorem gt_of_strcmp (h : strcmp s t = .gt) : t < s := by
  have hgo := strcmp_go s.bytes t.bytes
  rw [show strcmp.go s.bytes t.bytes = .gt from h] at hgo
  exact hgo

/-- `strcmp` tells whether two strings are equal. -/
theorem strcmp_eq_iff : strcmp s t = .eq ↔ s = t := by
  constructor
  · intro h
    have hgo := strcmp_go s.bytes t.bytes
    rw [show strcmp.go s.bytes t.bytes = .eq from h] at hgo
    exact ext_bytes hgo
  · rintro rfl
    cases h : strcmp s s with
    | lt => exact absurd (lt_of_strcmp h) (lt_irrefl s)
    | eq => rfl
    | gt => exact absurd (gt_of_strcmp h) (lt_irrefl s)

/-- What is smaller compares as smaller. -/
theorem strcmp_of_lt (h : s < t) : strcmp s t = .lt := by
  cases hcmp : strcmp s t with
  | lt => rfl
  | eq => exact absurd h (strcmp_eq_iff.1 hcmp).not_lt
  | gt => exact absurd h (gt_of_strcmp hcmp).not_gt

end CString
