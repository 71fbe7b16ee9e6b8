import Mathlib.Data.List.Basic
import Mathlib.Tactic

/-!
# A bounded byte queue between two threads

One thread writes and one reads, both all or nothing. A write may be built up in parts in a
transaction, which sees the space that was free when it began and becomes visible to the reader
when it is committed.
-/

/-- A queue of at most `capacity` bytes. -/
structure ByteRing where
  capacity : Nat
  bytes : List UInt8
  deriving DecidableEq, Repr

namespace ByteRing

/-- A write that is not yet visible: the bytes it may still take, and those given so far. -/
structure Transaction where
  free : Nat
  bytes : List UInt8
  deriving DecidableEq, Repr

/-- The bytes that can be read. -/
def readSpace (r : ByteRing) : Nat := r.bytes.length

/-- Read `n` bytes, if there are so many. -/
def read (r : ByteRing) (n : Nat) : Option (List UInt8 × ByteRing) :=
  if n ≤ r.bytes.length then some (r.bytes.take n, { r with bytes := r.bytes.drop n }) else none

/-- Begin a transaction. -/
def beginWrite (r : ByteRing) : Transaction := ⟨r.capacity - r.bytes.length, []⟩

/-- Add bytes to a transaction, if there is room for all of them. -/
def Transaction.amendWrite (tx : Transaction) (bs : List UInt8) : Option Transaction :=
  if bs.length ≤ tx.free then some ⟨tx.free - bs.length, tx.bytes ++ bs⟩ else none

/-- Make a transaction visible. -/
def commitWrite (r : ByteRing) (tx : Transaction) : ByteRing :=
  { r with bytes := r.bytes ++ tx.bytes }

/-- Reading what is in front of the queue. -/
theorem read_append {r : ByteRing} {bs rest : List UInt8} (h : r.bytes = bs ++ rest) :
    r.read bs.length = some (bs, { r with bytes := rest }) := by
  rw [read, h, if_pos (by simp)]
  simp

/-- Amending in two parts is amending with both at once. -/
theorem Transaction.amendWrite_append (tx : Transaction) (xs ys : List UInt8) :
    (tx.amendWrite xs).bind (fun tx => tx.amendWrite ys) = tx.amendWrite (xs ++ ys) := by
  simp only [amendWrite, List.length_append]
  by_cases hx : xs.length ≤ tx.free
  · rw [if_pos hx, Option.bind_some]
    by_cases hy : ys.length ≤ tx.free - xs.length
    · rw [if_pos hy, if_pos (by omega), List.append_assoc, Nat.sub_sub]
    · rw [if_neg hy, if_neg (by omega)]
  · rw [if_neg hx, if_neg (by omega), Option.bind_none]

end ByteRing
