import Mathlib.Data.List.GetD
import Mathlib.Tactic

/-!
# Bytes, words and bounded blocks of memory

A C object is a `Block`: a fixed number of bytes, read and written at an offset. An access that
leaves the object is `none`, so a function written over blocks returns a value exactly on the
inputs on which it stays inside its objects. `Block.Holds` is the assertion the proofs carry:
the block has these bytes at this offset. Words are little-endian (`leBytes`, `ofLe`).
-/

namespace Bytes

/-! ## Little-endian words -/

/-- The `w` little-endian bytes of `n`; bits above `8 * w` are dropped. -/
def leBytes : Nat → Nat → List UInt8
  | 0, _ => []
  | w + 1, n => UInt8.ofNat n :: leBytes w (n / 256)

/-- The natural number with the given little-endian bytes. -/
def ofLe : List UInt8 → Nat
  | [] => 0
  | b :: bs => b.toNat + 256 * ofLe bs

@[simp] theorem length_leBytes (w n : Nat) : (leBytes w n).length = w := by
  induction w generalizing n with
  | zero => rfl
  | succ w ih => simp [leBytes, ih]

/-- Decoding the bytes of `n` keeps its low `8 * w` bits. -/
theorem ofLe_leBytes (w n : Nat) : ofLe (leBytes w n) = n % 256 ^ w := by
  induction w generalizing n with
  | zero => simp [leBytes, ofLe, Nat.mod_one]
  | succ w ih =>
      have h : (UInt8.ofNat n).toNat = n % 256 := by simp
      rw [leBytes, ofLe, ih, h, pow_succ', Nat.mod_mul]

/-- A number that fits `w` bytes survives the trip. -/
theorem ofLe_leBytes_of_lt {w n : Nat} (h : n < 256 ^ w) : ofLe (leBytes w n) = n := by
  rw [ofLe_leBytes, Nat.mod_eq_of_lt h]

/-! ## Unsigned arithmetic -/

/-- `a - b` on unsigned `w`-byte words. -/
def wordSub (w a b : Nat) : Nat := (a + 256 ^ w - b) % 256 ^ w

/-- A difference that is not negative does not wrap. -/
theorem wordSub_eq {w a b : Nat} (h : b ≤ a) (ha : a < 256 ^ w) : wordSub w a b = a - b := by
  have hsub : a + 256 ^ w - b = a - b + 256 ^ w := by omega
  rw [wordSub, hsub, Nat.add_mod_right, Nat.mod_eq_of_lt (by omega)]

/-! ## Blocks -/

/-- An object of `size` bytes. The bytes past `size` are never read. -/
structure Block where
  size : Nat
  byte : Nat → UInt8

namespace Block

/-- A zeroed object, as `calloc` returns it. -/
def zeroed (n : Nat) : Block := ⟨n, fun _ => 0⟩

/-- The block with the bytes `bs` written at offset `a`, with no check. -/
def put (b : Block) (a : Nat) (bs : List UInt8) : Block :=
  { b with byte := fun i => if a ≤ i ∧ i < a + bs.length then bs.getD (i - a) 0 else b.byte i }

/-- Read `n` bytes at offset `a`. -/
def load (b : Block) (a n : Nat) : Option (List UInt8) :=
  if a + n ≤ b.size then some ((List.range n).map fun i => b.byte (a + i)) else none

/-- Write `bs` at offset `a`. -/
def store (b : Block) (a : Nat) (bs : List UInt8) : Option Block :=
  if a + bs.length ≤ b.size then some (b.put a bs) else none

/-- Read a `w`-byte word at offset `a`. -/
def loadWord (b : Block) (w a : Nat) : Option Nat := (b.load a w).map ofLe

/-- Write the low `8 * w` bits of `n` at offset `a`. -/
def storeWord (b : Block) (w a n : Nat) : Option Block := b.store a (leBytes w n)

@[simp] theorem size_zeroed (n : Nat) : (zeroed n).size = n := rfl
@[simp] theorem size_put (b : Block) (a : Nat) (bs : List UInt8) : (b.put a bs).size = b.size :=
  rfl

/-- A store inside the block succeeds. -/
theorem store_eq {b : Block} {a : Nat} {bs : List UInt8} (h : a + bs.length ≤ b.size) :
    b.store a bs = some (b.put a bs) := by
  rw [store, if_pos h]

/-- A store that succeeds is inside the block. -/
theorem store_eq_some_iff {b b' : Block} {a : Nat} {bs : List UInt8} :
    b.store a bs = some b' ↔ a + bs.length ≤ b.size ∧ b.put a bs = b' := by
  rw [store]
  split
  next h => simp [h]
  next h => simp [h]

/-- A word store inside the block succeeds. -/
theorem storeWord_eq {b : Block} {w a n : Nat} (h : a + w ≤ b.size) :
    b.storeWord w a n = some (b.put a (leBytes w n)) := by
  rw [storeWord, store_eq (by simpa using h)]

/-- Writing an appended list is writing its two parts one after the other. -/
theorem put_append (b : Block) (a : Nat) (xs ys : List UInt8) :
    b.put a (xs ++ ys) = (b.put a xs).put (a + xs.length) ys := by
  simp only [put, Block.mk.injEq, true_and]
  funext i
  rcases Nat.lt_or_ge i (a + xs.length) with hlt | hge
  · have hn : ¬(a + xs.length ≤ i ∧ i < a + xs.length + ys.length) := by omega
    rw [if_neg hn, List.length_append]
    by_cases hi : a ≤ i
    · rw [if_pos ⟨hi, by omega⟩, if_pos ⟨hi, hlt⟩, List.getD_append _ _ _ _ (by omega)]
    · rw [if_neg (fun h => hi h.1), if_neg (fun h => hi h.1)]
  · rw [if_neg (c := a ≤ i ∧ i < a + xs.length) (by omega), List.length_append]
    by_cases hi : i < a + xs.length + ys.length
    · rw [if_pos ⟨by omega, by omega⟩, if_pos ⟨hge, hi⟩,
        List.getD_append_right _ _ _ _ (by omega)]
      congr 1
      omega
    · rw [if_neg (by omega), if_neg (fun h => hi h.2)]

/-- Two writes that do not overlap commute. -/
theorem put_comm {b : Block} {a c : Nat} {xs ys : List UInt8}
    (hd : a + xs.length ≤ c ∨ c + ys.length ≤ a) :
    (b.put a xs).put c ys = (b.put c ys).put a xs := by
  simp only [put, Block.mk.injEq, true_and]
  funext i
  by_cases hx : a ≤ i ∧ i < a + xs.length
  · rw [if_pos hx, if_neg (by omega), if_pos hx]
  · rw [if_neg hx, if_neg hx]

/-- A word of a zeroed block is 0. -/
theorem loadWord_zeroed {n w a : Nat} (h : a + w ≤ n) : (zeroed n).loadWord w a = some 0 := by
  have hzero : ∀ k, ofLe (List.replicate k 0) = 0 := by
    intro k
    induction k with
    | zero => rfl
    | succ k ih => simp [List.replicate_succ, ofLe, ih]
  have hload : (zeroed n).load a w = some (List.replicate w 0) := by
    rw [load, if_pos (by simpa using h)]
    simp [zeroed]
  rw [loadWord, hload, Option.map_some, hzero]

/-! ## What a block holds -/

/-- The block has the bytes `bs` at offset `a`, inside its bounds. -/
def Holds (b : Block) (a : Nat) (bs : List UInt8) : Prop :=
  a + bs.length ≤ b.size ∧ ∀ i, (h : i < bs.length) → b.byte (a + i) = bs[i]

/-- The block holds an appended list exactly when it holds the two parts one after the other. -/
theorem holds_append {b : Block} {a : Nat} {xs ys : List UInt8} :
    b.Holds a (xs ++ ys) ↔ b.Holds a xs ∧ b.Holds (a + xs.length) ys := by
  constructor
  · rintro ⟨hb, h⟩
    rw [List.length_append] at hb
    refine ⟨⟨by omega, fun i hi => ?_⟩, ⟨by omega, fun i hi => ?_⟩⟩
    · rw [h i (by simp; omega), List.getElem_append_left hi]
    · have := h (xs.length + i) (by simp; omega)
      rw [List.getElem_append_right (by omega)] at this
      simpa [Nat.add_assoc] using this
  · rintro ⟨⟨hx, h⟩, ⟨hy, h'⟩⟩
    refine ⟨by simp; omega, fun i hi => ?_⟩
    rw [List.length_append] at hi
    rcases Nat.lt_or_ge i xs.length with hlt | hge
    · rw [List.getElem_append_left hlt, h i hlt]
    · rw [List.getElem_append_right hge, ← h' (i - xs.length) (by omega)]
      congr 1
      omega

/-- What a block holds can be loaded. -/
theorem Holds.load {b : Block} {a : Nat} {bs : List UInt8} (h : b.Holds a bs) :
    b.load a bs.length = some bs := by
  rw [Block.load, if_pos h.1]
  congr 1
  refine List.ext_getElem (by simp) fun i hi hi' => ?_
  simpa using h.2 i hi'

/-- A held word reads back as the number it stores. -/
theorem Holds.loadWord {b : Block} {w a n : Nat} (h : b.Holds a (leBytes w n)) :
    b.loadWord w a = some (n % 256 ^ w) := by
  have hl := h.load
  rw [length_leBytes] at hl
  rw [Block.loadWord, hl, Option.map_some, ofLe_leBytes]

/-- A held word that fits its width reads back exactly. -/
theorem Holds.loadWord_of_lt {b : Block} {w a n : Nat} (h : b.Holds a (leBytes w n))
    (hn : n < 256 ^ w) : b.loadWord w a = some n := by
  rw [h.loadWord, Nat.mod_eq_of_lt hn]

/-- The bytes just written are held. -/
theorem holds_put_self {b : Block} {a : Nat} {bs : List UInt8} (h : a + bs.length ≤ b.size) :
    (b.put a bs).Holds a bs := by
  refine ⟨h, fun i hi => ?_⟩
  simp [put, hi]

/-- A write leaves what is held outside of it. -/
theorem Holds.put {b : Block} {a c : Nat} {bs cs : List UInt8} (h : b.Holds c cs)
    (hd : c + cs.length ≤ a ∨ a + bs.length ≤ c) : (b.put a bs).Holds c cs := by
  refine ⟨h.1, fun i hi => ?_⟩
  rw [Block.put]
  simp only
  rw [if_neg (by omega), h.2 i hi]

/-- A byte outside a write is unchanged by it. -/
theorem byte_put {b : Block} {a i : Nat} {bs : List UInt8} (h : i < a ∨ a + bs.length ≤ i) :
    (b.put a bs).byte i = b.byte i := by
  rw [put]
  simp only
  rw [if_neg (by omega)]

/-- Bytes read outside a write are unchanged by it. -/
theorem load_put {b : Block} {a n c : Nat} {bs : List UInt8}
    (hd : c + n ≤ a ∨ a + bs.length ≤ c) : (b.put a bs).load c n = b.load c n := by
  have hb : ∀ i ∈ List.range n, (b.put a bs).byte (c + i) = b.byte (c + i) := by
    intro i hi
    rw [List.mem_range] at hi
    rw [put]
    simp only
    rw [if_neg (by omega)]
  rw [load, load, size_put, List.map_congr_left hb]

/-- What is read depends on the bytes that are read. -/
theorem loadWord_congr {b b' : Block} {w a : Nat} (hsize : b'.size = b.size)
    (h : ∀ i, a ≤ i → i < a + w → b'.byte i = b.byte i) : b'.loadWord w a = b.loadWord w a := by
  have hb : ∀ i ∈ List.range w, b'.byte (a + i) = b.byte (a + i) := by
    intro i hi
    rw [List.mem_range] at hi
    exact h _ (by omega) (by omega)
  rw [loadWord, loadWord, load, load, hsize, List.map_congr_left hb]

/-- A word read outside a write is unchanged by it. -/
theorem loadWord_put {b : Block} {a w c : Nat} {bs : List UInt8}
    (hd : c + w ≤ a ∨ a + bs.length ≤ c) : (b.put a bs).loadWord w c = b.loadWord w c := by
  rw [loadWord, loadWord, load_put hd]

/-- The word just written reads back. -/
theorem loadWord_put_self {b : Block} {w a n : Nat} (h : a + w ≤ b.size) (hn : n < 256 ^ w) :
    (b.put a (leBytes w n)).loadWord w a = some n :=
  (holds_put_self (by simpa using h)).loadWord_of_lt hn

end Block

end Bytes
