import Soundcan.Lib.CString
import Soundcan.Lib.Interner
import Soundcan.Lib.Transition

/-!
# The symbol map

`symap.c` keeps the symbols in the order of their ids, and an index of the ids sorted by the symbols
they name, in which it finds a symbol by binary search. `Symap.Interns` relates a symbol map to
the list of symbols that it stands for; every operation keeps it, also where one of the two arrays
cannot grow, so the symbol map is an interner (`symap_interns`).
-/

namespace Soundcan.Galv

open CString

/-! ## Arrays on the heap -/

/-- An allocated array. A cell to which nothing has been written is `none`. -/
abbrev Cells (α : Type) := List (Option α)

namespace Cells

variable {α : Type}

/-- Read a cell. There is no value behind the end or in a cell that was not written to. -/
def read (cells : Cells α) (i : Nat) : Option α := cells[i]?.join

/-- Write to a cell. -/
def write (cells : Cells α) (i : Nat) (v : α) : Option (Cells α) :=
  if i < cells.length then some (cells.set i (some v)) else none

/-- `realloc` that succeeds. -/
def realloc (cells : Cells α) (n : Nat) : Cells α := (cells ++ List.replicate n none).take n

/-- `memmove` of `n` cells within the array. -/
def memmove (cells : Cells α) (dst src n : Nat) : Option (Cells α) :=
  if src + n ≤ cells.length ∧ dst + n ≤ cells.length then
    some (cells.take dst ++ (cells.drop src).take n ++ cells.drop (dst + n))
  else none

end Cells

/-! ## The operations -/

/-- `SymapImpl`. -/
structure Symap where
  symbols : Cells CString
  index : Cells Nat
  size : Nat
  deriving DecidableEq

namespace Symap

/-- `symap_new`. -/
def new : Symap := ⟨[], [], 0⟩

/-- `map->symbols[map->index[i] - 1]`. -/
def symbolAt (map : Symap) (i : Nat) : Option CString := do
  match ← map.index.read i with
  | 0 => none
  | id + 1 => map.symbols.read id

/-- The loop of `symap_search`. -/
def searchLoop (map : Symap) (sym : CString) : Nat → Nat → Nat → Nat → Option (Nat × Bool)
  | 0, _, _, _ => none
  | fuel + 1, lower, upper, i =>
    if lower ≤ upper then do
      let i := lower + (upper - lower) / 2
      match strcmp (← map.symbolAt i) sym with
      | .eq => some (i, true)
      | .gt => if i = 0 then some (i, false) else searchLoop map sym fuel lower (i - 1) i
      | .lt => searchLoop map sym fuel (i + 1) upper (i + 1)
    else some (i, false)

/-- `symap_search`: a place in the index, and whether the symbol is there. -/
def search (map : Symap) (sym : CString) : Option (Nat × Bool) :=
  if map.size = 0 then some (0, false)
  else do
    if strcmp (← map.symbolAt (map.size - 1)) sym = .lt then some (map.size, false)
    else searchLoop map sym (map.size + 1) 0 (map.size - 1) (map.size - 1)

/-- `symap_try_map`. -/
def tryMap (map : Symap) (sym : CString) : Option Nat := do
  let (index, exact) ← map.search sym
  if exact then map.index.read index else some 0

/-- The new element is inserted into the sorted index. -/
def insertId (newIndex : Cells Nat) (index id : Nat) : Option (Cells Nat) :=
  let moved :=
    if index < id - 1 then newIndex.memmove (index + 1) index (id - index - 1)
    else some newIndex
  moved.bind fun cells => cells.write index id

/-- `symap_map`, where `grown` tells whether each of the two `realloc` calls succeeds. One to no
bytes at all, where the id wraps around, has no defined result. -/
def map (map : Symap) (sym : CString) (grown : Bool × Bool) : Option (Symap × Nat) := do
  let (index, exact) ← map.search sym
  if exact then
    if strcmp (← map.symbolAt index) sym = .eq then some (map, ← map.index.read index) else none
  else
    let id := (map.size + 1) % 2 ^ 32
    if id = 0 then none
    else if ¬grown.1 then some (map, 0)
    else
      let map := { map with symbols := map.symbols.realloc id }
      if ¬grown.2 then some (map, 0)
      else
        let symbols ← map.symbols.write (id - 1) sym
        let newIndex ← insertId (map.index.realloc id) index id
        some (⟨symbols, newIndex, id⟩, id)

/-- `symap_unmap`: a symbol or `NULL`. -/
def unmap (map : Symap) (id : Nat) : Option (Option CString) :=
  if id = 0 then some none
  else if id ≤ map.size then (map.symbols.read (id - 1)).map some
  else some none

end Symap

/-- The calls, and for `symap_map` whether each of the two arrays can grow. -/
inductive SymapCall where
  | map (sym : CString) (grown : Bool × Bool)
  | tryMap (sym : CString)
  | unmap (id : Nat)

/-- One call and what it returns. -/
def Symap.step (map : Symap) : SymapCall → Option (Symap × InternerReply CString)
  | .map sym grown => (map.map sym grown).map fun (map, id) => (map, .id id)
  | .tryMap sym => (map.tryMap sym).map fun id => (map, .id id)
  | .unmap id => (map.unmap id).map fun sym => (map, .value sym)

/-- The runs of a symbol map. -/
def symaps : Lts Symap (SymapCall × InternerReply CString) := .ofStep .new Symap.step

/-- The request to an interner that a call is. -/
def SymapCall.request : SymapCall → InternerCall CString
  | .map sym grown => .map sym (grown.1 && grown.2)
  | .tryMap sym => .tryMap sym
  | .unmap id => .unmap id

/-- The interner that a symbol map is to be. -/
def symbolInterner : Lts (List CString) (SymapCall × InternerReply CString) :=
  .ofStep [] fun syms call => some (Interner.step syms call.request)

/-! ## Arrays that begin with given values -/

namespace Cells

variable {α : Type} {cells : Cells α} {vs : List α} {v : α} {i k n : Nat}

/-- Reallocating gives as many cells as are asked for. -/
theorem length_realloc : (cells.realloc n).length = n := by
  rw [realloc, List.length_take, List.length_append, List.length_replicate]
  omega

/-- What is stored at the front is read back. -/
theorem read_of_prefix (h : vs.map some <+: cells) (hi : i < vs.length) :
    cells.read i = some vs[i] := by
  obtain ⟨rest, rfl⟩ := h
  rw [read, List.getElem?_append_left (by simpa using hi), List.getElem?_map,
    List.getElem?_eq_getElem hi]
  rfl

/-- An array keeps its values when it grows. -/
theorem realloc_prefix (h : vs.map some <+: cells) (hn : vs.length ≤ n) :
    vs.map some <+: cells.realloc n := by
  obtain ⟨rest, rfl⟩ := h
  rw [realloc, List.append_assoc, List.take_append, List.take_of_length_le (by simpa using hn)]
  exact List.prefix_append _ _

/-- The cell behind the values takes one more. -/
theorem exists_write (h : vs.map some <+: cells) (hlen : vs.length < cells.length) :
    ∃ cells', cells.write vs.length v = some cells' ∧ (vs ++ [v]).map some <+: cells' := by
  refine ⟨_, if_pos hlen, ?_⟩
  obtain ⟨rest, rfl⟩ := h
  obtain ⟨cell, rest, rfl⟩ : ∃ cell rest', rest = cell :: rest' := by
    refine List.exists_cons_of_ne_nil ?_
    rintro rfl
    simp at hlen
  rw [List.set_append_right _ _ (by simp)]
  refine ⟨rest, ?_⟩
  simp

/-- The values from a place on are moved by one cell, and one more is put there. -/
theorem exists_insert (h : vs.map some <+: cells) (hlen : cells.length = vs.length + 1)
    (hk : k ≤ vs.length) :
    ∃ cells', ((if k < vs.length then cells.memmove (k + 1) k (vs.length - k)
        else some cells).bind fun moved => moved.write k v) = some cells' ∧
      (vs.take k ++ v :: vs.drop k).map some <+: cells' := by
  obtain ⟨rest, rfl⟩ := h
  obtain ⟨cell, rfl⟩ : ∃ cell, rest = [cell] := List.length_eq_one_iff.1 (by simpa using hlen)
  obtain ⟨before, behind, rfl, rfl⟩ : ∃ before behind, vs = before ++ behind ∧
      k = before.length :=
    ⟨vs.take k, vs.drop k, (List.take_append_drop k vs).symm, by simp [hk]⟩
  rw [List.take_left, List.drop_left]
  cases behind with
  | nil =>
      rw [if_neg (by simp), Option.bind_some]
      refine ⟨_, if_pos (by simp), [], ?_⟩
      simp
  | cons w behind =>
      have hmove : Cells.memmove ((before ++ w :: behind).map some ++ [cell]) (before.length + 1)
          before.length (behind.length + 1) =
          some (before.map some ++ some w :: (w :: behind).map some) := by
        rw [memmove, if_pos (by simp; omega)]
        simp [List.take_append, List.drop_append, List.take_of_length_le]
        omega
      have hcount : (before ++ w :: behind).length - before.length = behind.length + 1 := by simp
      rw [if_pos (by simp), hcount, hmove, Option.bind_some]
      refine ⟨_, if_pos (by simp), [], ?_⟩
      simp

end Cells

/-! ## The search -/

/-- The place of `sym` among the names: what is in front is smaller, the rest is larger. -/
def Splits (names : List CString) (sym : CString) (k : Nat) : Prop :=
  k ≤ names.length ∧ (∀ i (h : i < names.length), i < k → names[i] < sym) ∧
    ∀ i (h : i < names.length), k ≤ i → sym < names[i]

namespace Symap

variable {map map' : Symap} {names : List CString} {sym : CString}

/-- In sorted names, what is in front of a smaller one is smaller too. -/
theorem lt_of_getElem_lt (hsorted : names.Pairwise (· < ·)) {i j : Nat} (hj : j < names.length)
    (hij : i ≤ j) (hlt : names[j] < sym) : names[i] < sym := by
  rcases hij.lt_or_eq with hij | rfl
  · exact (List.pairwise_iff_getElem.1 hsorted i j _ _ hij).trans hlt
  · exact hlt

/-- And what is behind a larger one is larger. -/
theorem lt_getElem_of_lt (hsorted : names.Pairwise (· < ·)) {i j : Nat} (hj : j < names.length)
    (hij : i ≤ j) (hlt : sym < names[i]) : sym < names[j] := by
  rcases hij.lt_or_eq with hij | rfl
  · exact hlt.trans (List.pairwise_iff_getElem.1 hsorted i j _ _ hij)
  · exact hlt

/-- The loop finds the symbol, or the place for it: what is in front of `lower` is smaller, what is
behind `upper` is larger, and when the two have met the probe is between them. -/
theorem exists_searchLoop (hat : ∀ i (h : i < names.length), map.symbolAt i = some names[i])
    (hsorted : names.Pairwise (· < ·)) (fuel lower upper i : Nat) (hfuel : upper + 1 < fuel + lower)
    (hupper : upper < names.length) (hle : lower ≤ upper + 1) (hmet : upper < lower → i = lower)
    (hlow : ∀ j (h : j < names.length), j < lower → names[j] < sym)
    (hhigh : ∀ j (h : j < names.length), upper < j → sym < names[j]) :
    ∃ k exact, map.searchLoop sym fuel lower upper i = some (k, exact) ∧
      if exact then names[k]? = some sym else Splits names sym k := by
  induction fuel generalizing lower upper i with
  | zero => omega
  | succ fuel ih =>
      rw [searchLoop]
      by_cases hrun : lower ≤ upper
      · rw [if_pos hrun]
        have hprobe : lower + (upper - lower) / 2 < names.length := by omega
        generalize hmid : lower + (upper - lower) / 2 = mid at hprobe ⊢
        simp only [hat mid hprobe, Option.bind_eq_bind, Option.bind_some]
        cases hcmp : strcmp names[mid] sym with
        | eq =>
            refine ⟨mid, true, rfl, ?_⟩
            rw [if_pos rfl, List.getElem?_eq_getElem hprobe, strcmp_eq_iff.1 hcmp]
        | lt =>
            have hlt := lt_of_strcmp hcmp
            refine ih (mid + 1) upper (mid + 1) (by omega) hupper (by omega) (fun _ => rfl) ?_ hhigh
            exact fun j hj hlt' => lt_of_getElem_lt hsorted hprobe (by omega) hlt
        | gt =>
            have hgt := gt_of_strcmp hcmp
            by_cases hzero : mid = 0
            · refine ⟨mid, false, if_pos hzero, ?_⟩
              rw [if_neg Bool.false_ne_true]
              exact ⟨hprobe.le, fun j hj hlt => by omega,
                fun j hj hle => lt_getElem_of_lt hsorted hj hle hgt⟩
            · simp only [if_neg hzero]
              refine ih lower (mid - 1) mid (by omega) (by omega) (by omega) (by omega) hlow ?_
              exact fun j hj hlt => lt_getElem_of_lt hsorted hj (by omega) hgt
      · rw [if_neg hrun]
        obtain rfl := hmet (not_le.1 hrun)
        refine ⟨i, false, rfl, ?_⟩
        rw [if_neg Bool.false_ne_true]
        exact ⟨by omega, hlow, fun j hj hle => hhigh j hj (by omega)⟩

/-- `symap_search` finds the symbol, or the place for it. -/
theorem exists_search (hat : ∀ i (h : i < names.length), map.symbolAt i = some names[i])
    (hsorted : names.Pairwise (· < ·)) (hsize : map.size = names.length) :
    ∃ k exact, map.search sym = some (k, exact) ∧
      if exact then names[k]? = some sym else Splits names sym k := by
  rw [search]
  by_cases hzero : map.size = 0
  · rw [if_pos hzero]
    refine ⟨0, false, rfl, ?_⟩
    rw [if_neg Bool.false_ne_true]
    exact ⟨by omega, fun i hi hlt => by omega, fun i hi hle => by omega⟩
  · have hlast : map.size - 1 < names.length := by omega
    simp only [if_neg hzero, hat _ hlast, Option.bind_eq_bind, Option.bind_some]
    by_cases hcmp : strcmp names[map.size - 1] sym = .lt
    · rw [if_pos hcmp]
      refine ⟨map.size, false, rfl, ?_⟩
      rw [if_neg Bool.false_ne_true]
      refine ⟨hsize.le, fun i hi hlt => ?_, fun i hi hle => by omega⟩
      exact lt_of_getElem_lt hsorted hlast (by omega) (lt_of_strcmp hcmp)
    · rw [if_neg hcmp]
      exact exists_searchLoop hat hsorted _ 0 _ _ (by omega) hlast (by omega) (by omega)
        (fun j hj hlt => by omega) (fun j hj hlt => by omega)

/-! ## The symbols a symbol map stands for -/

/-- The symbol map holds these symbols, in the order of their ids, and the index holds their ids in
the order of `names`. -/
structure Holds (map : Symap) (syms names : List CString) : Prop where
  nodup : syms.Nodup
  size_eq : map.size = syms.length
  symbols : syms.map some <+: map.symbols
  perm : names.Perm syms
  sorted : names.Pairwise (· < ·)
  index : (names.map (Interner.idOf syms)).map some <+: map.index

/-- A new map holds nothing. -/
theorem holds_new : new.Holds [] [] :=
  ⟨.nil, rfl, List.prefix_rfl, .refl _, .nil, List.prefix_rfl⟩

variable {syms : List CString}

/-- There are as many names as symbols. -/
theorem Holds.length_names (h : map.Holds syms names) : names.length = syms.length :=
  h.perm.length_eq

/-- The index leads to the names. -/
theorem Holds.symbolAt (h : map.Holds syms names) (i : Nat) (hi : i < names.length) :
    map.symbolAt i = some names[i] := by
  have hmem : names[i] ∈ syms := h.perm.mem_iff.1 (List.getElem_mem hi)
  have hid := List.idxOf_lt_length_iff.2 hmem
  have hread := Cells.read_of_prefix h.index (by simpa using hi)
  rw [List.getElem_map] at hread
  rw [Symap.symbolAt, hread, Option.bind_eq_bind, Option.bind_some, Interner.idOf]
  refine (Cells.read_of_prefix h.symbols hid).trans ?_
  rw [List.getElem_idxOf]

/-- A symbol that is there is found, and for one that is not there its place. -/
theorem Holds.exists_search (h : map.Holds syms names) (sym : CString) :
    ∃ k exact, map.search sym = some (k, exact) ∧
      if exact then names[k]? = some sym else Splits names sym k :=
  Symap.exists_search h.symbolAt h.sorted (h.size_eq.trans h.length_names.symm)

/-- A symbol is there when the search says so. -/
theorem Holds.mem_of_search (h : map.Holds syms names) {k : Nat} (hk : names[k]? = some sym) :
    sym ∈ syms := h.perm.mem_iff.1 (List.mem_of_getElem? hk)

/-- A symbol with a place among the names is none of them. -/
theorem Holds.notMem_of_splits (h : map.Holds syms names) {k : Nat}
    (hk : Splits names sym k) : sym ∉ syms := by
  intro hmem
  obtain ⟨i, hi, rfl⟩ := List.getElem_of_mem (h.perm.mem_iff.2 hmem)
  rcases lt_or_ge i k with hlt | hge
  · exact lt_irrefl _ (hk.2.1 i hi hlt)
  · exact lt_irrefl _ (hk.2.2 i hi hge)

/-- The id in the index where the symbol was found. -/
theorem Holds.read_index (h : map.Holds syms names) {k : Nat} (hk : names[k]? = some sym) :
    map.index.read k = some (Interner.idOf syms sym) := by
  obtain ⟨hlt, rfl⟩ := List.getElem?_eq_some_iff.1 hk
  rw [Cells.read_of_prefix h.index (by simpa using hlt), List.getElem_map]

/-- `symap_try_map` answers with the id, or with 0. -/
theorem Holds.tryMap_eq (h : map.Holds syms names) (sym : CString) :
    map.tryMap sym = some (if sym ∈ syms then Interner.idOf syms sym else 0) := by
  obtain ⟨k, exact, hsearch, hfound⟩ := h.exists_search sym
  simp only [tryMap, hsearch, Option.bind_eq_bind, Option.bind_some]
  cases exact with
  | true =>
      rw [if_pos rfl] at hfound
      rw [if_pos rfl, h.read_index hfound, if_pos (h.mem_of_search hfound)]
  | false =>
      rw [if_neg Bool.false_ne_true] at hfound
      rw [if_neg Bool.false_ne_true, if_neg (h.notMem_of_splits hfound)]

/-- `symap_unmap` answers with the symbol, or with `NULL`. -/
theorem Holds.unmap_eq (h : map.Holds syms names) (id : Nat) :
    map.unmap id = some (Interner.valueOf syms id) := by
  cases id with
  | zero => rfl
  | succ id =>
      rw [unmap, if_neg (Nat.succ_ne_zero id), h.size_eq, Interner.valueOf]
      by_cases hle : id + 1 ≤ syms.length
      · rw [if_pos hle, Nat.add_sub_cancel, Cells.read_of_prefix h.symbols hle,
          List.getElem?_eq_getElem hle]
        rfl
      · rw [if_neg hle, List.getElem?_eq_none (by omega)]

/-- A new symbol that is put at its place leaves the names sorted. -/
theorem sorted_insert (hsorted : names.Pairwise (· < ·)) {k : Nat} (hk : Splits names sym k) :
    (names.take k ++ sym :: names.drop k).Pairwise (· < ·) := by
  have hbefore : ∀ s ∈ names.take k, s < sym := by
    intro s hs
    obtain ⟨i, hi, rfl⟩ := List.getElem_of_mem hs
    rw [List.length_take] at hi
    rw [List.getElem_take]
    exact hk.2.1 i (by omega) (by omega)
  have hbehind : ∀ s ∈ names.drop k, sym < s := by
    intro s hs
    obtain ⟨i, hi, rfl⟩ := List.getElem_of_mem hs
    rw [List.length_drop] at hi
    rw [List.getElem_drop]
    exact hk.2.2 (k + i) (by omega) (by omega)
  refine List.pairwise_append.2 ⟨hsorted.sublist (List.take_sublist _ _), ?_, ?_⟩
  · exact List.pairwise_cons.2 ⟨hbehind, hsorted.sublist (List.drop_sublist _ _)⟩
  · intro s hs t ht
    rcases List.mem_cons.1 ht with rfl | ht
    · exact hbefore s hs
    · exact (hbefore s hs).trans (hbehind t ht)

/-- `symap_map` behind a search that has not found the symbol. -/
theorem map_of_search {k : Nat} (hsearch : map.search sym = some (k, false))
    (hsize : map.size + 1 < 2 ^ 32) (grown : Bool × Bool) :
    map.map sym grown =
      if grown.1 then
        if grown.2 then
          ((map.symbols.realloc (map.size + 1)).write map.size sym).bind fun symbols =>
            (insertId (map.index.realloc (map.size + 1)) k (map.size + 1)).bind fun newIndex =>
              some (⟨symbols, newIndex, map.size + 1⟩, map.size + 1)
        else some ({ map with symbols := map.symbols.realloc (map.size + 1) }, 0)
      else some (map, 0) := by
  have hmod : (map.size + 1) % 2 ^ 32 = map.size + 1 := Nat.mod_eq_of_lt hsize
  rcases grown with ⟨_ | _, _ | _⟩ <;>
    simp only [Symap.map, hsearch, hmod, Option.bind_eq_bind, Option.bind_some,
      Bool.false_eq_true, if_false, Nat.succ_ne_zero, not_true, not_false_eq_true, if_true,
      Nat.add_sub_cancel]

/-- `symap_map` of a new symbol where both arrays grow. -/
theorem Holds.insert (h : map.Holds syms names) {k : Nat} (hk : Splits names sym k)
    (hsearch : map.search sym = some (k, false)) (hsize : map.size + 1 < 2 ^ 32) :
    ∃ map', map.map sym (true, true) = some (map', syms.length + 1) ∧
      map'.Holds (syms ++ [sym]) (names.take k ++ sym :: names.drop k) := by
  have hnotMem := h.notMem_of_splits hk
  have hsymbols := Cells.realloc_prefix (n := syms.length + 1) h.symbols (Nat.le_succ _)
  obtain ⟨symbols, hwrite, hsymbols'⟩ :=
    Cells.exists_write (v := sym) hsymbols (by rw [Cells.length_realloc]; omega)
  have hlength : (names.map (Interner.idOf syms)).length = syms.length := by
    rw [List.length_map, h.length_names]
  have hindex := Cells.realloc_prefix (n := syms.length + 1) h.index (by omega)
  obtain ⟨index, hinsert, hindex'⟩ := Cells.exists_insert (k := k) (v := syms.length + 1) hindex
    (by rw [Cells.length_realloc, hlength]) (by rw [hlength, ← h.length_names]; exact hk.1)
  rw [hlength] at hinsert
  refine ⟨⟨symbols, index, syms.length + 1⟩, ?_, ?_⟩
  · have hcount : syms.length + 1 - k - 1 = syms.length - k := by omega
    have hinsert' : insertId (map.index.realloc (syms.length + 1)) k (syms.length + 1) =
        some index := by
      rw [insertId, hcount]
      exact hinsert
    rw [map_of_search hsearch hsize, if_pos rfl, if_pos rfl, h.size_eq, hwrite, Option.bind_some,
      hinsert', Option.bind_some]
  · refine ⟨?_, by simp, hsymbols', ?_, sorted_insert h.sorted hk, ?_⟩
    · exact List.nodup_append.2 ⟨h.nodup, List.nodup_singleton _, by
        rintro s hs t ht rfl
        exact hnotMem (List.mem_singleton.1 ht ▸ hs)⟩
    · refine List.perm_middle.trans ?_
      rw [List.take_append_drop]
      exact (h.perm.cons sym).trans (List.perm_append_singleton sym syms).symm
    · have hids : ∀ ns : List CString, (∀ s ∈ ns, s ∈ names) →
          ns.map (Interner.idOf (syms ++ [sym])) = ns.map (Interner.idOf syms) := by
        intro ns hns
        refine List.map_congr_left fun s hs => ?_
        exact Interner.idOf_append (h.perm.mem_iff.1 (hns s hs))
      rw [List.map_append, List.map_cons, hids _ fun s hs => List.mem_of_mem_take hs,
        hids _ fun s hs => List.mem_of_mem_drop hs, Interner.idOf_concat hnotMem, List.map_take,
        List.map_drop]
      exact hindex'

/-- `symap_map` of a symbol that is there. -/
theorem Holds.map_of_mem (h : map.Holds syms names) (grown : Bool × Bool) (hmem : sym ∈ syms) :
    map.map sym grown = some (map, Interner.idOf syms sym) := by
  obtain ⟨k, exact, hsearch, hfound⟩ := h.exists_search sym
  cases exact with
  | true =>
      rw [if_pos rfl] at hfound
      obtain ⟨hlt, hname⟩ := List.getElem?_eq_some_iff.1 hfound
      have hsymbol : map.symbolAt k = some sym := by rw [h.symbolAt k hlt, hname]
      simp only [Symap.map, hsearch, hsymbol, h.read_index hfound, strcmp_eq_iff.2,
        Option.bind_eq_bind, Option.bind_some, if_true]
  | false =>
      rw [if_neg Bool.false_ne_true] at hfound
      exact absurd hmem (h.notMem_of_splits hfound)

/-- `symap_map` of a new symbol: it is added, or what cannot grow leaves the mapping as it is. -/
theorem Holds.map_of_notMem (h : map.Holds syms names) (grown : Bool × Bool)
    (hnotMem : sym ∉ syms) (hsize : map.size + 1 < 2 ^ 32) :
    ∃ map' names', map.map sym grown =
        some (map', if grown.1 && grown.2 then syms.length + 1 else 0) ∧
      map'.Holds (if grown.1 && grown.2 then syms ++ [sym] else syms) names' := by
  obtain ⟨k, exact, hsearch, hfound⟩ := h.exists_search sym
  cases exact with
  | true =>
      rw [if_pos rfl] at hfound
      exact absurd (h.mem_of_search hfound) hnotMem
  | false =>
      rw [if_neg Bool.false_ne_true] at hfound
      have hmap := map_of_search hsearch hsize grown
      rcases grown with ⟨_ | _, _ | _⟩
      · -- the first `realloc` fails: nothing has changed
        exact ⟨map, names, hmap, h⟩
      · exact ⟨map, names, hmap, h⟩
      · -- the second one fails: the array of the symbols has a cell more than there are symbols
        refine ⟨_, names, hmap, h.nodup, h.size_eq, ?_, h.perm, h.sorted, h.index⟩
        exact Cells.realloc_prefix h.symbols (h.size_eq ▸ Nat.le_succ _)
      · obtain ⟨map', hmap, h'⟩ := h.insert hfound hsearch hsize
        exact ⟨map', _, hmap, h'⟩

/-- A new symbol comes in only if there is an id for it. -/
theorem Holds.room_of_map (h : map.Holds syms names) {grown : Bool × Bool} {r : Symap × Nat}
    (hnotMem : sym ∉ syms) (hsize : map.size < 2 ^ 32) (hmap : map.map sym grown = some r) :
    map.size + 1 < 2 ^ 32 := by
  obtain ⟨k, exact, hsearch, hfound⟩ := h.exists_search sym
  cases exact with
  | true =>
      rw [if_pos rfl] at hfound
      exact absurd (h.mem_of_search hfound) hnotMem
  | false =>
      by_contra hge
      have hid : (map.size + 1) % 2 ^ 32 = 0 := by omega
      simp only [Symap.map, hsearch, hid, Option.bind_eq_bind, Option.bind_some,
        Bool.false_eq_true, if_false, if_true] at hmap
      cases hmap

/-- Every call is answered as the interner answers it. -/
theorem Holds.step (h : map.Holds syms names) (call : SymapCall)
    (hsize : ∀ sym grown, call = .map sym grown → sym ∉ syms → map.size + 1 < 2 ^ 32) :
    ∃ map' names', map.step call = some (map', (Interner.step syms call.request).2) ∧
      map'.Holds (Interner.step syms call.request).1 names' := by
  cases call with
  | map sym grown =>
      rw [SymapCall.request, Interner.step]
      by_cases hmem : sym ∈ syms
      · rw [if_pos hmem]
        refine ⟨map, names, ?_, h⟩
        rw [Symap.step, h.map_of_mem grown hmem]
        rfl
      · obtain ⟨map', names', hmap, h'⟩ := h.map_of_notMem grown hmem (hsize sym grown rfl hmem)
        rw [if_neg hmem]
        refine ⟨map', names', ?_, ?_⟩
        · rw [Symap.step, hmap]
          split <;> rfl
        · split <;> simp_all
  | tryMap sym =>
      refine ⟨map, names, ?_, h⟩
      rw [Symap.step, h.tryMap_eq]
      rfl
  | unmap id =>
      refine ⟨map, names, ?_, h⟩
      rw [Symap.step, h.unmap_eq]
      rfl

/-! ## The symbol map is an interner -/

/-- The state of a symbol map that stands for `syms`: the symbols are distinct, and the index is a
permutation of the ids, sorted by the symbols they name. -/
structure Interns (map : Symap) (syms : List CString) : Prop where
  distinct : syms.Nodup
  size_eq : map.size = syms.length
  symbols : syms.map some <+: map.symbols
  index : ∃ ids : List Nat, ids.map some <+: map.index ∧ ids.Perm (List.range' 1 map.size) ∧
    ids.Pairwise fun a b => ∃ s t, Interner.valueOf syms a = some s ∧
      Interner.valueOf syms b = some t ∧ strcmp s t = .lt

/-- A map that holds its symbols interns them. -/
theorem Holds.interns (h : map.Holds syms names) : map.Interns syms := by
  refine ⟨h.nodup, h.size_eq, h.symbols, names.map (Interner.idOf syms), h.index, ?_, ?_⟩
  · rw [h.size_eq, ← Interner.map_idOf h.nodup]
    exact h.perm.map _
  · refine List.pairwise_map.2 (h.sorted.imp_of_mem ?_)
    intro s t hs ht hlt
    exact ⟨s, t, Interner.valueOf_idOf (h.perm.mem_iff.1 hs),
      Interner.valueOf_idOf (h.perm.mem_iff.1 ht), strcmp_of_lt hlt⟩

end Symap

/-- The symbols that are to be mapped. -/
def SymapCall.mapped : SymapCall → Option CString
  | .map sym _ => some sym
  | _ => none

/-- A symbol that is mapped is among those that have been. -/
theorem SymapCall.mem_mapped {call : SymapCall} {sym : CString} {room : Bool}
    (h : call.request = .map sym room) : sym ∈ [call].filterMap SymapCall.mapped := by
  cases call with
  | map s grown =>
      obtain ⟨rfl, -⟩ := InternerCall.map.inj h
      exact List.mem_singleton_self s
  | tryMap | unmap => cases h

/-- The calls of a sequence with fewer symbols than there are ids are answered one after the other
as an interner answers them. -/
theorem exists_symap_run (calls : List SymapCall)
    (hcard : (calls.filterMap SymapCall.mapped).toFinset.card < 2 ^ 32) :
    ∃ tr map syms names, symaps.Run tr map ∧ tr.map Prod.fst = calls ∧
      symbolInterner.Run tr syms ∧ map.Holds syms names ∧
      ∀ sym ∈ syms, sym ∈ calls.filterMap SymapCall.mapped := by
  induction calls using List.reverseRecOn with
  | nil => exact ⟨[], .new, [], [], .init rfl, rfl, .init rfl, Symap.holds_new, nofun⟩
  | append_singleton calls call ih =>
      rw [List.filterMap_append, List.toFinset_append] at hcard
      obtain ⟨tr, map, syms, names, hrun, hcalls, hinterner, hholds, hsub⟩ :=
        ih ((Finset.card_le_card Finset.subset_union_left).trans_lt hcard)
      have hsize : ∀ sym grown, call = .map sym grown → sym ∉ syms → map.size + 1 < 2 ^ 32 := by
        rintro sym grown rfl hnotMem
        have hsubset : (sym :: syms).toFinset ⊆ (calls.filterMap SymapCall.mapped).toFinset ∪
            ([SymapCall.map sym grown].filterMap SymapCall.mapped).toFinset := by
          intro s hs
          rw [Finset.mem_union, List.mem_toFinset, List.mem_toFinset]
          rcases List.mem_cons.1 (List.mem_toFinset.1 hs) with rfl | hs
          · exact .inr (List.mem_singleton_self _)
          · exact .inl (hsub s hs)
        have hle := Finset.card_le_card hsubset
        rw [List.toFinset_card_of_nodup (List.nodup_cons.2 ⟨hnotMem, hholds.nodup⟩),
          List.length_cons] at hle
        rw [hholds.size_eq]
        omega
      obtain ⟨map', names', hstep, hholds'⟩ := hholds.step call hsize
      refine ⟨tr ++ [(call, (Interner.step syms call.request).2)], map', _, names',
        hrun.step hstep, ?_, hinterner.step rfl, hholds', fun sym hsym => ?_⟩
      · rw [List.map_append, hcalls]
        rfl
      · rw [List.filterMap_append, List.mem_append]
        exact (Interner.mem_step hsym).imp (hsub sym) fun ⟨_, h⟩ => SymapCall.mem_mapped h

/-- Symbols keep their ids while calls follow. -/
theorem symbolInterner_prefix {pre post : List (SymapCall × InternerReply CString)}
    {syms : List CString} (h : symbolInterner.Run (pre ++ post) syms) :
    ∃ syms₀, symbolInterner.Run pre syms₀ ∧ syms₀ <+: syms := by
  obtain ⟨syms₀, hpre, hpost⟩ := Lts.run_append.1 h
  refine ⟨syms₀, hpre, hpost.invariant (I := fun _ syms => syms₀ <+: syms) ?_ ?_⟩
  · rintro syms rfl
    exact List.prefix_rfl
  · intro tr syms label syms' _ hprefix hstep
    obtain ⟨rfl, -⟩ := Prod.mk.inj (Option.some.inj hstep)
    exact hprefix.trans Interner.prefix_step

/-- The symbol map is a correct interner: every sequence of calls, in which any `realloc` may fail,
is answered as the interner answers it, and after each of them the index is sorted and complete; the
symbols of a longer sequence begin with those of a shorter one. -/
theorem symap_interns (calls : List SymapCall)
    (hcard : (calls.filterMap SymapCall.mapped).toFinset.card < 2 ^ 32 - 1) :
    (∃ tr map, symaps.Run tr map ∧ tr.map Prod.fst = calls) ∧
    ∀ tr map, symaps.Run tr map → tr.map Prod.fst = calls →
      ∃ syms, symbolInterner.Run tr syms ∧ map.Interns syms ∧
        ∀ pre post, tr = pre ++ post → ∃ syms₀, symbolInterner.Run pre syms₀ ∧ syms₀ <+: syms := by
  obtain ⟨tr, map, syms, names, hrun, hcalls, hinterner, hholds, -⟩ :=
    exists_symap_run calls (hcard.trans (by decide))
  refine ⟨⟨tr, map, hrun, hcalls⟩, ?_⟩
  rintro tr' map' hrun' hcalls'
  obtain ⟨rfl, rfl⟩ := Lts.ofStep_unique hrun hrun' (hcalls.trans hcalls'.symm)
  refine ⟨syms, hinterner, hholds.interns, ?_⟩
  rintro pre post rfl
  exact symbolInterner_prefix hinterner

/-- Two of the symbols of `symap_test`. -/
def hello : CString := ⟨[104, 101, 108, 108, 111], by decide⟩
def aloha : CString := ⟨[97, 108, 111, 104, 97], by decide⟩

/-- With two symbols, one of which comes in at the second attempt only. -/
theorem symap_interns_hello :
    ∃ tr map syms, symaps.Run tr map ∧
      tr.map Prod.fst = [.map hello (true, true), .map aloha (true, false), .tryMap aloha,
        .map aloha (true, true), .unmap 2] ∧
      symbolInterner.Run tr syms ∧ map.Interns syms := by
  obtain ⟨⟨tr, map, hrun, hcalls⟩, hall⟩ := symap_interns [.map hello (true, true),
    .map aloha (true, false), .tryMap aloha, .map aloha (true, true), .unmap 2] (by decide)
  obtain ⟨syms, hinterner, hinterns, -⟩ := hall tr map hrun hcalls
  exact ⟨tr, map, syms, hrun, hcalls, hinterner, hinterns⟩

end Soundcan.Galv
