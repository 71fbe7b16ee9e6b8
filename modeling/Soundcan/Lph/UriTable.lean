import Soundcan.Galv.Symap

/-!
# The two URID mappers

`lv2-pw-host` keeps its URIs in an array that `uri_table_map` scans (`constants.c`); `galv` keeps
them in a symbol map (`mapper.c`, `symap.c`). Both are interners, so a plugin sees the same URIDs
under either host (`mappers_agree`).
-/

namespace Soundcan

/-- The requests of a plugin to its host. -/
inductive UridRequest where
  | map (uri : CString)
  | unmap (urid : Nat)

/-- The request to an interner that has room for everything. -/
def UridRequest.request : UridRequest → InternerCall CString
  | .map uri => .map uri true
  | .unmap urid => .unmap urid

/-- The URI that is to be mapped. -/
def UridRequest.mapped : UridRequest → Option CString
  | .map uri => some uri
  | .unmap _ => none

namespace Galv

/-- `map_uri` and `unmap_uri`, where no allocation fails. -/
def mapperCall : UridRequest → SymapCall
  | .map uri => .map uri (true, true)
  | .unmap urid => .unmap urid

/-- The runs of the mapper of `galv`. -/
def mappers : Lts Symap (UridRequest × InternerReply CString) :=
  .ofStep .new fun symap request => symap.step (mapperCall request)

end Galv

namespace Lph

open CString

/-- `URITable`: the strings in the `pw_array`. -/
abbrev URITable := List CString

/-- `spa_streq`. -/
def spaStreq (s t : CString) : Bool := strcmp s t == .eq

/-- The loop of `uri_table_map`: the number of the string, if it is there. -/
def uriTableScan (uri : CString) : URITable → Nat → Option Nat
  | [], _ => none
  | p :: ps, i => if spaStreq p uri then some (i + 1) else uriTableScan uri ps (i + 1)

/-- `uri_table_map`. The counter is a `size_t`, the result a `uint32_t`. -/
def uriTableMap (table : URITable) (uri : CString) : URITable × Nat :=
  match uriTableScan uri table 0 with
  | some i => (table, i % 2 ^ 32)
  | none => (table ++ [uri], (table ++ [uri]).length % 2 ^ 32)

/-- `uri_table_unmap`. -/
def uriTableUnmap (table : URITable) (urid : Nat) : Option CString :=
  if urid > 0 ∧ urid ≤ table.length then table[urid - 1]? else none

/-- One request and its answer. -/
def uriTableStep (table : URITable) : UridRequest → URITable × InternerReply CString
  | .map uri => let (table, urid) := uriTableMap table uri; (table, .id urid)
  | .unmap urid => (table, .value (uriTableUnmap table urid))

/-- The runs of the mapper of `lv2-pw-host`. -/
def uriTables : Lts URITable (UridRequest × InternerReply CString) :=
  .ofStep [] fun table request => some (uriTableStep table request)

/-! ## The table is an interner -/

/-- `spa_streq` says whether two strings are the same. -/
theorem spaStreq_iff {s t : CString} : spaStreq s t = true ↔ s = t := by
  rw [spaStreq, beq_iff_eq, strcmp_eq_iff]

/-- The scan finds the first string that is equal. -/
theorem uriTableScan_eq (uri : CString) (table : URITable) (i : Nat) :
    uriTableScan uri table i =
      if uri ∈ table then some (i + Interner.idOf table uri) else none := by
  induction table generalizing i with
  | nil => rfl
  | cons p ps ih =>
      rw [uriTableScan, ih]
      by_cases heq : p = uri
      · subst heq
        rw [if_pos (spaStreq_iff.2 rfl), if_pos List.mem_cons_self, Interner.idOf,
          List.idxOf_cons_self]
      · have hne : uri ≠ p := fun h => heq h.symm
        rw [if_neg (fun h => heq (spaStreq_iff.1 h))]
        by_cases hmem : uri ∈ ps
        · rw [if_pos hmem, if_pos (List.mem_cons_of_mem p hmem), Interner.idOf, Interner.idOf,
            List.idxOf_cons_ne _ heq]
          congr 1
          omega
        · rw [if_neg hmem, if_neg (by simp [hne, hmem])]

/-- As long as the numbers fit the table answers as an interner does. -/
theorem uriTableStep_eq {table : URITable} {request : UridRequest}
    (hsize : (Interner.step table request.request).1.length < 2 ^ 32) :
    uriTableStep table request = Interner.step table request.request := by
  cases request with
  | map uri =>
      rw [UridRequest.request, Interner.step] at hsize ⊢
      rw [uriTableStep, uriTableMap, uriTableScan_eq]
      by_cases hmem : uri ∈ table
      · rw [if_pos hmem] at hsize
        have hid : Interner.idOf table uri < 2 ^ 32 := (Interner.idOf_le hmem).trans_lt hsize
        simp only [if_pos hmem, Nat.zero_add, Nat.mod_eq_of_lt hid]
      · rw [if_neg hmem, if_pos rfl] at hsize
        simp only [if_neg hmem, if_true, Nat.mod_eq_of_lt hsize]
        rw [List.length_append, List.length_singleton]
  | unmap urid =>
      rw [UridRequest.request, Interner.step, uriTableStep, uriTableUnmap]
      cases urid with
      | zero => rfl
      | succ urid =>
          by_cases hle : urid + 1 ≤ table.length
          · rw [if_pos ⟨Nat.succ_pos _, hle⟩]
            rfl
          · rw [if_neg (fun h => hle h.2), Interner.valueOf, List.getElem?_eq_none (by omega)]

end Lph

/-! ## The mappers agree -/

namespace Galv

variable {symap symap' : Symap} {syms names : List CString} {request : UridRequest}

/-- The call of the other mapper makes the same request. -/
theorem request_mapperCall : (mapperCall request).request = request.request := by
  cases request <;> rfl

/-- The call of the other mapper maps the same string. -/
theorem mapped_mapperCall : (mapperCall request).mapped = request.mapped := by
  cases request <;> rfl

/-- Where the symbol map answers there is an id for a new symbol. -/
theorem room_of_step (h : symap.Holds syms names) (hsize : symap.size < 2 ^ 32)
    {r : Symap × InternerReply CString} (hstep : symap.step (mapperCall request) = some r)
    (uri : CString) (hrequest : request = .map uri) (hnotMem : uri ∉ syms) :
    symap.size + 1 < 2 ^ 32 := by
  subst hrequest
  obtain ⟨r, hmap, -⟩ := Option.map_eq_some_iff.1 hstep
  exact h.room_of_map hnotMem hsize hmap

/-- The two mappers hold the same URIs. -/
def SameUris (symap : Symap) (table : Lph.URITable) : Prop :=
  ∃ names, symap.Holds table names ∧ symap.size < 2 ^ 32

/-- A request that the one answers is answered by the other, and alike. -/
theorem SameUris.step {table : Lph.URITable} {reply : InternerReply CString}
    (h : SameUris symap table)
    (hstep : symap.step (mapperCall request) = some (symap', reply)) :
    ∃ table', some (Lph.uriTableStep table request) = some (table', reply) ∧
      SameUris symap' table' := by
  obtain ⟨names, hholds, hsize⟩ := h
  have hroom := room_of_step hholds hsize hstep
  obtain ⟨symap'', names', hstep', hholds'⟩ := hholds.step (mapperCall request) (by
    rintro sym grown heq hnotMem
    cases request with
    | map uri =>
        obtain ⟨rfl, -⟩ := SymapCall.map.inj heq
        exact hroom uri rfl hnotMem
    | unmap urid => cases heq)
  obtain ⟨rfl, rfl⟩ := Prod.mk.inj (Option.some.inj (hstep.symm.trans hstep'))
  rw [request_mapperCall] at hholds' ⊢
  have hlength : (Interner.step table request.request).1.length < 2 ^ 32 := by
    cases request with
    | map uri =>
        rw [UridRequest.request, Interner.step]
        by_cases hmem : uri ∈ table
        · rw [if_pos hmem, ← hholds.size_eq]
          exact hsize
        · rw [if_neg hmem, if_pos rfl, List.length_append, ← hholds.size_eq]
          exact hroom uri rfl hmem
    | unmap urid => exact hholds.size_eq ▸ hsize
  refine ⟨_, congrArg some (Lph.uriTableStep_eq hlength), names', hholds', ?_⟩
  rw [hholds'.size_eq]
  exact hlength

end Galv

/-- The two mappers agree: what the symbol map of `galv` answers to a sequence of requests is what
the table of `lv2-pw-host` answers. The symbol map answers at least as long as there are fewer than
`2 ^ 32` URIs; the array for one more cannot be allocated. -/
theorem mappers_agree (requests : List UridRequest) :
    ((requests.filterMap UridRequest.mapped).toFinset.card < 2 ^ 32 →
      ∃ tr symap, Galv.mappers.Run tr symap ∧ tr.map Prod.fst = requests) ∧
    ∀ tr symap, Galv.mappers.Run tr symap → tr.map Prod.fst = requests →
      ∃ table, Lph.uriTables.Run tr table := by
  constructor
  · intro hcard
    have hmapped : (requests.map Galv.mapperCall).filterMap Galv.SymapCall.mapped =
        requests.filterMap UridRequest.mapped := by
      rw [List.filterMap_map]
      exact List.filterMap_congr fun request _ => Galv.mapped_mapperCall
    obtain ⟨tr, symap, syms, names, hrun, hcalls, -⟩ :=
      Galv.exists_symap_run (requests.map Galv.mapperCall) (by rwa [hmapped])
    refine ⟨_, symap, Lts.ofStep_run_requests hrun hcalls, ?_⟩
    rw [List.map_fst_zip]
    simpa using (congrArg List.length hcalls).ge
  · intro tr symap hrun _
    have hrefine : ∃ table, Lph.uriTables.Run tr table ∧ Galv.SameUris symap table := by
      refine hrun.refine ?_ ?_
      · rintro symap rfl
        exact ⟨[], rfl, [], Galv.Symap.holds_new, by decide⟩
      · rintro symap ⟨request, reply⟩ symap' table hsame hstep
        exact hsame.step hstep
    obtain ⟨table, hrun', -⟩ := hrefine
    exact ⟨table, hrun'⟩

end Soundcan
