import Mathlib.Data.List.Basic
import Mathlib.Data.Option.Basic
import Mathlib.Tactic

/-!
# File trees

A tree of directories and files without links, and the paths through it. A path goes on only from a
directory, also with `.` and `..`, and `..` at the root stays there. A place is a path of names from
the root. `relative` is the path between two places, and leads there (`walk_relative`).
-/

namespace FileTree

/-- A name in a directory. -/
abbrev FileName := List Char

/-- A file or a directory, with its entries as they are listed. -/
inductive Node where
  | file
  | dir (entries : List (FileName × Node))

/-- A part of a path. -/
inductive Part where
  | dot
  | dotdot
  | name (n : FileName)
  deriving DecidableEq

namespace Node

/-- The entry of a name. -/
def entry : Node → FileName → Option Node
  | .file, _ => none
  | .dir es, n => (es.find? (·.1 = n)).map Prod.snd

/-- What is at a place. -/
def lookup : Node → List FileName → Option Node
  | node, [] => some node
  | node, n :: place => (node.entry n).bind fun child => child.lookup place

/-- There is a directory at a place. -/
def HasDir (root : Node) (place : List FileName) : Prop := ∃ es, root.lookup place = some (.dir es)

/-- The place behind one part of a path. -/
def enter (root : Node) (place : List FileName) (part : Part) : Option (List FileName) :=
  match root.lookup place with
  | some (.dir es) =>
    match part with
    | .dot => some place
    | .dotdot => some place.dropLast
    | .name n => ((Node.dir es).entry n).map fun _ => place ++ [n]
  | _ => none

/-- The place behind a path. -/
def walk (root : Node) (place : List FileName) (parts : List Part) : Option (List FileName) :=
  parts.foldlM root.enter place

/-- The place of an absolute path. -/
def resolve (root : Node) (parts : List Part) : Option (List FileName) := root.walk [] parts

variable {root : Node} {place : List FileName} {parts : List Part} {n : FileName}

/-! ## Places -/

/-- A path is looked up part by part. -/
theorem lookup_append (p q : List FileName) :
    root.lookup (p ++ q) = (root.lookup p).bind fun node => node.lookup q := by
  induction p generalizing root with
  | nil => rfl
  | cons n p ih =>
      rw [List.cons_append, lookup, lookup, Option.bind_assoc]
      exact Option.bind_congr fun child _ => ih

/-- The last part of a path is an entry of the directory in front of it. -/
theorem lookup_concat (p : List FileName) (n : FileName) :
    root.lookup (p ++ [n]) = (root.lookup p).bind fun node => node.entry n := by
  have hone : ∀ node : Node, node.lookup [n] = node.entry n := by
    intro node
    rw [lookup]
    cases node.entry n <;> rfl
  rw [lookup_append]
  exact Option.bind_congr fun node _ => hone node

/-- What has an entry is a directory. -/
theorem exists_entries {node child : Node} (h : node.entry n = some child) :
    ∃ es, node = .dir es := by
  cases node with
  | file => cases h
  | dir es => exact ⟨es, rfl⟩

/-- What has something below it is a directory. -/
theorem hasDir_of_lookup_append {p q : List FileName} {node : Node} (hq : q ≠ [])
    (h : root.lookup (p ++ q) = some node) : root.HasDir p := by
  obtain ⟨n, q, rfl⟩ := List.exists_cons_of_ne_nil hq
  rw [lookup_append, Option.bind_eq_some_iff] at h
  obtain ⟨dir, hdir, hchild⟩ := h
  obtain ⟨child, hentry, -⟩ := Option.bind_eq_some_iff.1 hchild
  obtain ⟨es, rfl⟩ := exists_entries hentry
  exact ⟨es, hdir⟩

/-- The places above a directory are directories. -/
theorem HasDir.of_append {p q : List FileName} (h : root.HasDir (p ++ q)) : root.HasDir p := by
  by_cases hq : q = []
  · rwa [hq, List.append_nil] at h
  · exact hasDir_of_lookup_append hq h.choose_spec

/-! ## One part -/

/-- A dot stays in its directory. -/
theorem enter_dot (h : root.HasDir place) : root.enter place .dot = some place := by
  obtain ⟨es, hes⟩ := h
  rw [enter, hes]

/-- Two dots go to the parent. -/
theorem enter_dotdot (h : root.HasDir place) : root.enter place .dotdot = some place.dropLast := by
  obtain ⟨es, hes⟩ := h
  rw [enter, hes]

/-- A name leads to its entry, if there is one. -/
theorem enter_name : root.enter place (.name n) =
    (root.lookup (place ++ [n])).map fun _ => place ++ [n] := by
  rw [lookup_concat, enter]
  cases hlookup : root.lookup place with
  | none => rfl
  | some node =>
      cases node with
      | file => rfl
      | dir es => rfl

/-- Only a directory is gone through. -/
theorem hasDir_of_enter {part : Part} {place' : List FileName}
    (h : root.enter place part = some place') : root.HasDir place := by
  rw [enter] at h
  split at h
  next es hes => exact ⟨es, hes⟩
  next => cases h

/-- A path leads to places that are there. -/
theorem lookup_ne_none_of_enter {part : Part} {place' : List FileName}
    (h : root.enter place part = some place') : root.lookup place' ≠ none := by
  obtain ⟨es, hes⟩ := hasDir_of_enter h
  cases part with
  | dot =>
      rw [enter_dot ⟨es, hes⟩] at h
      obtain rfl := Option.some.inj h
      rw [hes]
      exact Option.some_ne_none _
  | dotdot =>
      rw [enter_dotdot ⟨es, hes⟩] at h
      obtain rfl := Option.some.inj h
      rcases List.eq_nil_or_concat place with rfl | ⟨p, n, rfl⟩
      · rw [List.dropLast_nil, hes]
        exact Option.some_ne_none _
      · rw [List.concat_eq_append] at hes ⊢
        obtain ⟨above, habove⟩ := HasDir.of_append ⟨es, hes⟩
        rw [List.dropLast_concat, habove]
        exact Option.some_ne_none _
  | name n =>
      rw [enter_name, Option.map_eq_some_iff] at h
      obtain ⟨child, hchild, rfl⟩ := h
      rw [hchild]
      exact Option.some_ne_none _

/-! ## Paths -/

/-- A walk goes on where its first part has ended. -/
theorem walk_append (parts more : List Part) : root.walk place (parts ++ more) =
    (root.walk place parts).bind fun place => root.walk place more :=
  List.foldlM_append ..

/-- The last step of a walk. -/
theorem walk_concat (parts : List Part) (part : Part) : root.walk place (parts ++ [part]) =
    (root.walk place parts).bind fun place => root.enter place part := by
  rw [walk_append]
  exact Option.bind_congr fun place _ => bind_pure _

/-- A walk ends at something that is there. -/
theorem lookup_ne_none_of_walk {place' : List FileName} (hplace : root.lookup place ≠ none)
    (h : root.walk place parts = some place') : root.lookup place' ≠ none := by
  induction parts generalizing place with
  | nil =>
      obtain rfl : place = place' := Option.some.inj h
      exact hplace
  | cons part parts ih =>
      obtain ⟨next, henter, hwalk⟩ := Option.bind_eq_some_iff.1 h
      exact ih (lookup_ne_none_of_enter henter) hwalk

/-- What an absolute path leads to is there. -/
theorem lookup_ne_none_of_resolve (h : root.resolve parts = some place) :
    root.lookup place ≠ none :=
  lookup_ne_none_of_walk (show root.lookup [] ≠ none from Option.some_ne_none root) h

/-- Names lead down to what is there. -/
theorem walk_names {p q : List FileName} (h : root.lookup (p ++ q) ≠ none) :
    root.walk p (q.map .name) = some (p ++ q) := by
  induction q generalizing p with
  | nil => rw [List.append_nil]; rfl
  | cons n q ih =>
      have happend : p ++ n :: q = p ++ [n] ++ q := List.append_cons p n q
      rw [happend] at h ⊢
      have hchild : root.lookup (p ++ [n]) ≠ none := by
        intro hnone
        rw [lookup_append, hnone] at h
        exact h rfl
      obtain ⟨child, hsome⟩ := Option.ne_none_iff_exists'.1 hchild
      have henter : root.enter p (.name n) = some (p ++ [n]) := by
        rw [enter_name, hsome]
        rfl
      rw [List.map_cons, walk, List.foldlM_cons, henter]
      exact ih h

/-- `..` leads up from a directory. -/
theorem walk_dotdots {p q : List FileName} (h : root.HasDir (p ++ q)) :
    root.walk (p ++ q) (List.replicate q.length .dotdot) = some p := by
  induction q using List.reverseRecOn with
  | nil => rw [List.append_nil]; rfl
  | append_singleton q n ih =>
      rw [← List.append_assoc] at h ⊢
      rw [List.length_append, List.length_singleton, List.replicate_succ, walk, List.foldlM_cons,
        enter_dotdot h, List.dropLast_concat]
      exact ih h.of_append

end Node

/-! ## Relative paths -/

/-- The way from a directory up to what the two places have in common, and down again. -/
def upAndDown : List FileName → List FileName → List Part
  | n :: place, m :: base =>
    if n = m then upAndDown place base
    else List.replicate (m :: base).length .dotdot ++ (n :: place).map .name
  | place, base => List.replicate base.length .dotdot ++ place.map .name

/-- The path from a directory to a place. -/
def relative (place base : List FileName) : List Part :=
  if place = base then [.dot] else upAndDown place base

variable {root : Node}

/-- Going up by the base and down by the place leads to the place. -/
theorem walk_up_and_down {common place base : List FileName} (hbase : root.HasDir (common ++ base))
    (hplace : root.lookup (common ++ place) ≠ none) :
    root.walk (common ++ base) (List.replicate base.length .dotdot ++ place.map .name) =
      some (common ++ place) := by
  rw [Node.walk_append, Node.walk_dotdots hbase, Option.bind_some, Node.walk_names hplace]

/-- The way by what the two places have in common leads to the place too. -/
theorem walk_upAndDown {common place base : List FileName} (hbase : root.HasDir (common ++ base))
    (hplace : root.lookup (common ++ place) ≠ none) :
    root.walk (common ++ base) (upAndDown place base) = some (common ++ place) := by
  induction place generalizing common base with
  | nil =>
      have hup : upAndDown [] base = List.replicate base.length .dotdot ++ [] := by
        cases base <;> rfl
      rw [hup]
      exact walk_up_and_down hbase hplace
  | cons n place ih =>
      cases base with
      | nil => exact walk_up_and_down hbase hplace
      | cons m base =>
          rw [upAndDown]
          split
          next heq =>
            subst heq
            have hbase' : common ++ n :: base = common ++ [n] ++ base := List.append_cons ..
            have hplace' : common ++ n :: place = common ++ [n] ++ place := List.append_cons ..
            rw [hbase'] at hbase ⊢
            rw [hplace'] at hplace ⊢
            exact ih hbase hplace
          next => exact walk_up_and_down hbase hplace

/-- The path from a directory to a place leads there. -/
theorem walk_relative {place base : List FileName} (hbase : root.HasDir base)
    (hplace : root.lookup place ≠ none) : root.walk base (relative place base) = some place := by
  rw [relative]
  split
  next heq =>
    subst heq
    rw [Node.walk, List.foldlM_cons, Node.enter_dot hbase]
    rfl
  next =>
    have hroot : root.HasDir ([] ++ base) := hbase
    exact walk_upAndDown hroot hplace

end FileTree
