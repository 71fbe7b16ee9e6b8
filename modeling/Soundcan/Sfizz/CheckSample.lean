import Soundcan.Lib.FileTree

/-!
# Samples in a directory with another spelling

`checkSample` looks for a sample under its name, and where there is none, for one whose name differs
in case only. It goes through the path part by part and takes the first entry that fits. So what it
answers is there and is the sample but for case, and where no directory has two entries that differ
in case only, it finds the sample whenever there is one (`checkSample_spec`).
-/

namespace Soundcan.Sfizz

open FileTree

/-- A path, as its parts. -/
structure FsPath where
  absolute : Bool
  parts : List Part
  deriving DecidableEq

/-- `absl::EqualsIgnoreCase`. -/
def equalsIgnoreCase (a b : FileName) : Bool := a.map Char.toLower = b.map Char.toLower

/-- `operator/` with an absolute path in front. -/
def FsPath.under (path : FsPath) (directory : List Part) : List Part :=
  if path.absolute then path.parts else directory ++ path.parts

/-- `fs::weakly_canonical`: the place of the longest beginning that is there, and what is behind it
without dots. -/
def weaklyCanonical (root : Node) : List FileName → List Part → List FileName
  | place, [] => place
  | place, part :: parts =>
    match root.enter place part with
    | some next => weaklyCanonical root next parts
    | none => (part :: parts).foldl
        (fun place part =>
          match part with
          | .dot => place
          | .dotdot => place.dropLast
          | .name n => place ++ [n])
        place

/-- The loop of `checkSample` over the parts of the path that is not there; `path` are the parts
that it has taken. -/
def spelled (root : Node) : List Part → List Part → Option (List Part)
  | path, [] => some path
  | path, .dot :: parts => spelled root (path ++ [.dot]) parts
  | path, .dotdot :: parts => spelled root (path ++ [.dotdot]) parts
  | path, .name part :: parts =>
    if (root.resolve (path ++ [.name part])).isSome then
      spelled root (path ++ [.name part]) parts
    else
      match (root.resolve path).bind root.lookup with
      | some (.dir entries) =>
        match entries.find? fun entry => equalsIgnoreCase entry.1 part with
        | some entry => spelled root (path ++ [.name entry.1]) parts
        | none => none
      | _ => none

/-- `checkSample`: the file name, as it is afterwards, where it answers `true`. -/
def checkSample (root : Node) (rootDirectory : List Part) (filename : FsPath) : Option FsPath :=
  if (root.resolve (filename.under rootDirectory)).isSome then some filename
  else
    (spelled root [] (filename.under rootDirectory)).map fun path =>
      ⟨false, relative (weaklyCanonical root [] path) (weaklyCanonical root [] rootDirectory)⟩

/-! ## Spellings -/

/-- The same part but for the case of its letters. -/
inductive SamePart : Part → Part → Prop where
  | dot : SamePart .dot .dot
  | dotdot : SamePart .dotdot .dotdot
  | name {a b : FileName} : equalsIgnoreCase a b = true → SamePart (.name a) (.name b)

/-- No directory has two entries whose names differ in case only. -/
def NoTwins (root : Node) : Prop :=
  ∀ place entries, root.lookup place = some (.dir entries) → ∀ a ∈ entries, ∀ b ∈ entries,
    equalsIgnoreCase a.1 b.1 = true → a.1 = b.1

variable {root : Node} {path parts : List Part} {place : List FileName} {filename : FsPath}

/-- Names are equal where their lower-case characters are. -/
theorem equalsIgnoreCase_iff {a b : FileName} :
    equalsIgnoreCase a b = true ↔ a.map Char.toLower = b.map Char.toLower :=
  decide_eq_true_iff

/-- A part is spelled as itself. -/
theorem SamePart.refl (part : Part) : SamePart part part := by
  cases part with
  | dot => exact .dot
  | dotdot => exact .dotdot
  | name n => exact .name (equalsIgnoreCase_iff.2 rfl)

/-- A path is spelled as itself, part by part. -/
theorem forall₂_samePart_refl (parts : List Part) : List.Forall₂ SamePart parts parts :=
  List.forall₂_same.2 fun part _ => SamePart.refl part

/-! ## The loop -/

/-- Parts that lead somewhere are taken as they are. -/
theorem spelled_append (h : root.resolve (path ++ parts) ≠ none) (more : List Part) :
    spelled root path (parts ++ more) = spelled root (path ++ parts) more := by
  induction parts generalizing path with
  | nil => rw [List.nil_append, List.append_nil]
  | cons part parts ih =>
      have happend : path ++ part :: parts = path ++ [part] ++ parts := List.append_cons ..
      rw [happend] at h ⊢
      cases part with
      | dot => exact ih h
      | dotdot => exact ih h
      | name n =>
          have hsome : (root.resolve (path ++ [.name n])).isSome = true := by
            rw [Option.isSome_iff_ne_none]
            intro hnone
            rw [Node.resolve, Node.walk_append, ← Node.resolve, hnone] at h
            exact h rfl
          rw [List.cons_append, spelled, if_pos hsome]
          exact ih h

/-- What is found in a directory is there. -/
theorem resolve_entry {entries : List (FileName × Node)} {entry : FileName × Node}
    (hplace : root.resolve path = some place) (hdir : root.lookup place = some (.dir entries))
    (hentry : entry ∈ entries) :
    root.resolve (path ++ [.name entry.1]) = some (place ++ [entry.1]) := by
  obtain ⟨child, hchild⟩ : ∃ child, (Node.dir entries).entry entry.1 = some child := by
    have hfound : (entries.find? (·.1 = entry.1)).isSome = true :=
      List.find?_isSome.2 ⟨entry, hentry, decide_eq_true rfl⟩
    obtain ⟨found, hfound⟩ := Option.isSome_iff_exists.1 hfound
    exact ⟨found.2, by rw [Node.entry, hfound]; rfl⟩
  rw [Node.resolve, Node.walk_concat, ← Node.resolve, hplace, Option.bind_some, Node.enter_name,
    Node.lookup_concat, hdir, Option.bind_some, hchild]
  rfl

/-- A name that leads somewhere is that of an entry. -/
theorem exists_entry {n : FileName} (h : root.resolve (path ++ [.name n]) ≠ none) :
    ∃ place entries, root.resolve path = some place ∧ root.lookup place = some (.dir entries) ∧
      ∃ entry ∈ entries, entry.1 = n := by
  obtain ⟨next, hnext⟩ := Option.ne_none_iff_exists'.1 h
  rw [Node.resolve, Node.walk_concat, Option.bind_eq_some_iff] at hnext
  obtain ⟨place, hplace, henter⟩ := hnext
  obtain ⟨entries, hdir⟩ := Node.hasDir_of_enter henter
  rw [Node.enter_name, Node.lookup_concat, hdir, Option.bind_some, Option.map_eq_some_iff] at henter
  obtain ⟨child, hchild, -⟩ := henter
  obtain ⟨entry, hfind, -⟩ := Option.map_eq_some_iff.1 hchild
  have heq := List.find?_some hfind
  exact ⟨place, entries, hplace, hdir, entry, List.mem_of_find?_eq_some hfind,
    of_decide_eq_true heq⟩

/-- What the loop takes for a name is there, and is the name but for case. -/
theorem spelled_name {n : FileName} {out : List Part}
    (h : spelled root path (.name n :: parts) = some out) :
    ∃ m, equalsIgnoreCase m n = true ∧ root.resolve (path ++ [.name m]) ≠ none ∧
      spelled root (path ++ [.name m]) parts = some out := by
  rw [spelled] at h
  split at h
  next hsome => exact ⟨n, equalsIgnoreCase_iff.2 rfl, Option.isSome_iff_ne_none.1 hsome, h⟩
  next =>
    split at h
    next entries hentries =>
      split at h
      next entry hfind =>
        obtain ⟨place, hplace, hdir⟩ := Option.bind_eq_some_iff.1 hentries
        have hsame := List.find?_some hfind
        refine ⟨entry.1, hsame, ?_, h⟩
        rw [resolve_entry hplace hdir (List.mem_of_find?_eq_some hfind)]
        exact Option.some_ne_none _
      next => cases h
    next => cases h

/-- What it has taken behind a name is there, and is the path but for case. -/
theorem spelled_sound {n : FileName} {out : List Part}
    (h : spelled root path (parts ++ [.name n]) = some out) :
    ∃ parts', List.Forall₂ SamePart parts' (parts ++ [.name n]) ∧ out = path ++ parts' ∧
      root.resolve out ≠ none := by
  induction parts generalizing path with
  | nil =>
      obtain ⟨m, hsame, hthere, hout⟩ := spelled_name h
      rw [spelled] at hout
      obtain rfl := Option.some.inj hout
      exact ⟨[.name m], .cons (.name hsame) .nil, rfl, hthere⟩
  | cons part parts ih =>
      -- each part is taken, and the loop goes on behind it
      obtain ⟨part', hsame, hrest⟩ : ∃ part', SamePart part' part ∧
          spelled root (path ++ [part']) (parts ++ [.name n]) = some out := by
        cases part with
        | dot => exact ⟨.dot, .dot, h⟩
        | dotdot => exact ⟨.dotdot, .dotdot, h⟩
        | name m =>
            obtain ⟨m', hsame, -, hrest⟩ := spelled_name h
            exact ⟨.name m', .name hsame, hrest⟩
      obtain ⟨parts', hparts, rfl, hthere⟩ := ih hrest
      refine ⟨part' :: parts', .cons hsame hparts, ?_, hthere⟩
      rw [List.append_assoc, List.singleton_append]

/-- Without twins it takes the path that is there. -/
theorem spelled_complete (htwins : NoTwins root) {parts' : List Part}
    (hsame : List.Forall₂ SamePart parts' parts) (hthere : root.resolve (path ++ parts') ≠ none) :
    spelled root path parts = some (path ++ parts') := by
  induction hsame generalizing path with
  | nil => rw [List.append_nil]; rfl
  | @cons part' part parts' parts hpart _ ih =>
      have happend : path ++ part' :: parts' = path ++ [part'] ++ parts' := List.append_cons ..
      rw [happend] at hthere ⊢
      have hrest := ih hthere
      cases hpart with
      | dot => exact hrest
      | dotdot => exact hrest
      | @name a b heq =>
          have hname : root.resolve (path ++ [.name a]) ≠ none := by
            intro hnone
            rw [Node.resolve, Node.walk_append, ← Node.resolve, hnone] at hthere
            exact hthere rfl
          obtain ⟨place, entries, hplace, hdir, entry, hentry, rfl⟩ := exists_entry hname
          rw [spelled]
          split
          next hsome =>
            obtain ⟨place', entries', hplace', hdir', other, hother, rfl⟩ :=
              exists_entry (Option.isSome_iff_ne_none.1 hsome)
            obtain rfl : place = place' := Option.some.inj (hplace.symm.trans hplace')
            obtain rfl : entries = entries' :=
              Node.dir.inj (Option.some.inj (hdir.symm.trans hdir'))
            rwa [← htwins place entries hdir entry hentry other hother heq]
          next =>
            rw [hplace, Option.bind_some, hdir]
            have hfound : (entries.find? fun e => equalsIgnoreCase e.1 b).isSome = true :=
              List.find?_isSome.2 ⟨entry, hentry, heq⟩
            obtain ⟨found, hfind⟩ := Option.isSome_iff_exists.1 hfound
            have hfoundEq : equalsIgnoreCase found.1 entry.1 = true := by
              have hb := List.find?_some hfind
              rw [equalsIgnoreCase_iff] at hb heq ⊢
              rw [hb, heq]
            simp only [hfind]
            rwa [htwins place entries hdir found (List.mem_of_find?_eq_some hfind) entry hentry
              hfoundEq]

/-! ## The answer -/

/-- A path that can be walked is canonical at its place. -/
theorem weaklyCanonical_of_walk {place' : List FileName} (h : root.walk place parts = some place') :
    weaklyCanonical root place parts = place' := by
  induction parts generalizing place with
  | nil => exact Option.some.inj h
  | cons part parts ih =>
      obtain ⟨next, henter, hwalk⟩ := Option.bind_eq_some_iff.1 h
      rw [weaklyCanonical, henter]
      exact ih hwalk

/-- For a root directory that is there and a file name that ends in a name: what `checkSample`
answers leads from the root directory to a place, and so does the file name but for the case of its
letters. Where no directory has twins, it finds the sample under any spelling that is there. -/
theorem checkSample_spec {rootDirectory : List Part} {base : List FileName}
    (hbase : root.resolve rootDirectory = some base) (hdir : root.HasDir base)
    {directory : List Part} {n : FileName} (hname : filename.parts = directory ++ [.name n]) :
    (∀ f, checkSample root rootDirectory filename = some f →
      ∃ place parts', List.Forall₂ SamePart parts' filename.parts ∧
        root.resolve (FsPath.under ⟨filename.absolute, parts'⟩ rootDirectory) = some place ∧
        root.resolve (f.under rootDirectory) = some place) ∧
    (NoTwins root → checkSample root rootDirectory filename = none →
      ∀ parts', List.Forall₂ SamePart parts' filename.parts →
        root.resolve (FsPath.under ⟨filename.absolute, parts'⟩ rootDirectory) = none) := by
  obtain ⟨absolute, parts⟩ := filename
  obtain rfl : parts = directory ++ [.name n] := hname
  obtain ⟨front, hunder, hfront⟩ : ∃ front,
      (∀ parts, FsPath.under ⟨absolute, parts⟩ rootDirectory = front ++ parts) ∧
      root.resolve ([] ++ front) ≠ none := by
    cases absolute with
    | true => exact ⟨[], fun _ => rfl, Option.some_ne_none _⟩
    | false => exact ⟨rootDirectory, fun _ => rfl, hbase ▸ Option.some_ne_none _⟩
  have hloop : spelled root [] (front ++ (directory ++ [.name n])) =
      spelled root front (directory ++ [.name n]) := spelled_append hfront _
  refine ⟨fun f hf => ?_, fun htwins hnone parts' hsame => ?_⟩
  · rw [checkSample, hunder, hloop] at hf
    split at hf
    next hsome =>
      obtain rfl := Option.some.inj hf
      obtain ⟨place, hplace⟩ := Option.isSome_iff_exists.1 hsome
      exact ⟨place, _, forall₂_samePart_refl _, by rwa [hunder], by rwa [hunder]⟩
    next =>
      obtain ⟨path, hpath, rfl⟩ := Option.map_eq_some_iff.1 hf
      obtain ⟨parts', hsame, rfl, hthere⟩ := spelled_sound hpath
      obtain ⟨place, hplace⟩ := Option.ne_none_iff_exists'.1 hthere
      refine ⟨place, parts', hsame, by rwa [hunder], ?_⟩
      rw [weaklyCanonical_of_walk hplace, weaklyCanonical_of_walk hbase, FsPath.under,
        if_neg Bool.false_ne_true, Node.resolve, Node.walk_append, ← Node.resolve, hbase,
        Option.bind_some]
      exact walk_relative hdir (Node.lookup_ne_none_of_resolve hplace)
  · rw [checkSample, hunder, hloop] at hnone
    rw [hunder]
    by_contra hthere
    rw [spelled_complete htwins hsame hthere, Option.map_some] at hnone
    split at hnone <;> cases hnone

/-- A file alone has no twins. -/
theorem noTwins_file : NoTwins .file := by
  intro place entries h
  cases place with
  | nil => cases h
  | cons n place => cases h

/-- A directory without twins, of directories without twins. -/
theorem noTwins_dir {entries : List (FileName × Node)}
    (hnames : ∀ a ∈ entries, ∀ b ∈ entries, equalsIgnoreCase a.1 b.1 = true → a.1 = b.1)
    (hchildren : ∀ entry ∈ entries, NoTwins entry.2) : NoTwins (.dir entries) := by
  intro place entries' h
  cases place with
  | nil =>
      obtain rfl : entries = entries' := Node.dir.inj (Option.some.inj h)
      exact hnames
  | cons n place =>
      obtain ⟨child, hchild, hlookup⟩ := Option.bind_eq_some_iff.1 h
      obtain ⟨entry, hfind, rfl⟩ := Option.map_eq_some_iff.1 hchild
      exact hchildren entry (List.mem_of_find?_eq_some hfind) place entries' hlookup

/-- `/kits/Drums/Kick.wav` and `/kits/sfz`. -/
def kits : Node :=
  .dir [("kits".toList, .dir [("Drums".toList, .dir [("Kick.wav".toList, .file)]),
    ("sfz".toList, .dir [])])]

/-- The tree of kits has no twins. -/
theorem noTwins_kits : NoTwins kits := by
  have hdrums : NoTwins (.dir [("Kick.wav".toList, .file)]) :=
    noTwins_dir (by simp) (by simpa using noTwins_file)
  have hkits : NoTwins (.dir [("Drums".toList, .dir [("Kick.wav".toList, .file)]),
      ("sfz".toList, .dir [])]) :=
    noTwins_dir (by simp [equalsIgnoreCase])
      (by simpa using ⟨hdrums, noTwins_dir (by simp) (by simp)⟩)
  exact noTwins_dir (by simp) (by simpa using hkits)

/-- From `/kits/sfz`, `../drums/kick.wav` is found, and `../drums/snare.wav` is not. -/
theorem checkSample_kick :
    let rootDirectory : List Part := [.name "kits".toList, .name "sfz".toList]
    let drum (n : FileName) : FsPath := ⟨false, [.dotdot, .name "drums".toList, .name n]⟩
    checkSample kits rootDirectory (drum "kick.wav".toList) =
      some ⟨false, [.dotdot, .name "Drums".toList, .name "Kick.wav".toList]⟩ ∧
    (∃ place, kits.resolve (rootDirectory ++
      [.dotdot, .name "Drums".toList, .name "Kick.wav".toList]) = some place) ∧
    ∀ parts', List.Forall₂ SamePart parts' (drum "snare.wav".toList).parts →
      kits.resolve (rootDirectory ++ parts') = none := by
  intro rootDirectory drum
  have hbase : kits.resolve rootDirectory = some ["kits".toList, "sfz".toList] := rfl
  have hdir : kits.HasDir ["kits".toList, "sfz".toList] := ⟨[], rfl⟩
  have hname : ∀ n, (drum n).parts = [.dotdot, .name "drums".toList] ++ [.name n] := fun _ => rfl
  have hkick : checkSample kits rootDirectory (drum "kick.wav".toList) =
      some ⟨false, [.dotdot, .name "Drums".toList, .name "Kick.wav".toList]⟩ := rfl
  have hsnare : checkSample kits rootDirectory (drum "snare.wav".toList) = none := rfl
  obtain ⟨place, -, -, -, hplace⟩ := (checkSample_spec hbase hdir (hname _)).1 _ hkick
  exact ⟨hkick, ⟨place, hplace⟩,
    (checkSample_spec hbase hdir (hname _)).2 noTwins_kits hsnare⟩

end Soundcan.Sfizz
