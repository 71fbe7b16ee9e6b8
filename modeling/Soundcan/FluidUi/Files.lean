import Soundcan.Lib.CText
import Soundcan.Lib.Path

/-!
# The files of fluid-ui

`getFileURL` makes the name of a file of a route: it removes the query from the last `?` on, puts
`index.html` behind a slash at the end, the web root in front, and `.html` behind a name without a
dot, where it looks for the dot in the whole name. `getFileURL_maps_iff` says for which paths and
queries that is the file of the path, and `getFileURL_contained_iff` for which routes the file is in
the web root.
-/

namespace Soundcan.FluidUi

open CText Path

/-! ## The mapping -/

/-- What `getFileURL` does with a route. -/
structure FileURL where
  /-- The index of the character of the route that it compares with a slash. -/
  index : Int
  fileURL : List Char

/-- The route without its query. -/
def stripQuery (route : List Char) : List Char :=
  match strrchr '?' route with
  | some question => route.take question
  | none => route

/-- `/var/www`. -/
def webRoot : List Char := "/var/www".toList

/-- The default document. -/
def defaultDocument (last : Char) (route : List Char) : List Char :=
  if last = '/' then route ++ "index.html".toList else route

/-- The extension of a file that has none. -/
def defaultExtension (fileURL : List Char) : List Char :=
  match strrchr '.' fileURL with
  | none | some 0 => fileURL ++ ".html".toList
  | some _ => fileURL

/-- `getFileURL`, with the character in front of the route. -/
def getFileURL (before : Char) (route : List Char) : FileURL :=
  let route := stripQuery route
  let index := (route.length : Int) - 1
  let route := defaultDocument (route.getLast?.getD before) route
  ⟨index, defaultExtension (webRoot ++ route)⟩

/-- A route without a question mark stays. -/
theorem stripQuery_of_notMem {route : List Char} (h : '?' ∉ route) : stripQuery route = route := by
  rw [stripQuery, strrchr_of_notMem h]

/-- The last question mark is cut off, with what is behind it. -/
theorem stripQuery_append (path : List Char) {query : List Char} (h : '?' ∉ query) :
    stripQuery (path ++ '?' :: query) = path := by
  rw [stripQuery, strrchr_append path h]
  exact List.take_left

/-- The name begins with a slash, so a dot in it is an extension. -/
theorem defaultExtension_eq (route : List Char) :
    defaultExtension (webRoot ++ route) =
      if '.' ∈ webRoot ++ route then webRoot ++ route else webRoot ++ route ++ ".html".toList := by
  unfold defaultExtension
  by_cases h : '.' ∈ webRoot ++ route
  · rw [if_pos h]
    obtain ⟨front, back, heq, hback⟩ := eq_append_cons_of_mem h
    cases front with
    | nil => cases congrArg List.head? heq
    | cons c front =>
        rw [heq, strrchr_append _ hback]
        rfl
  · rw [if_neg h, strrchr_of_notMem h]

/-! ## Routes and files -/

/-- A path with the default document where it ends in a slash. -/
def indexed (path : List Char) : List Char :=
  if path.getLast? = some '/' then path ++ "index.html".toList else path

/-- The file of a path, with the default extension where the last segment has no dot. -/
def routeFile (path : List Char) : List Char :=
  if '.' ∈ lastSegment (webRoot ++ indexed path) then webRoot ++ indexed path
  else webRoot ++ indexed path ++ ".html".toList

/-- The characters of the route are in the name of the file. -/
theorem mem_fileURL (before : Char) {route : List Char} {c : Char} (h : c ∈ stripQuery route) :
    c ∈ (getFileURL before route).fileURL := by
  have hdocument : c ∈ webRoot ++
      defaultDocument ((stripQuery route).getLast?.getD before) (stripQuery route) := by
    refine List.mem_append_right _ ?_
    unfold defaultDocument
    split
    · exact List.mem_append_left _ h
    · exact h
  show c ∈ defaultExtension _
  rw [defaultExtension_eq]
  split
  · exact hdocument
  · exact List.mem_append_left _ hdocument

/-- No question mark is added. -/
theorem question_notMem_routeFile {path : List Char} (h : '?' ∉ path) : '?' ∉ routeFile path := by
  have hfixed : '?' ∉ webRoot ∧ '?' ∉ "index.html".toList ∧ '?' ∉ ".html".toList := by decide
  have hindexed : '?' ∉ indexed path := by
    unfold indexed
    split
    · exact fun hmem => (List.mem_append.1 hmem).elim h hfixed.2.1
    · exact h
  have hfile : '?' ∉ webRoot ++ indexed path := fun hmem =>
    (List.mem_append.1 hmem).elim hfixed.1 hindexed
  unfold routeFile
  split
  · exact hfile
  · exact fun hmem => (List.mem_append.1 hmem).elim hfile hfixed.2.2

/-- A route that is not empty is tested for its own last character. -/
theorem defaultDocument_eq {path : List Char} (hne : path ≠ []) (before : Char) :
    defaultDocument (path.getLast?.getD before) path = indexed path := by
  rw [defaultDocument, indexed, List.getLast?_eq_some_getLast hne, Option.getD_some]
  exact if_congr (by rw [Option.some.injEq]) rfl rfl

/-- A dot in the file is in its last segment under the condition on the path. -/
theorem dot_mem_lastSegment_iff {path : List Char} (hslash : path.head? = some '/') :
    ('.' ∈ webRoot ++ indexed path → '.' ∈ lastSegment (webRoot ++ indexed path)) ↔
      '.' ∉ path ∨ path.getLast? = some '/' ∨ '.' ∈ lastSegment path := by
  have hroot : '.' ∉ webRoot := by decide
  by_cases hlast : path.getLast? = some '/'
  · obtain ⟨front, rfl⟩ := List.getLast?_eq_some_iff.1 hlast
    have hsegment : lastSegment (webRoot ++ indexed (front ++ ['/'])) = "index.html".toList := by
      rw [indexed, if_pos hlast, List.append_assoc, ← List.append_assoc]
      exact lastSegment_slash _ (by decide)
    rw [hsegment]
    exact iff_of_true (fun _ => by decide) (.inr (.inl hlast))
  · obtain ⟨front, back, rfl, hback⟩ := eq_append_cons_of_mem (List.mem_of_head? hslash)
    have hsegment : lastSegment (webRoot ++ indexed (front ++ '/' :: back)) =
        lastSegment (front ++ '/' :: back) := by
      rw [indexed, if_neg hlast, ← List.append_assoc, lastSegment_slash _ hback,
        lastSegment_slash _ hback]
    rw [hsegment, indexed, if_neg hlast, List.mem_append]
    tauto

/-- A path is mapped to its file exactly when a dot in it is in its last segment, or it ends in a
slash. -/
theorem fileURL_path_iff (before : Char) {path : List Char} (hslash : path.head? = some '/')
    (hquery : '?' ∉ path) :
    (getFileURL before path).fileURL = routeFile path ↔
      '.' ∉ path ∨ path.getLast? = some '/' ∨ '.' ∈ lastSegment path := by
  have hne : path ≠ [] := by
    rintro rfl
    cases hslash
  have hfile : (getFileURL before path).fileURL = defaultExtension (webRoot ++ indexed path) := by
    rw [getFileURL, stripQuery_of_notMem hquery, defaultDocument_eq hne]
  have hsub : '.' ∈ lastSegment (webRoot ++ indexed path) → '.' ∈ webRoot ++ indexed path :=
    fun hmem => (List.rtakeWhile_suffix _ _).subset hmem
  have hlonger : webRoot ++ indexed path ≠ webRoot ++ indexed path ++ ".html".toList := by
    intro heq
    have hlength := congrArg List.length heq
    rw [@List.length_append _ _ ".html".toList] at hlength
    have hfive : ".html".toList.length = 5 := by decide
    omega
  rw [hfile, defaultExtension_eq, routeFile, ← dot_mem_lastSegment_iff hslash]
  by_cases hdot : '.' ∈ webRoot ++ indexed path
  · by_cases hsegment : '.' ∈ lastSegment (webRoot ++ indexed path)
    · rw [if_pos hdot, if_pos hsegment]
      exact iff_of_true rfl fun _ => hsegment
    · rw [if_pos hdot, if_neg hsegment]
      exact iff_of_false hlonger fun h => hsegment (h hdot)
  · rw [if_neg hdot, if_neg fun hsegment => hdot (hsub hsegment)]
    exact iff_of_true rfl fun h => absurd h hdot

/-- A path and the path with a query are mapped to the file of the path exactly when there is no
other `?` in the query, and a dot in the path is in its last segment or the path ends in a slash. -/
theorem getFileURL_maps_iff (before : Char) (path query : List Char)
    (hslash : path.head? = some '/') (hquery : '?' ∉ path) :
    ((getFileURL before path).fileURL = routeFile path ∧
        (getFileURL before (path ++ '?' :: query)).fileURL = routeFile path) ↔
      '?' ∉ query ∧ ('.' ∉ path ∨ path.getLast? = some '/' ∨ '.' ∈ lastSegment path) := by
  rw [fileURL_path_iff before hslash hquery]
  by_cases h : '?' ∈ query
  · refine iff_of_false (fun hboth => ?_) (fun hboth => hboth.1 h)
    -- the file has the first `?` in its name
    obtain ⟨front, back, rfl, hback⟩ := eq_append_cons_of_mem h
    have hstrip : stripQuery (path ++ '?' :: (front ++ '?' :: back)) = path ++ '?' :: front := by
      rw [← List.cons_append, ← List.append_assoc]
      exact stripQuery_append _ hback
    have hmem : '?' ∈ (getFileURL before (path ++ '?' :: (front ++ '?' :: back))).fileURL := by
      refine mem_fileURL before ?_
      rw [hstrip]
      exact List.mem_append_right _ List.mem_cons_self
    rw [hboth.2] at hmem
    exact question_notMem_routeFile hquery hmem
  · have hsame : (getFileURL before (path ++ '?' :: query)).fileURL =
        (getFileURL before path).fileURL := by
      rw [getFileURL, getFileURL, stripQuery_append path h, stripQuery_of_notMem hquery]
    rw [hsame, fileURL_path_iff before hslash hquery]
    exact ⟨fun hboth => ⟨h, hboth.1⟩, fun hboth => ⟨hboth.2, hboth.2⟩⟩

/-- A style sheet with a version. -/
theorem styles_mapped :
    (getFileURL ' ' "/styles.css".toList).fileURL = routeFile "/styles.css".toList ∧
      (getFileURL ' ' "/styles.css?v=2".toList).fileURL = routeFile "/styles.css".toList :=
  (getFileURL_maps_iff ' ' "/styles.css".toList "v=2".toList (by decide) (by decide)).2 (by decide)

/-- A second `?` in the query stays in the name of the file. -/
theorem second_question_mapped :
    (getFileURL ' ' "/index?q=a?b".toList).fileURL = "/var/www/index?q=a.html".toList ∧
      routeFile "/index".toList = "/var/www/index.html".toList := by
  decide +kernel

/-! ## The web root -/

/-- The place of the web root. -/
def webPlace : List (List Char) := ["var".toList, "www".toList]

/-- The walk over a route, behind `/var/www`, ends in the web root: its first segment belongs to the
name that begins with `www`. -/
def Stays (route : List Char) : Prop :=
  webPlace <+: walk ["var".toList] (segments ("www".toList ++ route))

instance (route : List Char) : Decidable (Stays route) := inferInstanceAs (Decidable (_ <+: _))

/-- A route is walked from the directory of the site. -/
theorem resolve_webRoot (route : List Char) :
    resolve (webRoot ++ route) = walk ["var".toList] (segments ("www".toList ++ route)) := by
  have hroot : webRoot ++ route = [] ++ '/' :: ("var".toList ++ '/' :: ("www".toList ++ route)) :=
    rfl
  have hvar : segments "var".toList = ["var".toList] := by decide
  rw [resolve, hroot, segments_slash, segments_slash, hvar, walk_append, walk_append]
  rfl

/-- Without dot segments a route stays in the web root exactly when it begins with a slash. -/
theorem stays_plain_iff {route : List Char} (hne : route ≠ [])
    (h : ∀ s ∈ segments ("www".toList ++ route), s ≠ ['.'] ∧ s ≠ ['.', '.']) :
    Stays route ↔ route.head? = some '/' := by
  rw [Stays, walk_of_plain h]
  obtain ⟨c, cs, rfl⟩ := List.exists_cons_of_ne_nil hne
  by_cases hc : c = '/'
  · have hwww : segments "www".toList = ["www".toList] := by decide
    rw [hc, segments_slash, hwww]
    exact iff_of_true ⟨_, rfl⟩ rfl
  · -- the first segment is longer than `www`
    obtain ⟨name, rest, hname, hsegments⟩ : ∃ name rest, name ≠ [] ∧
        segments ("www".toList ++ c :: cs) = ("www".toList ++ name) :: rest := by
      have hletters : '/' ∉ "www".toList := by decide
      by_cases hslash : '/' ∈ c :: cs
      · obtain ⟨name, back, heq, hname⟩ := List.eq_append_cons_of_mem hslash
        have hfirst : '/' ∉ "www".toList ++ name := fun hmem =>
          (List.mem_append.1 hmem).elim hletters hname
        refine ⟨name, segments back, ?_, ?_⟩
        · rintro rfl
          exact hc (List.cons.inj heq).1
        · rw [heq, ← List.append_assoc, segments_slash, segments_of_notMem hfirst,
            List.singleton_append]
      · exact ⟨c :: cs, [], hne, segments_of_notMem fun hmem =>
          (List.mem_append.1 hmem).elim hletters hslash⟩
    refine iff_of_false (fun hfront => ?_) (fun hhead => hc (Option.some.inj hhead))
    rw [hsegments, List.filter_cons_of_pos (by simp)] at hfront
    have hwww := (List.cons_prefix_cons.1 (List.cons_prefix_cons.1 hfront).2).1
    exact hname (List.self_eq_append_right.1 hwww)

/-- The default document does not leave the web root, and is in it with its directory. -/
theorem stays_document {route : List Char} (h : route.getLast? = some '/') :
    Stays (route ++ "index.html".toList) ↔ Stays route := by
  obtain ⟨front, rfl⟩ := List.getLast?_eq_some_iff.1 h
  have hdocument : segments "index.html".toList = ["index.html".toList] := by decide
  have hnil : segments [] = [[]] := rfl
  rw [Stays, Stays, List.append_assoc, List.singleton_append, ← List.append_assoc,
    ← List.append_assoc, segments_slash, segments_slash, hdocument, hnil, walk_append, walk_append]
  show webPlace <+: walk _ _ ++ ["index.html".toList] ↔ _
  rw [List.prefix_concat_iff]
  refine or_iff_right fun heq => ?_
  have hlast := congrArg List.getLast? heq
  rw [List.getLast?_concat] at hlast
  cases hlast

/-- The default extension does not matter either. -/
theorem stays_extension {route : List Char} (hne : route ≠ []) (h : '.' ∉ route) :
    Stays (route ++ ".html".toList) ↔ Stays route := by
  have hletters : '.' ∉ "www".toList := by decide
  have hplain : ∀ s ∈ segments ("www".toList ++ route), '.' ∉ s := by
    intro s hs hdot
    exact (List.mem_append.1 (mem_of_mem_segments hs hdot)).elim hletters h
  have hsegments : ∀ s ∈ segments ("www".toList ++ route), s ≠ ['.'] ∧ s ≠ ['.', '.'] := by
    intro s hs
    constructor <;> rintro rfl <;> exact hplain _ hs List.mem_cons_self
  obtain ⟨front, last, hroute, happend⟩ := exists_segments_append ("www".toList ++ route)
  have hextended : ∀ s ∈ segments ("www".toList ++ (route ++ ".html".toList)),
      s ≠ ['.'] ∧ s ≠ ['.', '.'] := by
    intro s hs
    rw [← List.append_assoc, happend _ (by decide)] at hs
    rcases List.mem_append.1 hs with hfront | hlast
    · exact hsegments s (hroute ▸ List.mem_append_left _ hfront)
    · obtain rfl := List.mem_singleton.1 hlast
      constructor <;> intro heq <;>
        · have hlength := congrArg List.length heq
          simp at hlength
  rw [stays_plain_iff (by simp) hextended, stays_plain_iff hne hsegments,
    List.head?_append_of_ne_nil _ hne]

/-- The file of a route is in the web root, and no character in front of the route is read, exactly
when the route without its query is not empty and its walk stays in the web root. -/
theorem getFileURL_contained_iff (before : Char) (route : List Char) :
    (0 ≤ (getFileURL before route).index ∧
        webPlace <+: resolve (getFileURL before route).fileURL) ↔
      stripQuery route ≠ [] ∧ Stays (stripQuery route) := by
  have hindex : 0 ≤ (getFileURL before route).index ↔ stripQuery route ≠ [] := by
    show 0 ≤ ((stripQuery route).length : Int) - 1 ↔ _
    rw [← List.length_pos_iff]
    omega
  rw [hindex]
  refine and_congr_right fun hne => ?_
  have hfile : (getFileURL before route).fileURL =
      defaultExtension (webRoot ++ indexed (stripQuery route)) := by
    rw [getFileURL, defaultDocument_eq hne]
  rw [hfile, defaultExtension_eq]
  by_cases hlast : (stripQuery route).getLast? = some '/'
  · have hdot : '.' ∈ webRoot ++ (stripQuery route ++ "index.html".toList) :=
      List.mem_append_right _ (List.mem_append_right _ (by decide))
    rw [indexed, if_pos hlast, if_pos hdot, resolve_webRoot]
    exact stays_document hlast
  · rw [indexed, if_neg hlast]
    by_cases hdot : '.' ∈ webRoot ++ stripQuery route
    · rw [if_pos hdot, resolve_webRoot]
      exact Iff.rfl
    · rw [if_neg hdot, List.append_assoc, resolve_webRoot]
      exact stays_extension hne fun hmem => hdot (List.mem_append_right _ hmem)

/-- The buffers of a route of up to 75 characters. -/
theorem getFileURL_fits (before : Char) {route : List Char} (h : route.length ≤ 75) :
    (defaultDocument ((stripQuery route).getLast?.getD before) (stripQuery route)).length < 100 ∧
      (getFileURL before route).fileURL.length < 100 := by
  have hstrip : (stripQuery route).length ≤ route.length := by
    unfold stripQuery
    split
    · rw [List.length_take]
      exact Nat.min_le_right _ _
    · exact le_rfl
  have hlengths : webRoot.length = 8 ∧ "index.html".toList.length = 10 ∧
      ".html".toList.length = 5 := by decide
  have hdocument : (defaultDocument ((stripQuery route).getLast?.getD before)
      (stripQuery route)).length ≤ (stripQuery route).length + 10 := by
    unfold defaultDocument
    split
    · rw [List.length_append]
      omega
    · omega
  refine ⟨by omega, ?_⟩
  show (defaultExtension _).length < 100
  rw [defaultExtension_eq]
  split
  · rw [List.length_append]
    omega
  · rw [List.length_append, List.length_append]
    omega

/-- A route that goes up behind its slash leaves the web root. -/
theorem passwd_outside :
    (getFileURL ' ' "/../../etc/passwd".toList).fileURL = "/var/www/../../etc/passwd".toList ∧
      resolve (getFileURL ' ' "/../../etc/passwd".toList).fileURL =
        ["etc".toList, "passwd".toList] := by
  decide +kernel

end Soundcan.FluidUi
