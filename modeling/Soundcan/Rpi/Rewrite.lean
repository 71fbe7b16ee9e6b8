import Soundcan.Rpi.Honours

/-!
# What rpi-set-sysconf reads of the file that it has written

Whatever the file was, the settings that the script keeps are read again as they are: an entry that
was read of a line is read of the line that is printed for it (`Readable.readLine`), and the other
lines of the new file are remarks. So a second run of the script sets nothing and writes the same
file (`sysconf_again`).
-/

namespace Soundcan.Rpi

open Hash

/-! ## What is read of any line -/

/-- The key that is read: what stands behind the indent or, where nothing does, the last character
of the indent. -/
def readKey (x : List Char) : List Char :=
  if x.dropWhile space = [] then x.getLast?.toList else x.dropWhile space

/-- A setting is matched whenever something stands in front of its `=`. -/
theorem first_settingRegex_of_ne_nil {x y nl : List Char} (hx : '=' ∉ x) (hne : x ≠ [])
    (hy : '\n' ∉ y) (hnl : nl = [] ∨ nl = ['\n']) :
    ∃ t rest, settingRegex.first (x ++ '=' :: (y ++ nl)) =
      some ⟨t, [readKey x, y.dropWhile space], rest⟩ := by
  rw [readKey]
  split
  next hblank =>
    obtain ⟨indent, c, rfl⟩ := List.eq_nil_or_concat x |>.resolve_left hne
    rw [List.concat_eq_append] at *
    rw [List.dropWhile_eq_nil_iff, List.forall_mem_append, List.forall_mem_singleton] at hblank
    have hequals : ∀ c ∈ ('=' :: (y ++ nl)).head?, ¬space c = true := by simp [space]
    obtain ⟨more, hsplits⟩ := Regex.splits_concat_append hblank.1 hblank.2 hequals
    have htries : (Regex.many space).tries (indent ++ [c] ++ '=' :: (y ++ nl)) =
        ⟨indent ++ [c], [], '=' :: (y ++ nl)⟩ :: ⟨indent, [], c :: '=' :: (y ++ nl)⟩ ::
          more.map fun p => ⟨p.1, [], p.2⟩ := by
      rw [Regex.tries_many, List.append_assoc, List.singleton_append, hsplits]
      rfl
    have hequals : settingTail.tries ('=' :: (y ++ nl)) = [] := rfl
    have hkey : '=' ∉ [c] := fun hmem => hx (List.mem_append_right _ hmem)
    obtain ⟨t, rest, htail⟩ := first_settingTail hkey (List.cons_ne_nil c []) hy hnl
    rw [List.getLast?_concat]
    exact ⟨_, _, Regex.first_seq_second htries hequals htail⟩
  next hindent => exact first_settingRegex hx hindent hy hnl

/-- Nothing is matched in front of which the line has its `=`. -/
theorem first_settingRegex_equals (s : List Char) : settingRegex.first ('=' :: s) = none := rfl

/-- What is read of a line, documented or not. -/
theorem readLine_eq_ite {text line : List Char} (hline : line ∈ getlines text) :
    readLine line = if '=' ∈ body line ∧ keyPart line ≠ [] then
        some (lc (readKey (keyPart line)), (valuePart line ++ bare line).dropWhile space)
      else none := by
  obtain ⟨nl, hchomp, hnl⟩ : ∃ nl, line = chomp line ++ nl ∧ (nl = [] ∨ nl = ['\n']) := by
    rcases mem_getlines hline with ⟨heq, -⟩ | heq
    · exact ⟨[], by rwa [List.append_nil], .inl rfl⟩
    · exact ⟨_, heq, .inr rfl⟩
  have hreplace : commentRegex.replace [] line = body line ++ bare line ++ nl := by
    conv_lhs => rw [hchomp]
    exact replace_commentRegex line hnl
  rw [readLine, hreplace]
  by_cases hmem : '=' ∈ body line
  · have hline' : body line ++ bare line ++ nl =
        keyPart line ++ '=' :: (valuePart line ++ bare line ++ nl) := by
      conv_lhs => rw [body_eq hmem]
      simp only [List.append_assoc, List.cons_append]
    rw [hline']
    by_cases hkey : keyPart line = []
    · rw [if_neg (fun h => h.2 hkey), hkey, List.nil_append, first_settingRegex_equals]
    · have hvalue : '\n' ∉ valuePart line ++ bare line := by
        rw [List.mem_append, not_or]
        exact ⟨newline_notMem_valuePart line, newline_notMem_bare line⟩
      obtain ⟨t, rest, hfirst⟩ := first_settingRegex_of_ne_nil (equals_notMem_keyPart line) hkey
        hvalue hnl
      rw [hfirst, if_pos ⟨hmem, hkey⟩]
  · have hnot : '=' ∉ body line ++ bare line ++ nl := by
      rw [List.mem_append, List.mem_append, not_or, not_or]
      refine ⟨⟨hmem, ?_⟩, ?_⟩
      · rw [bare]
        split <;> decide
      · rcases hnl with rfl | rfl <;> decide
    rw [first_settingRegex_none hnot, if_neg fun h => hmem h.1]

/-! ## Entries that are read again -/

/-- A key that has been read is read as it is. -/
theorem readKey_readKey (x : List Char) : readKey (readKey x) = readKey x := by
  by_cases h : x.dropWhile space = []
  · rw [readKey, readKey, if_pos h]
    cases x.getLast? with
    | none => rfl
    | some c =>
        show (if [c].dropWhile space = [] then [c] else [c].dropWhile space) = [c]
        by_cases hc : space c = true
        · have hnil : [c].dropWhile space = [] := List.dropWhile_cons_of_pos hc
          rw [if_pos hnil]
        · rw [List.dropWhile_cons_of_neg hc, if_neg (List.cons_ne_nil _ _)]
  · have hagain : (x.dropWhile space).dropWhile space = x.dropWhile space :=
      List.dropWhile_idempotent _ _
    have hkey : readKey x = x.dropWhile space := if_neg h
    rw [hkey, readKey, hagain, if_neg h]

/-- Reading a key and taking it to lower case can be done in either order. -/
theorem readKey_lc (x : List Char) : readKey (lc x) = lc (readKey x) := by
  have hspace : space ∘ Char.toLower = space := funext space_toLower
  have hindent : (lc x).dropWhile space = lc (x.dropWhile space) := by
    rw [lc, List.dropWhile_map, hspace, lc]
  rw [readKey, readKey, hindent, getLast?_lc]
  by_cases h : x.dropWhile space = []
  · have hnil : lc (x.dropWhile space) = [] := by rw [h]; rfl
    rw [if_pos h, if_pos hnil]
    cases x.getLast? <;> rfl
  · have hne : lc (x.dropWhile space) ≠ [] := fun hnil => h (List.map_eq_nil_iff.1 hnil)
    rw [if_neg h, if_neg hne]

/-- A key that is not empty is read as one that is not empty. -/
theorem readKey_ne_nil {x : List Char} (h : x ≠ []) : readKey x ≠ [] := by
  rw [readKey]
  split
  next =>
    rw [List.getLast?_eq_getLast_of_ne_nil h]
    exact List.cons_ne_nil _ _
  next hindent => exact hindent

/-- A key is read without adding a character. -/
theorem mem_of_mem_readKey {c : Char} {x : List Char} (h : c ∈ readKey x) : c ∈ x := by
  rw [readKey] at h
  split at h
  next => exact List.mem_of_getLast? (Option.mem_toList.1 h)
  next => exact (List.dropWhile_sublist _).subset h

/-- A text that has a `#` at its end at most. -/
def HashLast (s : List Char) : Prop := s.dropWhile (· ≠ '#') = [] ∨ s.dropWhile (· ≠ '#') = ['#']

/-- An entry that is read again of the line that is printed for it. -/
structure Readable (e : List Char × List Char) : Prop where
  key : readKey e.1 = e.1
  lower : lc e.1 = e.1
  nonempty : e.1 ≠ []
  printed : Printed e
  indent : e.2.dropWhile space = e.2
  hashLast : HashLast e.2

/-- A hash at the end stays there when blanks are cut off the front. -/
theorem hashLast_dropWhile {s t : List Char} (ht : '#' ∉ t) (hs : s = [] ∨ s = ['#']) :
    HashLast ((t ++ s).dropWhile space) := by
  have hall : ∀ u : List Char, '#' ∉ u → (u ++ s).dropWhile (· ≠ '#') = s := by
    intro u hu
    rw [List.dropWhile_append_of_pos (decide_ne_of_notMem hu)]
    rcases hs with rfl | rfl <;> rfl
  have hrest : (t ++ s).dropWhile space = t.dropWhile space ++ s := by
    rw [List.dropWhile_append]
    split
    next hempty =>
      rw [List.isEmpty_iff.1 hempty]
      rcases hs with rfl | rfl <;> rfl
    next => rfl
  have hnot : '#' ∉ t.dropWhile space := fun hmem => ht ((List.dropWhile_sublist _).subset hmem)
  rw [HashLast, hrest, hall _ hnot]
  exact hs

/-- What is read of a line is readable. -/
theorem readable_of_readLine {text line : List Char} {e : List Char × List Char}
    (hline : line ∈ getlines text) (he : readLine line = some e) : Readable e := by
  rw [readLine_eq_ite hline] at he
  split at he
  next h =>
    obtain rfl := Option.some.inj he
    refine ⟨?_, lc_lc _, ?_, ⟨fun d hd hmem => ?_, fun hmem => ?_⟩, ?_, ?_⟩
    · show readKey (lc (readKey (keyPart line))) = lc (readKey (keyPart line))
      rw [readKey_lc, readKey_readKey]
    · exact fun hnil => readKey_ne_nil h.2 (List.map_eq_nil_iff.1 hnil)
    · exact notMem_keyPart hd (mem_of_mem_readKey (mem_of_mem_lc hd hmem))
    · have hvalue := (List.dropWhile_sublist _).subset hmem
      rw [List.mem_append] at hvalue
      exact hvalue.elim (newline_notMem_valuePart line) (newline_notMem_bare line)
    · exact List.dropWhile_idempotent _ _
    · have hnot : '#' ∉ valuePart line := fun hmem =>
        hash_notMem_body line ((List.dropWhile_sublist _).subset (List.mem_of_mem_tail hmem))
      refine hashLast_dropWhile hnot ?_
      rw [bare]
      split
      next => exact .inr rfl
      next => exact .inl rfl
  next => cases he

/-- Every setting that is read can be read again. -/
theorem readable_of_mem_readConf {file : Option (List Char)} {e : List Char × List Char}
    (h : e ∈ readConf file) : Readable e := by
  cases file with
  | none => cases h
  | some text =>
      rw [readConf, mem_ofPairs_filterMap] at h
      obtain ⟨pre, line, post, hlines, he, -⟩ := h
      have hline : line ∈ (getlines text).takeWhile truth := by
        rw [hlines]
        exact List.mem_append_right _ List.mem_cons_self
      exact readable_of_readLine ((List.takeWhile_sublist _).subset hline) he

/-- A readable entry is read again. -/
theorem Readable.readLine {e : List Char × List Char} (h : Readable e) :
    readLine (settingLine e ++ ['\n']) = some e := by
  have hnewline : '\n' ∉ settingLine e := by
    rw [settingLine, List.mem_append, List.mem_cons, not_or, not_or]
    exact ⟨h.printed.key _ (by decide), by decide, h.printed.value⟩
  have hline : settingLine e ++ ['\n'] ∈ getlines (print [settingLine e]) := by
    rw [getlines_print (List.forall_mem_singleton.2 hnewline), List.map_singleton]
    exact List.mem_cons_self
  have hchomp : chomp (settingLine e ++ ['\n']) = settingLine e := takeWhile_ne_append hnewline
  have hkeyHash := decide_ne_of_notMem (h.printed.key '#' (by decide))
  have hbody : body (settingLine e ++ ['\n']) = e.1 ++ '=' :: e.2.takeWhile (· ≠ '#') := by
    rw [body, hchomp, settingLine, List.takeWhile_append_of_pos hkeyHash,
      List.takeWhile_cons_of_pos (by decide)]
  have hcomment : comment (settingLine e ++ ['\n']) = e.2.dropWhile (· ≠ '#') := by
    rw [comment, hchomp, settingLine, List.dropWhile_append_of_pos hkeyHash,
      List.dropWhile_cons_of_pos (by decide)]
  have hkey : keyPart (settingLine e ++ ['\n']) = e.1 := by
    rw [keyPart, hbody]
    exact takeWhile_ne_append (h.printed.key _ (by decide))
  have hvalue : valuePart (settingLine e ++ ['\n']) = e.2.takeWhile (· ≠ '#') := by
    rw [valuePart, hbody,
      List.dropWhile_append_of_pos (decide_ne_of_notMem (h.printed.key _ (by decide)))]
    rfl
  have hbare : bare (settingLine e ++ ['\n']) = e.2.dropWhile (· ≠ '#') := by
    rw [bare, hcomment]
    rcases h.hashLast with hnil | hsharp
    · rw [hnil, if_neg (by decide)]
    · rw [hsharp, if_pos rfl]
  have hmem : '=' ∈ body (settingLine e ++ ['\n']) := by
    rw [hbody]
    exact List.mem_append_right _ List.mem_cons_self
  rw [readLine_eq_ite hline, hkey, hvalue, hbare, List.takeWhile_append_dropWhile, h.key, h.lower,
    h.indent, if_pos ⟨hmem, h.nonempty⟩]

/-- Nothing is read of a remark. -/
theorem readLine_remark {line : List Char} (h : Remark line) :
    readLine (line ++ ['\n']) = none := by
  have hline : line ++ ['\n'] ∈ getlines (print [line]) := by
    rw [getlines_print (List.forall_mem_singleton.2 h.1), List.map_singleton]
    exact List.mem_cons_self
  have hchomp : chomp (line ++ ['\n']) = line := takeWhile_ne_append h.1
  have hbody : body (line ++ ['\n']) = [] := by
    rw [body, hchomp]
    rcases h.2 with rfl | hhead
    · rfl
    · obtain ⟨s, rfl⟩ := List.head?_eq_some_iff.1 hhead
      exact List.takeWhile_cons_of_neg (by decide)
  rw [readLine_eq_ite hline, hbody, if_neg fun hmem => List.not_mem_nil hmem.1]

/-! ## The second run -/

/-- Of the rewritten file exactly the entries are read, in their order. -/
theorem readConf_confLines {entries : Conf} (h : ∀ e ∈ entries, Readable e)
    (hnodup : (entries.map Prod.fst).Nodup) :
    readConf (some (print (confLines entries))) = entries := by
  have hlines := getlines_print (newline_notMem_confLines fun e he => (h e he).printed)
  have htruth : (getlines (print (confLines entries))).takeWhile truth =
      getlines (print (confLines entries)) := by
    rw [List.takeWhile_eq_self_iff, hlines]
    intro line hline
    obtain ⟨line', -, rfl⟩ := List.mem_map.1 hline
    rw [truth, decide_eq_true_eq]
    refine ⟨List.append_ne_nil_of_right_ne_nil _ (List.cons_ne_nil _ _), fun hzero => ?_⟩
    have hlast := congrArg List.getLast? hzero
    rw [List.getLast?_concat] at hlast
    exact absurd hlast (by decide)
  have hremarks : ∀ lines : List (List Char), (∀ line ∈ lines, Remark line) →
      (lines.map fun line => line ++ ['\n']).filterMap readLine = [] := by
    intro lines hremark
    rw [List.filterMap_map, List.filterMap_eq_nil_iff]
    exact fun line hline => readLine_remark (hremark line hline)
  have hentries : ((entries.map settingLine).map fun line => line ++ ['\n']).filterMap readLine =
      entries := by
    rw [List.map_map, List.filterMap_map]
    conv_rhs => rw [← List.filterMap_some (l := entries)]
    exact List.filterMap_congr fun e he => (h e he).readLine
  rw [readConf, htruth, hlines, confLines, List.map_append, List.filterMap_append,
    hremarks _ fun line hline => remark_fixed line (List.mem_append_left _ hline),
    List.nil_append]
  split
  next hnil => rw [hnil]; rfl
  next =>
    rw [List.map_append, List.filterMap_append,
      hremarks _ fun line hline => remark_fixed line (List.mem_append_right _ hline),
      List.nil_append, hentries, ofPairs_of_nodup hnodup]

/-- The order of the keys. -/
def keyLe (key key' : List Char) : Bool :=
  !key'.lex key fun c c' => decide (c.toNat < c'.toNat)

/-- A key comes first unless the other is smaller. -/
theorem keyLe_iff {key key' : List Char} :
    keyLe key key' = true ↔ ¬List.Lex (· < ·) key' key := by
  have hlex : key'.lex key (fun c c' => decide (c.toNat < c'.toNat)) =
      decide (List.Lex (· < ·) key' key) := by
    rw [List.lex_eq_decide_lex, decide_eq_decide]
    simp only [decide_eq_true_eq]
    exact Iff.rfl
  rw [keyLe, hlex, Bool.not_eq_true', decide_eq_false_iff_not]

/-- The order of the keys is transitive. -/
theorem keyLe_trans (key₁ key₂ key₃ : List Char) (h : keyLe key₁ key₂ = true)
    (h' : keyLe key₂ key₃ = true) : keyLe key₁ key₃ = true := by
  rw [keyLe_iff] at h h' ⊢
  exact List.le_trans (List.not_lt.1 h) (List.not_lt.1 h')

/-- The order of the keys is total. -/
theorem keyLe_total (key key' : List Char) : (keyLe key key' || keyLe key' key) = true := by
  rw [Bool.or_eq_true, keyLe_iff, keyLe_iff]
  exact (List.le_total key key').imp List.not_lt.2 List.not_lt.2

/-- Sorted settings are in their order. -/
theorem sorted_sorted {conf : Conf} (h : (conf.map Prod.fst).Nodup) :
    sorted (sorted conf) = sorted conf := by
  have hperm := sorted_perm h
  have hnodup : ((sorted conf).map Prod.fst).Nodup := (hperm.map Prod.fst).nodup_iff.2 h
  have hkeys : (sorted conf).map Prod.fst = (conf.map Prod.fst).mergeSort keyLe := by
    have hvalue : ∀ key ∈ (conf.map Prod.fst).mergeSort keyLe, ∃ v, value conf key = some v := by
      intro key hkey
      rw [List.mem_mergeSort] at hkey
      obtain ⟨e, he, rfl⟩ := List.mem_map.1 hkey
      exact ⟨e.2, (value_eq_some h).2 he⟩
    rw [sorted, List.map_filterMap]
    conv_rhs => rw [← List.filterMap_some (l := (conf.map Prod.fst).mergeSort keyLe)]
    refine List.filterMap_congr fun key hkey => ?_
    obtain ⟨v, hv⟩ := hvalue key hkey
    rw [hv]
    rfl
  have hsort : ((sorted conf).map Prod.fst).mergeSort keyLe = (sorted conf).map Prod.fst := by
    refine List.mergeSort_of_pairwise ?_
    rw [hkeys]
    exact List.pairwise_mergeSort keyLe_trans keyLe_total _
  have hvalues : ∀ key, value (sorted conf) key = value conf key :=
    value_congr hnodup h hperm
  have hagain : sorted (sorted conf) = (((sorted conf).map Prod.fst).mergeSort keyLe).filterMap
      fun key => (value (sorted conf) key).map fun v => (key, v) := rfl
  rw [hagain, hsort, hkeys]
  simp only [hvalues]
  rfl

/-- Run again on the file that it has written, the script sets no password, no key and no host name,
and writes the same file. -/
theorem sysconf_again (file : Option (List Char)) :
    sysconf (some (sysconf file).file) =
      { chpasswd := none
        authorizedKeys := none
        hostname := none
        file := (sysconf file).file } := by
  let kept := (readConf file).filter fun e => e.1 ∉ known
  have hnodup : (kept.map Prod.fst).Nodup := nodup_keys_filter (nodup_keys_readConf file) _
  have hperm := sorted_perm hnodup
  have hsorted : ((sorted kept).map Prod.fst).Nodup := (hperm.map Prod.fst).nodup_iff.2 hnodup
  have hkept : ∀ e ∈ sorted kept, Readable e ∧ e.1 ∉ known := by
    intro e he
    obtain ⟨hread, hnot⟩ := List.mem_filter.1 (hperm.mem_iff.1 he)
    exact ⟨readable_of_mem_readConf hread, of_decide_eq_true hnot⟩
  have hfile : (sysconf file).file = print (confLines (sorted kept)) := by
    rw [sysconf_eq]
    rfl
  have hread : readConf (some (sysconf file).file) = sorted kept := by
    rw [hfile]
    exact readConf_confLines (fun e he => (hkept e he).1) hsorted
  have hvalue : ∀ key ∈ known, value (sorted kept) key = none := by
    intro key hkey
    rw [Option.eq_none_iff_forall_ne_some]
    intro v hv
    exact (hkept _ ((value_eq_some hsorted).1 hv)).2 hkey
  have hall : (sorted kept).filter (fun e => e.1 ∉ known) = sorted kept :=
    List.filter_eq_self.2 fun e he => decide_eq_true (hkept e he).2
  rw [sysconf_eq, hread, hvalue _ (by decide), hvalue _ (by decide), hvalue _ (by decide), hall,
    rewriteConfFile, sorted_sorted hnodup, ← hfile]
  rfl

end Soundcan.Rpi
