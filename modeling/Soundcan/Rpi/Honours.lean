import Soundcan.Rpi.Sysconf

/-!
# When rpi-set-sysconf honours its format

`sysconf_honours_iff` compares what the script does with the settings that the format gives a file.
A key is read with the white space in front of its `=`, so that it is none that the script knows and
stays in the file; a value is read with the white space behind it and with a `#` that has nothing
behind it.
-/

namespace Soundcan.Rpi

open Hash

/-! ## What the format says and what is read -/

/-- Cutting blanks off the front keeps the last character, where there is more. -/
theorem getLast?_dropWhile {s : List Char} (h : s.dropWhile space ≠ []) :
    (s.dropWhile space).getLast? = s.getLast? := by
  conv_rhs => rw [← List.takeWhile_append_dropWhile (p := space) (l := s)]
  rw [List.getLast?_append_of_ne_nil _ h]

/-- A text is trimmed behind its indent where it is empty there or does not end in white space. -/
theorem trim_eq_iff (s : List Char) :
    trim s = s.dropWhile space ↔
      Blank s ∨ TightEnd s := by
  rw [trim, List.rdropWhile_eq_self_iff, Blank, TightEnd, ← List.dropWhile_eq_nil_iff]
  by_cases h : s.dropWhile space = []
  · exact iff_of_true (fun hne => absurd h hne) (.inl h)
  · rw [← getLast?_dropWhile h, List.getLast?_eq_getLast_of_ne_nil h]
    simp [h]

/-- A trimmed text does not end in white space. -/
theorem getLast?_trim (s : List Char) : TightEnd (trim s) := by
  intro c hc
  by_cases h : trim s = []
  · rw [h] at hc
    cases hc
  · rw [List.getLast?_eq_getLast_of_ne_nil h, Option.mem_some_iff] at hc
    have hlast : ¬ space ((trim s).getLast h) = true :=
      List.rdropWhile_last_not space (s.dropWhile space) h
    rwa [← hc, ← Bool.not_eq_true]

/-- Behind `Z` no character changes in lower case. -/
theorem toLower_of_le {c : Char} (h : 91 ≤ c.toNat) : c.toLower = c := by
  have hupper : ¬ (c.val ≥ 'A'.val ∧ c.val ≤ 'Z'.val) := by
    rintro ⟨-, hle⟩
    have hle' : c.toNat ≤ 'Z'.toNat := hle
    have hz : 'Z'.toNat = 90 := rfl
    omega
  exact dif_neg hupper

/-- What is said of a character and its lower case needs a proof up to `Z`, and behind it for the
character and itself. -/
theorem toLower_cases {p : Char → Char → Prop}
    (hall : ∀ n < 91, p (Char.ofNat n) (Char.ofNat n).toLower)
    (hself : ∀ c : Char, 91 ≤ c.toNat → p c c) (c : Char) : p c c.toLower := by
  rcases Nat.lt_or_ge c.toNat 91 with h | h
  · have hc := hall c.toNat h
    rwa [Char.ofNat_toNat] at hc
  · rw [toLower_of_le h]
    exact hself c h

/-- Lower case keeps white space. -/
theorem space_toLower (c : Char) : space c.toLower = space c := by
  have hall : ∀ n < 91, space (Char.ofNat n).toLower = space (Char.ofNat n) := by decide
  exact toLower_cases (p := fun c c' => space c' = space c) hall (fun _ _ => rfl) c

/-- Lower case keeps the length. -/
theorem length_lc (s : List Char) : (lc s).length = s.length := List.length_map _

/-- The last character in lower case is that of the text, in lower case. -/
theorem getLast?_lc (s : List Char) : (lc s).getLast? = s.getLast?.map Char.toLower :=
  List.getLast?_map

section
variable {line : List Char}

/-- The key that is read is the setting's where there is no white space in front of the `=`. -/
theorem key_eq_iff (h : Documented line) (hmem : '=' ∈ body line) :
    lc ((keyPart line).dropWhile space) = lc (trim (keyPart line)) ↔ KeyTight line := by
  have hne := dropWhile_keyPart_ne_nil h hmem
  have hnot : ¬ Blank (keyPart line) := by
    rwa [Blank, ← List.dropWhile_eq_nil_iff]
  have hiff := trim_eq_iff (keyPart line)
  rw [or_iff_right hnot] at hiff
  rw [KeyTight, ← hiff]
  refine ⟨fun heq => ?_, fun heq => by rw [heq]⟩
  have hlength := congrArg List.length heq
  rw [length_lc, length_lc] at hlength
  exact (List.rdropWhile_prefix _ _).eq_of_length hlength.symm

/-- Otherwise it ends in white space. -/
theorem key_ends_in_space (h : Documented line) (hmem : '=' ∈ body line)
    (htight : ¬ KeyTight line) :
    ∃ c ∈ (lc ((keyPart line).dropWhile space)).getLast?, space c = true := by
  rw [KeyTight, TightEnd] at htight
  push Not at htight
  obtain ⟨c, hc, hspace⟩ := htight
  refine ⟨c.toLower, ?_, ?_⟩
  · rw [getLast?_lc, getLast?_dropWhile (dropWhile_keyPart_ne_nil h hmem)]
    exact Option.mem_map_of_mem _ hc
  · rw [space_toLower]
    simpa using hspace

/-- A setting's key does not. -/
theorem key_not_ends_in_space (s : List Char) : TightEnd (lc (trim s)) := by
  intro c hc
  rw [getLast?_lc] at hc
  obtain ⟨c', hc', rfl⟩ := Option.mem_map.1 hc
  rw [space_toLower]
  exact getLast?_trim s c' hc'

/-- The value that is read is the setting's where nothing stands behind it. -/
theorem value_eq_iff (line : List Char) :
    (valuePart line ++ bare line).dropWhile space = trim (valuePart line) ↔ ValueTight line := by
  rw [bare, ValueTight]
  split
  next hsharp =>
    refine iff_of_false (fun heq => ?_) fun h => h.1 hsharp
    have hmem : '#' ∈ (valuePart line ++ ['#']).dropWhile space := by
      rw [List.dropWhile_append]
      split
      · exact List.mem_cons_self
      · exact List.mem_append_right _ List.mem_cons_self
    rw [heq, trim] at hmem
    have hvalue := (List.dropWhile_sublist _).subset ((List.rdropWhile_prefix _ _).subset hmem)
    exact hash_notMem_body line ((List.dropWhile_sublist _).subset (List.mem_of_mem_tail hvalue))
  next hsharp =>
    rw [List.append_nil, eq_comm, trim_eq_iff]
    exact (and_iff_right hsharp).symm

end

/-! ## The hash and the settings -/

/-- What a documented line sets. -/
theorem documented_eq_some {line : List Char} {e : List Char × List Char}
    (h : documented line = some e) :
    '=' ∈ body line ∧ e = (lc (trim (keyPart line)), trim (valuePart line)) := by
  unfold documented at h
  split at h
  next hmem => exact ⟨hmem, (Option.some.inj h).symm⟩
  next => cases h

section
variable {text : List Char}

/-- A file that is read has each key once. -/
theorem nodup_keys_readConf (file : Option (List Char)) :
    ((readConf file).map Prod.fst).Nodup := by
  cases file with
  | none => exact List.nodup_nil
  | some text => exact nodup_keys_ofPairs _

/-- The settings that a file documents have each key once. -/
theorem nodup_keys_settings (text : List Char) : ((settings text).map Prod.fst).Nodup :=
  nodup_keys_ofPairs _

/-- The key of a setting is read, where no white space follows it. -/
theorem readLine_of_documented {line : List Char} {e : List Char × List Char}
    (hline : line ∈ getlines text) (h : Documented line) (he : documented line = some e)
    (hkey : KeyTight line) :
    ∃ v, readLine line = some (e.1, v) ∧ (v = e.2 ↔ ValueTight line) := by
  obtain ⟨hmem, rfl⟩ := documented_eq_some he
  refine ⟨(valuePart line ++ bare line).dropWhile space, ?_, value_eq_iff line⟩
  rw [readLine_eq hline h, if_pos hmem, (key_eq_iff h hmem).2 hkey]

/-- What is read is of a setting. -/
theorem documented_of_readLine {line : List Char} {e : List Char × List Char}
    (hline : line ∈ getlines text) (h : Documented line) (he : readLine line = some e) :
    ∃ e', documented line = some e' := by
  rw [readLine_eq hline h] at he
  split at he
  next hmem => exact ⟨_, if_pos hmem⟩
  next => cases he

/-- Where the settings have their keys tight, the same keys are read. -/
theorem key_of_readLine {line : List Char} {e e' : List Char × List Char}
    (hline : line ∈ getlines text) (h : Documented line) (hkey : KeyTight line)
    (he : readLine line = some e) (he' : documented line = some e') : e.1 = e'.1 := by
  obtain ⟨v, hread, -⟩ := readLine_of_documented hline h he' hkey
  rw [he] at hread
  rw [Option.some.inj hread]

/-- The last line of a key is read last. -/
theorem mem_readConf_of_last (h : ∀ line ∈ getlines text, Documented line)
    (hkeys : ∀ line ∈ getlines text, ∀ e, documented line = some e → KeyTight line)
    {pre post : List (List Char)} {line : List Char} {e : List Char × List Char}
    (hlines : getlines text = pre ++ line :: post) (he : documented line = some e)
    (hpost : ∀ line' ∈ post, ∀ e', documented line' = some e' → e'.1 ≠ e.1) :
    ∃ v, (e.1, v) ∈ readConf (some text) ∧ (v = e.2 ↔ ValueTight line) := by
  have hline : line ∈ getlines text := by
    rw [hlines]
    exact List.mem_append_right _ List.mem_cons_self
  obtain ⟨v, hread, hiff⟩ := readLine_of_documented hline (h line hline) he (hkeys line hline e he)
  refine ⟨v, ?_, hiff⟩
  rw [readConf_eq h, mem_ofPairs_filterMap]
  refine ⟨pre, line, post, hlines, hread, fun line' hmem e' he' => ?_⟩
  have hline' : line' ∈ getlines text := by
    rw [hlines]
    exact List.mem_append_right _ (List.mem_cons_of_mem _ hmem)
  obtain ⟨e'', he''⟩ := documented_of_readLine hline' (h line' hline') he'
  have hkey := key_of_readLine hline' (h line' hline') (hkeys line' hline' e'' he'') he' he''
  rw [hkey]
  exact hpost line' hmem e'' he''

/-- In a tight file exactly the settings are read. -/
theorem readConf_perm_settings (h : ∀ line ∈ getlines text, Documented line) (htight : Tight text) :
    (readConf (some text)).Perm (settings text) := by
  refine perm_of_mem_iff (nodup_keys_readConf _) (nodup_keys_settings text) fun e => ?_
  constructor
  · intro he
    rw [readConf_eq h, mem_ofPairs_filterMap] at he
    obtain ⟨pre, line, post, hlines, hread, hpost⟩ := he
    have hmem : ∀ line', line' ∈ line :: post → line' ∈ getlines text := by
      intro line' hline'
      rw [hlines]
      exact List.mem_append_right _ hline'
    have hline := hmem line List.mem_cons_self
    obtain ⟨e', he'⟩ := documented_of_readLine hline (h line hline) hread
    have hkey := key_of_readLine hline (h line hline) (htight.key line hline e' he') hread he'
    have hlast : ∀ line' ∈ post, ∀ e'', documented line' = some e'' → e''.1 ≠ e'.1 := by
      intro line' hmem' e'' he''
      have hline' := hmem line' (List.mem_cons_of_mem _ hmem')
      obtain ⟨v, hread', -⟩ := readLine_of_documented hline' (h line' hline') he''
        (htight.key line' hline' e'' he'')
      rw [← hkey]
      exact hpost line' hmem' (e''.1, v) hread'
    obtain ⟨v, hread', hiff⟩ := readLine_of_documented hline (h line hline) he'
      (htight.key line hline e' he')
    have hvalue := hiff.2 (htight.value pre line post e' hlines he' hlast)
    have heq : e = e' := by
      rw [hread] at hread'
      rw [Option.some.inj hread', hvalue]
    rw [settings, mem_ofPairs_filterMap]
    exact ⟨pre, line, post, hlines, heq ▸ he', heq ▸ hlast⟩
  · intro he
    rw [settings, mem_ofPairs_filterMap] at he
    obtain ⟨pre, line, post, hlines, he, hpost⟩ := he
    obtain ⟨v, hmem, hiff⟩ := mem_readConf_of_last h htight.key hlines he hpost
    have hvalue := hiff.2 (htight.value pre line post e hlines he hpost)
    rwa [hvalue] at hmem

end

/-! ## What the script does with the hash -/

/-- The keys are looked up in the hash as it was read, and all known ones are deleted. -/
theorem sysconf_eq (file : Option (List Char)) :
    sysconf file =
      { chpasswd := ((value (readConf file) "root_pw".toList).filter truth).map fun pass =>
          "root:".toList ++ pass
        authorizedKeys := (value (readConf file) "root_authorized_key".toList).filter truth
        hostname := (value (readConf file) "hostname".toList).filter truth
        file := rewriteConfFile ((readConf file).filter fun e => e.1 ∉ known) } := by
  have herase : erase (erase (erase (readConf file) "root_pw".toList) "root_authorized_key".toList)
      "hostname".toList = (readConf file).filter fun e => e.1 ∉ known := by
    rw [erase, erase, erase, List.filter_filter, List.filter_filter]
    refine List.filter_congr fun e _ => ?_
    rw [Bool.eq_iff_iff]
    simp only [known, Bool.and_eq_true, decide_eq_true_eq, List.mem_cons, List.not_mem_nil,
      or_false, not_or]
    tauto
  simp only [sysconf]
  rw [herase, value_erase (by decide), value_erase (by decide), value_erase (by decide)]

/-- Sorting by the keys keeps the entries. -/
theorem sorted_perm {conf : Conf} (h : (conf.map Prod.fst).Nodup) : (sorted conf).Perm conf := by
  have hperm : (sorted conf).Perm ((conf.map Prod.fst).filterMap fun key =>
      (value conf key).map fun v => (key, v)) :=
    (List.mergeSort_perm _ _).filterMap _
  have heq : ((conf.map Prod.fst).filterMap fun key => (value conf key).map fun v => (key, v)) =
      conf := by
    rw [List.filterMap_map]
    conv_rhs => rw [← List.filterMap_some (l := conf)]
    refine List.filterMap_congr fun e he => ?_
    have hvalue := (value_eq_some h).2 he
    show (value conf e.1).map _ = _
    rw [hvalue]
    rfl
  rwa [heq] at hperm

/-! ## Keys and values of the entries -/

/-- Lower case makes no new character that the format knows. -/
theorem mem_of_mem_lc {d : Char} (hd : d ∈ ['=', '\n', '#']) {s : List Char} (h : d ∈ lc s) :
    d ∈ s := by
  have hall : ∀ n < 91, (Char.ofNat n).toLower ∈ ['=', '\n', '#'] →
      (Char.ofNat n).toLower = Char.ofNat n := by decide
  obtain ⟨c, hc, rfl⟩ := List.mem_map.1 h
  have hsame : c.toLower ∈ ['=', '\n', '#'] → c.toLower = c :=
    toLower_cases (p := fun c c' => c' ∈ ['=', '\n', '#'] → c' = c) hall (fun _ _ _ => rfl) c
  rwa [hsame hd]

/-- Trimming adds no character. -/
theorem mem_of_mem_trim {c : Char} {s : List Char} (h : c ∈ trim s) : c ∈ s :=
  (List.dropWhile_sublist _).subset ((List.rdropWhile_prefix _ _).subset h)

/-- The key holds no equals sign, line break or hash. -/
theorem notMem_keyPart {line : List Char} {d : Char} (hd : d ∈ ['=', '\n', '#']) :
    d ∉ keyPart line := by
  have hbody : d ∈ keyPart line → d ∈ body line := fun h => (List.takeWhile_sublist _).subset h
  simp only [List.mem_cons, List.not_mem_nil, or_false] at hd
  rcases hd with rfl | rfl | rfl
  · exact equals_notMem_keyPart line
  · exact fun h => newline_notMem_body line (hbody h)
  · exact fun h => hash_notMem_body line (hbody h)

/-- The entries of a file have keys and values that a line can have. -/
structure Printed (e : List Char × List Char) : Prop where
  key : ∀ d ∈ ['=', '\n', '#'], d ∉ e.1
  value : '\n' ∉ e.2

/-- A setting comes from a line of the file. -/
theorem exists_of_mem_settings {text : List Char} {e : List Char × List Char}
    (h : e ∈ settings text) : ∃ line ∈ getlines text, documented line = some e := by
  rw [settings, mem_ofPairs_filterMap] at h
  obtain ⟨pre, line, post, hlines, he, -⟩ := h
  rw [hlines]
  exact ⟨line, List.mem_append_right _ List.mem_cons_self, he⟩

/-- A setting can be written back on a line. -/
theorem settings_printed {text : List Char} {e : List Char × List Char} (h : e ∈ settings text) :
    Printed e := by
  obtain ⟨line, -, he⟩ := exists_of_mem_settings h
  obtain ⟨-, rfl⟩ := documented_eq_some he
  exact ⟨fun d hd hmem => notMem_keyPart hd (mem_of_mem_trim (mem_of_mem_lc hd hmem)),
    fun hmem => newline_notMem_valuePart line (mem_of_mem_trim hmem)⟩

/-- An entry that is read of a documented file can be written back on a line. -/
theorem readConf_printed {text : List Char} (hdocumented : ∀ line ∈ getlines text, Documented line)
    {e : List Char × List Char} (h : e ∈ readConf (some text)) : Printed e := by
  rw [readConf_eq hdocumented, mem_ofPairs_filterMap] at h
  obtain ⟨pre, line, post, hlines, he, -⟩ := h
  have hline : line ∈ getlines text := by
    rw [hlines]
    exact List.mem_append_right _ List.mem_cons_self
  rw [readLine_eq hline (hdocumented line hline)] at he
  split at he
  next =>
    obtain rfl := Option.some.inj he
    refine ⟨fun d hd hmem => ?_, fun hmem => ?_⟩
    · exact notMem_keyPart hd ((List.dropWhile_sublist _).subset (mem_of_mem_lc hd hmem))
    · have hvalue := (List.dropWhile_sublist _).subset hmem
      rw [List.mem_append] at hvalue
      exact hvalue.elim (newline_notMem_valuePart line) (newline_notMem_bare line)
  next => cases he

/-- Trimming is in any case the same. -/
theorem trim_lc (s : List Char) : trim (lc s) = lc (trim s) := by
  have hspace : space ∘ Char.toLower = space := funext space_toLower
  rw [trim, trim, lc, lc, List.dropWhile_map, hspace, List.rdropWhile, List.rdropWhile,
    ← List.map_reverse, List.dropWhile_map, hspace, List.map_reverse]

/-- Trimming twice is trimming once. -/
theorem trim_trim (s : List Char) : trim (trim s) = trim s := by
  have hindent : (trim s).dropWhile space = trim s := by
    cases hs : trim s with
    | nil => rfl
    | cons c t =>
        have hprefix : trim s <+: s.dropWhile space := List.rdropWhile_prefix _ _
        rw [hs] at hprefix
        obtain ⟨rest, hrest⟩ := hprefix
        have hnot := List.head?_dropWhile_not space s
        rw [← hrest] at hnot
        exact List.dropWhile_cons_of_neg (by simpa using hnot)
  have hend := (trim_eq_iff (trim s)).2 (.inr (getLast?_trim s))
  rw [hend, hindent]

/-- Lower case taken twice is lower case. -/
theorem lc_lc (s : List Char) : lc (lc s) = lc s := by
  have hall : ∀ n < 91, (Char.ofNat n).toLower.toLower = (Char.ofNat n).toLower := by decide
  rw [lc, lc, List.map_map]
  refine List.map_congr_left fun c _ => ?_
  exact toLower_cases (p := fun _ c' => c'.toLower = c') hall (fun _ => toLower_of_le) c

/-- The line of a setting is of the same key. -/
theorem documented_settingLine {text : List Char} {e e' : List Char × List Char}
    (h : e ∈ settings text) (he' : documented (settingLine e ++ ['\n']) = some e') :
    e'.1 = e.1 := by
  obtain ⟨hkey, hvalue⟩ := settings_printed h
  have hchomp : chomp (settingLine e ++ ['\n']) = settingLine e := by
    refine takeWhile_ne_append ?_
    rw [settingLine, List.mem_append, List.mem_cons, not_or, not_or]
    exact ⟨hkey _ (by decide), by decide, hvalue⟩
  have hpart : keyPart (settingLine e ++ ['\n']) = e.1 := by
    have hall : ∀ c ∈ e.1, decide (c ≠ '#') = true := by
      intro c hc
      have hne : c ≠ '#' := fun heq => hkey '#' (by decide) (heq ▸ hc)
      simpa using hne
    rw [keyPart, body, hchomp, settingLine, List.takeWhile_append_of_pos hall,
      List.takeWhile_cons_of_pos (by decide)]
    exact takeWhile_ne_append (hkey _ (by decide))
  obtain ⟨line, -, he⟩ := exists_of_mem_settings h
  obtain ⟨-, heq⟩ := documented_eq_some he
  obtain ⟨-, heq'⟩ := documented_eq_some he'
  rw [heq', hpart, heq]
  show lc (trim (lc (trim (keyPart line)))) = lc (trim (keyPart line))
  rw [trim_lc, trim_trim, lc_lc]

/-! ## The rewritten file -/

/-- A line that is empty or a comment. -/
def Remark (line : List Char) : Prop := '\n' ∉ line ∧ (line = [] ∨ line.head? = some '#')

instance (line : List Char) : Decidable (Remark line) := inferInstanceAs (Decidable (_ ∧ _))

/-- The fixed lines of the file are empty or comments. -/
theorem remark_fixed : ∀ line ∈ preamble.map String.toList ++ unhandled.map String.toList,
    Remark line := by
  simp only [preamble, unhandled, List.map_cons, List.map_nil, List.cons_append, List.nil_append]
  repeat' refine List.forall_mem_cons.2 ⟨?_, ?_⟩
  -- the characters of a literal without decoding its bytes
  all_goals first
    | exact fun _ h => absurd h List.not_mem_nil
    | rw [String.toList_ofList]
      decide

/-- A remark sets nothing. -/
theorem documented_remark {line : List Char} (h : Remark line) :
    documented (line ++ ['\n']) = none := by
  have hchomp : chomp (line ++ ['\n']) = line := takeWhile_ne_append h.1
  have hbody : body (line ++ ['\n']) = [] := by
    rw [body, hchomp]
    rcases h.2 with rfl | hhead
    · rfl
    · obtain ⟨s, rfl⟩ := List.head?_eq_some_iff.1 hhead
      exact List.takeWhile_cons_of_neg (by decide)
  rw [documented, hbody, if_neg List.not_mem_nil]

/-- The printed lines have no newline of their own. -/
theorem newline_notMem_confLines {entries : Conf} (h : ∀ e ∈ entries, Printed e) :
    ∀ line ∈ confLines entries, '\n' ∉ line := by
  intro line hline
  rw [confLines, List.mem_append] at hline
  rcases hline with hline | hline
  · exact (remark_fixed line (List.mem_append_left _ hline)).1
  · split at hline
    next => cases hline
    next =>
      rw [List.mem_append] at hline
      rcases hline with hline | hline
      · exact (remark_fixed line (List.mem_append_right _ hline)).1
      · obtain ⟨e, he, rfl⟩ := List.mem_map.1 hline
        have hnot := h e he
        rw [settingLine, List.mem_append, List.mem_cons, not_or, not_or]
        exact ⟨hnot.key _ (by decide), by decide, hnot.value⟩

/-- A line tells its key and its value. -/
theorem settingLine_inj {e e' : List Char × List Char} (h : '=' ∉ e.1) (h' : '=' ∉ e'.1)
    (heq : settingLine e = settingLine e') : e = e' := by
  have hkey : e.1 = e'.1 := by
    have htake := congrArg (List.takeWhile fun c => decide (c ≠ '=')) heq
    rwa [settingLine, settingLine, takeWhile_ne_append h, takeWhile_ne_append h'] at htake
  rw [settingLine, settingLine, hkey] at heq
  exact Prod.ext hkey (List.cons.inj (List.append_cancel_left heq)).2

/-- The lines of a configuration tell its entries. -/
theorem map_settingLine_inj {entries entries' : Conf} (h : ∀ e ∈ entries, '=' ∉ e.1)
    (h' : ∀ e ∈ entries', '=' ∉ e.1)
    (heq : entries.map settingLine = entries'.map settingLine) : entries = entries' := by
  induction entries generalizing entries' with
  | nil => exact (List.map_eq_nil_iff.1 heq.symm).symm
  | cons e entries ih =>
      cases entries' with
      | nil => cases heq
      | cons e' entries' =>
          obtain ⟨hhead, htail⟩ := List.cons.inj heq
          rw [settingLine_inj (h e List.mem_cons_self) (h' e' List.mem_cons_self) hhead,
            ih (fun e he => h e (List.mem_cons_of_mem _ he))
              (fun e he => h' e (List.mem_cons_of_mem _ he)) htail]

/-- The text of the file says which entries it has. -/
theorem confLines_inj {entries entries' : Conf}
    (h : ∀ e ∈ entries, Printed e) (h' : ∀ e ∈ entries', Printed e)
    (heq : print (confLines entries) = print (confLines entries')) : entries = entries' := by
  have hlines := congrArg getlines heq
  rw [getlines_print (newline_notMem_confLines h),
    getlines_print (newline_notMem_confLines h')] at hlines
  have hinj : Function.Injective fun line : List Char => line ++ ['\n'] :=
    fun _ _ hcancel => List.append_cancel_right hcancel
  have hconf := List.append_cancel_left (List.map_injective_iff.2 hinj hlines)
  have hunhandled : unhandled.map String.toList ≠ [] := by decide
  have hne : ∀ {es : Conf}, ([] : List (List Char)) ≠
      unhandled.map String.toList ++ es.map settingLine := fun hnil =>
    List.append_ne_nil_of_left_ne_nil hunhandled _ hnil.symm
  split at hconf
  next hnil =>
    split at hconf
    next hnil' => rw [hnil, hnil']
    next => exact absurd hconf hne
  next =>
    split at hconf
    next => exact absurd hconf.symm hne
    next =>
      exact map_settingLine_inj (fun e he => (h e he).key _ (by decide))
        (fun e he => (h' e he).key _ (by decide)) (List.append_cancel_left hconf)

/-- No line of the file with the settings that are not known is of a known key. -/
theorem notMem_known_of_confLines {text : List Char} {entries : Conf}
    (h : entries.Perm ((settings text).filter fun e => e.1 ∉ known)) {line : List Char}
    (hline : line ∈ getlines (print (confLines entries))) {e : List Char × List Char}
    (he : documented line = some e) : e.1 ∉ known := by
  have hentries : ∀ e ∈ entries, e ∈ settings text ∧ e.1 ∉ known := by
    intro e hmem
    rw [h.mem_iff, List.mem_filter, decide_eq_true_eq] at hmem
    exact hmem
  rw [getlines_print (newline_notMem_confLines fun e he => settings_printed (hentries e he).1)]
    at hline
  obtain ⟨line', hline', rfl⟩ := List.mem_map.1 hline
  have hsetting : ∃ e' ∈ entries, line' = settingLine e' := by
    rw [confLines, List.mem_append] at hline'
    rcases hline' with hmem | hmem
    · rw [documented_remark (remark_fixed line' (List.mem_append_left _ hmem))] at he
      cases he
    · split at hmem
      next => cases hmem
      next =>
        rw [List.mem_append] at hmem
        rcases hmem with hmem | hmem
        · rw [documented_remark (remark_fixed line' (List.mem_append_right _ hmem))] at he
          cases he
        · obtain ⟨e', he', rfl⟩ := List.mem_map.1 hmem
          exact ⟨e', he', rfl⟩
  obtain ⟨e', hmem, rfl⟩ := hsetting
  rw [documented_settingLine (hentries e' hmem).1 he]
  exact (hentries e' hmem).2

/-! ## When the format is honoured -/

/-- The known keys have values that are true. -/
def KnownTrue (text : List Char) : Prop :=
  ∀ key ∈ known, ∀ v, value (settings text) key = some v → truth v = true

section
variable {text : List Char}

/-- A selection of entries has each key once where all of them have. -/
theorem nodup_keys_filter {conf : Conf} (h : (conf.map Prod.fst).Nodup)
    (p : List Char × List Char → Bool) : ((conf.filter p).map Prod.fst).Nodup :=
  h.sublist (List.filter_sublist.map _)

/-- A file that is tight is honoured. -/
theorem honours_of_tight (h : ∀ line ∈ getlines text, Documented line) (hknown : KnownTrue text)
    (htight : Tight text) : Honours text (sysconf (some text)) := by
  have hperm := readConf_perm_settings h htight
  have hvalue : ∀ key ∈ known, (value (readConf (some text)) key).filter truth =
      value (settings text) key := by
    intro key hkey
    rw [value_congr (nodup_keys_readConf _) (nodup_keys_settings text) hperm]
    cases hv : value (settings text) key with
    | none => rfl
    | some v => rw [Option.filter_some, if_pos (hknown key hkey v hv)]
  have hsorted : (sorted ((readConf (some text)).filter fun e => e.1 ∉ known)).Perm
      ((settings text).filter fun e => e.1 ∉ known) :=
    (sorted_perm (nodup_keys_filter (nodup_keys_readConf _) _)).trans (hperm.filter _)
  rw [sysconf_eq, hvalue _ (by decide), hvalue _ (by decide), hvalue _ (by decide)]
  refine ⟨rfl, rfl, rfl, ⟨_, hsorted, rfl⟩, fun line hline e he heq => ?_⟩
  have hnot := notMem_known_of_confLines hsorted hline he
  rw [heq] at hnot
  exact absurd hnot (by decide)

/-- The file that is written has the entries that were read. -/
theorem mem_iff_of_kept (h : ∀ line ∈ getlines text, Documented line)
    (hhonours : Honours text (sysconf (some text))) {e : List Char × List Char}
    (hnot : e.1 ∉ known) : e ∈ readConf (some text) ↔ e ∈ settings text := by
  obtain ⟨entries, hperm, hfile⟩ := hhonours.kept
  have hsorted := sorted_perm (nodup_keys_filter (nodup_keys_readConf (some text))
    fun e => decide (e.1 ∉ known))
  have hread : ∀ e ∈ sorted ((readConf (some text)).filter fun e => e.1 ∉ known), Printed e := by
    intro e he
    rw [hsorted.mem_iff, List.mem_filter] at he
    exact readConf_printed h he.1
  have hset : ∀ e ∈ entries, Printed e := by
    intro e he
    rw [hperm.mem_iff, List.mem_filter] at he
    exact settings_printed he.1
  rw [sysconf_eq] at hfile
  have hentries := confLines_inj hread hset hfile
  rw [hentries] at hsorted
  have hiff := (hsorted.symm.trans hperm).mem_iff (a := e)
  rw [List.mem_filter, List.mem_filter] at hiff
  simpa [hnot] using hiff

/-- Each key of a file that is honoured is tight. -/
theorem keyTight_of_honours (h : ∀ line ∈ getlines text, Documented line)
    (hhonours : Honours text (sysconf (some text))) {line : List Char}
    (hline : line ∈ getlines text) {e : List Char × List Char} (he : documented line = some e) :
    KeyTight line := by
  by_contra htight
  obtain ⟨hmem, -⟩ := documented_eq_some he
  obtain ⟨c, hc, hspace⟩ := key_ends_in_space (h line hline) hmem htight
  have hread := readLine_eq hline (h line hline)
  rw [if_pos hmem] at hread
  obtain ⟨v, hv⟩ := exists_mem_ofPairs (List.mem_filterMap.2 ⟨line, hline, hread⟩)
  rw [← readConf_eq h] at hv
  have hnot : lc ((keyPart line).dropWhile space) ∉ known := by
    have hend : ∀ key ∈ known, TightEnd key := by decide
    intro hknown
    rw [hend _ hknown c hc] at hspace
    cases hspace
  -- the key stays in the file, but no setting has it
  obtain ⟨line', -, he'⟩ := exists_of_mem_settings ((mem_iff_of_kept h hhonours hnot).1 hv)
  have hkey : lc ((keyPart line).dropWhile space) = lc (trim (keyPart line')) :=
    (Prod.mk.inj (documented_eq_some he').2).1
  rw [hkey] at hc
  rw [key_not_ends_in_space _ c hc] at hspace
  cases hspace

/-- What is done with a known key says its value. -/
theorem value_of_honours (hhonours : Honours text (sysconf (some text))) {key : List Char}
    (hkey : key ∈ known) {v v' : List Char} (hread : value (readConf (some text)) key = some v)
    (hset : value (settings text) key = some v') : v = v' := by
  have hsome : ∀ {t : List Char}, (some v).filter truth = some t → v = t := by
    intro t ht
    obtain ⟨heq, -⟩ := Option.filter_eq_some_iff.1 ht
    exact Option.some.inj heq
  obtain ⟨hchpasswd, hauthorized, hhostname, -, -⟩ := hhonours
  rw [sysconf_eq] at hchpasswd hauthorized hhostname
  simp only [known, List.mem_cons, List.not_mem_nil, or_false] at hkey
  rcases hkey with rfl | rfl | rfl
  · rw [hread, hset, Option.map_some] at hchpasswd
    obtain ⟨t, ht, heq⟩ := Option.map_eq_some_iff.1 hchpasswd
    rw [hsome ht, List.append_cancel_left heq]
  · rw [hread, hset] at hauthorized
    exact hsome hauthorized
  · rw [hread, hset] at hhostname
    exact hsome hhostname

/-- A file that is honoured is tight, in its keys and in its values. -/
theorem tight_of_honours (h : ∀ line ∈ getlines text, Documented line)
    (hhonours : Honours text (sysconf (some text))) : Tight text := by
  have hkeys : ∀ line ∈ getlines text, ∀ e, documented line = some e → KeyTight line :=
    fun line hline e he => keyTight_of_honours h hhonours hline he
  refine ⟨hkeys, fun pre line post e hlines he hpost => ?_⟩
  obtain ⟨v, hread, hiff⟩ := mem_readConf_of_last h hkeys hlines he hpost
  have hset : e ∈ settings text := by
    rw [settings, mem_ofPairs_filterMap]
    exact ⟨pre, line, post, hlines, he, hpost⟩
  refine hiff.1 ?_
  by_cases hknown : e.1 ∈ known
  · exact value_of_honours hhonours hknown ((value_eq_some (nodup_keys_readConf _)).2 hread)
      ((value_eq_some (nodup_keys_settings text)).2 hset)
  · have hmem : (e.1, v) ∈ settings text :=
      (mem_iff_of_kept (e := (e.1, v)) h hhonours hknown).1 hread
    have hsame : (e.1, v) = e :=
      List.inj_on_of_nodup_map (nodup_keys_settings text) hmem hset rfl
    rw [← hsame]

end

/-- The script honours the format exactly for the files whose settings have no white space in front
of the `=`, and whose last setting of each key has none behind its value and no empty comment. -/
theorem sysconf_honours_iff (text : List Char) (h : ∀ line ∈ getlines text, Documented line)
    (hknown : KnownTrue text) : Honours text (sysconf (some text)) ↔ Tight text :=
  ⟨tight_of_honours h, honours_of_tight h hknown⟩

instance (line : List Char) : Decidable (Documented line) := by
  unfold Documented
  infer_instance

/-- A host name in the common spelling. -/
def hostnameFile : List Char := "# my pi\n\nHostname=soundcan# the name\nscaling=2\n".toList

/-- The known keys of the file have values that are true. -/
theorem hostnameFile_known : KnownTrue hostnameFile := by
  have hall : ∀ key ∈ known, ∀ v ∈ value (settings hostnameFile) key, truth v = true := by decide
  exact hall

/-- The file has no blanks where the script would keep them. -/
theorem hostnameFile_tight : Tight hostnameFile := by
  have hkey : ∀ line ∈ getlines hostnameFile, KeyTight line := by decide
  have hvalue : ∀ line ∈ getlines hostnameFile, ValueTight line := by decide
  refine ⟨fun line hline _ _ => hkey line hline, fun pre line post _ hlines _ _ => ?_⟩
  refine hvalue line ?_
  rw [hlines]
  exact List.mem_append_right _ List.mem_cons_self

/-- The script honours a file in the common spelling. -/
theorem hostnameFile_honoured : Honours hostnameFile (sysconf (some hostnameFile)) :=
  (sysconf_honours_iff hostnameFile (by decide) hostnameFile_known).2 hostnameFile_tight

/-- A password with spaces around the `=`. -/
def passwordFile : List Char := "root_pw = secret\n".toList

/-- The password is not set, and it stays in the file. -/
theorem passwordFile_not_honoured :
    (∀ line ∈ getlines passwordFile, Documented line) ∧ KnownTrue passwordFile ∧
      ¬ Honours passwordFile (sysconf (some passwordFile)) := by
  have hall : ∀ key ∈ known, ∀ v ∈ value (settings passwordFile) key, truth v = true := by decide
  refine ⟨by decide, hall, fun hhonours => ?_⟩
  have hchpasswd := hhonours.chpasswd
  exact absurd hchpasswd (by decide)

end Soundcan.Rpi
