import Mathlib.Data.List.DropRight
import Soundcan.Lib.Hash
import Soundcan.Lib.Regex

/-!
# rpi-set-sysconf

The script reads `sysconf.txt` with two regular expressions, sets the root password, the root's
authorized key and the host name from it and rewrites the file with the other settings.
`readLine_eq` says what the regular expressions take for the key and the value of a line.
-/

namespace Soundcan.Rpi

open Hash

/-! ## The script -/

/-- `\s`. -/
def space (c : Char) : Bool := c ∈ [' ', '\t', '\n', '\x0b', '\x0c', '\r']

/-- White space only. -/
def Blank (s : List Char) : Prop := ∀ c ∈ s, space c = true

instance (s : List Char) : Decidable (Blank s) := List.decidableBAll _ _

/-- No white space at the end. -/
def TightEnd (s : List Char) : Prop := ∀ c ∈ s.getLast?, space c = false

instance (s : List Char) : Decidable (TightEnd s) := Option.decidableForallMem _

/-- The lines of `getline`, with their newlines. -/
def getlines : List Char → List (List Char)
  | [] => []
  | c :: s =>
    if c = '\n' then ['\n'] :: getlines s
    else
      match getlines s with
      | [] => [[c]]
      | line :: lines => (c :: line) :: lines

/-- `#.+`. -/
def commentRegex : Regex := .seq (.one (· = '#')) (.oneOrMore (· ≠ '\n'))

/-- `^\s*([^=]+)\s*=\s*(.*)\s*$`, behind the `^`. -/
def settingRegex : Regex :=
  .seq (.many space) (.seq (.group (.oneOrMore (· ≠ '='))) (.seq (.many space)
    (.seq (.one (· = '=')) (.seq (.many space) (.seq (.group (.many (· ≠ '\n')))
      (.seq (.many space) .eol))))))

/-- `lc`. -/
def lc (s : List Char) : List Char := s.map Char.toLower

/-- The body of the loop of `read_conf`: the key and the value of a line. -/
def readLine (line : List Char) : Option (List Char × List Char) :=
  match settingRegex.first (commentRegex.replace [] line) with
  | some ⟨_, [key, value], _⟩ => some (lc key, value)
  | _ => none

/-- What is true: neither empty nor `0`. -/
def truth (s : List Char) : Bool := s ≠ [] ∧ s ≠ ['0']

abbrev Conf : Type := List (List Char × List Char)

/-- `read_conf`, on the text of the file if there is one. -/
def readConf (file : Option (List Char)) : Conf :=
  match file with
  | none => []
  | some text => ofPairs (((getlines text).takeWhile truth).filterMap readLine)

/-- The lines of the beginning of the rewritten file. -/
def preamble : List String :=
  ["# This file will be automatically evaluated and installed at next boot",
    "# time, and regenerated (to avoid leaking passwords and such information).",
    "#",
    "# To force it to be evaluated immediately, you can run (as root):",
    "#",
    "#     /usr/local/sbin/rpi-set-sysconf",
    "#",
    "# You can disable the file evaluation by disabling the rpi-set-sysconf",
    "# service in systemd:",
    "#",
    "#     systemctl disable rpi-set-sysconf",
    "#",
    "# Comments (all portions of a line following a '#' character) are",
    "# ignored. This file is read line by line. Valid",
    "# configuration lines are of the form 'key=value'. Whitespace around",
    "# 'key' and 'value' is ignored. This file will be _regenerated_ every",
    "# time it is evaluated.",
    "#",
    "# We follow the convention to indent with one space comments, and",
    "# leave no space to indicate the line is an example that could be",
    "# uncommented.",
    "",
    "# root_pw - Set a password for the root user (by default, it allows",
    "# for a passwordless login)",
    "#root_pw=FooBar",
    "",
    "# root_authorized_key - Set an authorized key for a root ssh login",
    "#root_authorized_key=",
    "",
    "# hostname - Set the system hostname.",
    "#hostname=rpi"]

/-- The lines in front of the unhandled keys. -/
def unhandled : List String :=
  ["",
    "# We found the following unhandled keys - That means, the",
    "# configuration script does not know how to handle them. Please",
    "# double-check them!"]

/-- Lines with a newline behind each. -/
def print (lines : List (List Char)) : List Char := lines.flatMap fun line => line ++ ['\n']

/-- The line of a setting. -/
def settingLine (e : List Char × List Char) : List Char := e.1 ++ '=' :: e.2

/-- The lines of the file with some settings. -/
def confLines (entries : Conf) : List (List Char) :=
  preamble.map String.toList ++
    if entries = [] then [] else unhandled.map String.toList ++ entries.map settingLine

/-- The entries in the order of `sort keys`. -/
def sorted (conf : Conf) : Conf :=
  ((conf.map Prod.fst).mergeSort fun key key' =>
      !key'.lex key fun c c' => decide (c.toNat < c'.toNat)).filterMap fun key =>
    (value conf key).map fun v => (key, v)

/-- `rewrite_conf_file`: the new text of the file. -/
def rewriteConfFile (conf : Conf) : List Char := print (confLines (sorted conf))

/-- What the script does: the input of `chpasswd`, the texts that are written to
`/root/.ssh/authorized_keys` and `/etc/hostname`, and the new text of the file. -/
structure Outcome where
  chpasswd : Option (List Char)
  authorizedKeys : Option (List Char)
  hostname : Option (List Char)
  file : List Char

/-- The script, where all files and pipes open. -/
def sysconf (file : Option (List Char)) : Outcome :=
  let conf := readConf file
  let pass := value conf "root_pw".toList
  let conf := erase conf "root_pw".toList
  let rootAuthorizedKey := value conf "root_authorized_key".toList
  let conf := erase conf "root_authorized_key".toList
  let name := value conf "hostname".toList
  let conf := erase conf "hostname".toList
  { chpasswd := (pass.filter truth).map fun pass => "root:".toList ++ pass
    authorizedKeys := rootAuthorizedKey.filter truth
    hostname := name.filter truth
    file := rewriteConfFile conf }

/-! ## The format of the file -/

/-- A line without its newline. -/
def chomp (line : List Char) : List Char := line.takeWhile (· ≠ '\n')

/-- A line in front of its comment. -/
def body (line : List Char) : List Char := (chomp line).takeWhile (· ≠ '#')

/-- The comment of a line, with its `#`. -/
def comment (line : List Char) : List Char := (chomp line).dropWhile (· ≠ '#')

/-- What stands in front of the first `=`. -/
def keyPart (line : List Char) : List Char := (body line).takeWhile (· ≠ '=')

/-- What stands behind the first `=`. -/
def valuePart (line : List Char) : List Char := ((body line).dropWhile (· ≠ '=')).tail

/-- A text without the whitespace around it. -/
def trim (s : List Char) : List Char := (s.dropWhile space).rdropWhile space

/-- The setting of a line: its key in lower case and its value. -/
def documented (line : List Char) : Option (List Char × List Char) :=
  if '=' ∈ body line then some (lc (trim (keyPart line)), trim (valuePart line)) else none

/-- The line is a comment, blank or of the form `key=value`. -/
def Documented (line : List Char) : Prop :=
  if '=' ∈ body line then trim (keyPart line) ≠ [] else Blank (body line)

/-- The settings of a file, where the last of repeated keys counts. -/
def settings (text : List Char) : Conf := ofPairs ((getlines text).filterMap documented)

/-- The keys that the script knows. -/
def known : List (List Char) :=
  ["root_pw".toList, "root_authorized_key".toList, "hostname".toList]

/-- The script acts on exactly the settings of the file and keeps the ones that it does not know. -/
structure Honours (text : List Char) (o : Outcome) : Prop where
  chpasswd : o.chpasswd =
    (value (settings text) "root_pw".toList).map fun pass => "root:".toList ++ pass
  authorizedKeys : o.authorizedKeys = value (settings text) "root_authorized_key".toList
  hostname : o.hostname = value (settings text) "hostname".toList
  kept : ∃ entries, entries.Perm ((settings text).filter fun e => e.1 ∉ known) ∧
    o.file = print (confLines entries)
  noPassword : ∀ line ∈ getlines o.file, ∀ e, documented line = some e → e.1 ≠ "root_pw".toList

/-- No whitespace stands between the key and the `=`. -/
def KeyTight (line : List Char) : Prop := TightEnd (keyPart line)

/-- No whitespace stands behind the value, unless it is empty, and the comment is not a mere `#`. -/
def ValueTight (line : List Char) : Prop :=
  comment line ≠ ['#'] ∧ (Blank (valuePart line) ∨ TightEnd (valuePart line))

instance (line : List Char) : Decidable (KeyTight line) :=
  inferInstanceAs (Decidable (TightEnd _))

instance (line : List Char) : Decidable (ValueTight line) :=
  inferInstanceAs (Decidable (_ ∧ (Blank _ ∨ TightEnd _)))

/-- No setting has whitespace in front of its `=`, and the last setting of each key none behind its
value and no empty comment. -/
structure Tight (text : List Char) : Prop where
  key : ∀ line ∈ getlines text, ∀ e, documented line = some e → KeyTight line
  value : ∀ pre line post e, getlines text = pre ++ line :: post → documented line = some e →
    (∀ line' ∈ post, ∀ e', documented line' = some e' → e'.1 ≠ e.1) → ValueTight line

/-! ## Lines -/

/-- What stands in front of the first of a character. -/
theorem takeWhile_ne_append {d : Char} {s t : List Char} (h : d ∉ s) :
    (s ++ d :: t).takeWhile (fun c => decide (c ≠ d)) = s := by
  have hall : ∀ c ∈ s, decide (c ≠ d) = true := by
    intro c hc
    have hne : c ≠ d := fun heq => h (heq ▸ hc)
    simpa using hne
  rw [List.takeWhile_append_of_pos hall, List.takeWhile_cons_of_neg (by simp), List.append_nil]

/-- A line has one newline at most, at its end. -/
theorem mem_getlines {text line : List Char} (h : line ∈ getlines text) :
    line = chomp line ∧ line ≠ [] ∨ line = chomp line ++ ['\n'] := by
  induction text generalizing line with
  | nil => cases h
  | cons c s ih =>
      rw [getlines] at h
      split at h
      next =>
        rw [List.mem_cons] at h
        rcases h with rfl | h
        · exact .inr rfl
        · exact ih h
      next hc =>
        have hchomp : ∀ l, chomp (c :: l) = c :: chomp l := fun l =>
          List.takeWhile_cons_of_pos (by simpa using hc)
        split at h
        next =>
          rw [List.mem_singleton] at h
          subst h
          refine .inl ⟨?_, List.cons_ne_nil _ _⟩
          rw [hchomp]
          rfl
        next line' lines heq =>
          rw [List.mem_cons] at h
          rcases h with rfl | h
          · rcases ih (heq ▸ List.mem_cons_self) with ⟨hline, -⟩ | hline
            · refine .inl ⟨?_, List.cons_ne_nil _ _⟩
              rw [hchomp, ← hline]
            · refine .inr ?_
              rw [hchomp, List.cons_append, ← hline]
          · exact ih (heq ▸ List.mem_cons_of_mem _ h)

/-- A line that is chomped has no line break. -/
theorem newline_notMem_chomp (line : List Char) : '\n' ∉ chomp line := by
  intro h
  have hne := List.mem_takeWhile_imp h
  simp at hne

/-- A line is its body and its comment. -/
theorem body_append_comment (line : List Char) : body line ++ comment line = chomp line :=
  List.takeWhile_append_dropWhile

/-- The body ends in front of the first hash. -/
theorem hash_notMem_body (line : List Char) : '#' ∉ body line := by
  intro h
  have hne := List.mem_takeWhile_imp h
  simp at hne

/-- There is no line break in the body of a line. -/
theorem newline_notMem_body (line : List Char) : '\n' ∉ body line := fun h =>
  newline_notMem_chomp line ((body_append_comment line) ▸ List.mem_append_left _ h)

/-- A comment begins with its `#`. -/
theorem comment_cases (line : List Char) :
    comment line = [] ∨ ∃ s, comment line = '#' :: s ∧ '\n' ∉ s := by
  cases hc : comment line with
  | nil => exact .inl rfl
  | cons c s =>
      have hhead : c = '#' := by
        have hnot := List.head?_dropWhile_not (fun c : Char => decide (c ≠ '#')) (chomp line)
        rw [← comment, hc] at hnot
        simpa using hnot
      refine .inr ⟨s, by rw [hhead], fun hs => ?_⟩
      have hmem : '\n' ∈ body line ++ comment line := by
        rw [hc]
        exact List.mem_append_right _ (List.mem_cons_of_mem _ hs)
      rw [body_append_comment] at hmem
      exact newline_notMem_chomp line hmem

/-- The lines of a text with a newline behind each. -/
theorem getlines_print {lines : List (List Char)} (h : ∀ line ∈ lines, '\n' ∉ line) :
    getlines (print lines) = lines.map fun line => line ++ ['\n'] := by
  have hline : ∀ (line rest : List Char), '\n' ∉ line →
      getlines (line ++ '\n' :: rest) = (line ++ ['\n']) :: getlines rest := by
    intro line rest hnot
    induction line with
    | nil => rfl
    | cons c s ih =>
        rw [List.mem_cons, not_or] at hnot
        rw [List.cons_append, getlines, if_neg (Ne.symm hnot.1), ih hnot.2]
        rfl
  induction lines with
  | nil => rfl
  | cons line lines ih =>
      have htail := ih fun line' hmem => h line' (List.mem_cons_of_mem _ hmem)
      rw [print] at htail ⊢
      rw [List.flatMap_cons, List.append_assoc, List.singleton_append,
        hline _ _ (h line List.mem_cons_self), htail, List.map_cons]

/-! ## What the regular expressions match -/

/-- Every character of a text is another one than a character that is not there. -/
theorem decide_ne_of_notMem {a : Char} {s : List Char} (h : a ∉ s) :
    ∀ c ∈ s, decide (c ≠ a) = true := by
  intro c hc
  have hne : c ≠ a := fun heq => h (heq ▸ hc)
  simpa using hne

/-- Nothing is a comment in front of the first `#`. -/
theorem first_commentRegex_none {c : Char} (h : c ≠ '#') (s : List Char) :
    commentRegex.first (c :: s) = none := by
  rw [Regex.first, commentRegex, Regex.tries_seq, Regex.tries_one_cons, if_neg (by simpa using h)]
  rfl

/-- A line break alone has no comment. -/
theorem search_commentRegex_newline {nl : List Char} (h : nl = [] ∨ nl = ['\n']) :
    commentRegex.search nl = none := by
  rcases h with rfl | rfl
  · rfl
  · rfl

/-- The comment is dropped, unless it is a mere `#`. -/
theorem replace_commentRegex (line : List Char) {nl : List Char} (hnl : nl = [] ∨ nl = ['\n']) :
    commentRegex.replace [] (chomp line ++ nl) =
      body line ++ (if comment line = ['#'] then ['#'] else []) ++ nl := by
  have hfront : ∀ c ∈ body line, ∀ s, commentRegex.first (c :: s) = none := by
    intro c hc s
    refine first_commentRegex_none ?_ s
    rintro rfl
    exact hash_notMem_body line hc
  have hsearch := Regex.search_append hfront (comment line ++ nl)
  rw [← List.append_assoc, body_append_comment] at hsearch
  have hnone := search_commentRegex_newline hnl
  rcases comment_cases line with hc | ⟨s, hc, hs⟩
  · rw [hc, List.nil_append, hnone, Option.map_none] at hsearch
    rw [Regex.replace_of_search_none hsearch, if_neg (by rw [hc]; decide),
      ← body_append_comment, hc]
  · cases s with
    | nil =>
        have hsharp : commentRegex.search ('#' :: nl) = none := by
          rcases hnl with rfl | rfl
          · rfl
          · rfl
        rw [hc, List.singleton_append, hsharp, Option.map_none] at hsearch
        rw [Regex.replace_of_search_none hsearch, if_pos hc, ← body_append_comment, hc]
    | cons c s =>
        have hcs : ∀ c' ∈ c :: s, decide (c' ≠ '\n') = true := decide_ne_of_notMem hs
        have hrest : ∀ c' ∈ nl.head?, ¬decide (c' ≠ '\n') = true := by
          rcases hnl with rfl | rfl
          · simp
          · simp
        have hfirst := Regex.first_seq (Regex.first_one (p := (· = '#')) (c := '#') (by decide) _)
          (Regex.first_oneOrMore_append (List.cons_ne_nil c s) hcs hrest)
        have hstop := Regex.search_of_first (r := commentRegex) hfirst
        rw [hc, List.cons_append, hstop, Option.map_some] at hsearch
        rw [Regex.replace_of_search_some hsearch, if_neg (by rw [hc]; simp)]
        simp only [Match.append, List.append_nil]

/-- White space is skipped up to the end of the line or in front of what is left of it. -/
theorem dropWhile_space_append {y nl : List Char} (hnl : nl = [] ∨ nl = ['\n']) :
    ∃ nl', (y ++ nl).dropWhile space = y.dropWhile space ++ nl' ∧ (nl' = [] ∨ nl' = ['\n']) := by
  rw [List.dropWhile_append]
  split
  next hempty =>
    refine ⟨[], ?_, .inl rfl⟩
    rw [List.isEmpty_iff.1 hempty, List.append_nil]
    rcases hnl with rfl | rfl
    · rfl
    · rfl
  next => exact ⟨nl, rfl, hnl⟩

/-- What follows the indent in `settingRegex`. -/
def settingTail : Regex :=
  .seq (.group (.oneOrMore (· ≠ '='))) (.seq (.many space) (.seq (.one (· = '='))
    (.seq (.many space) (.seq (.group (.many (· ≠ '\n'))) (.seq (.many space) .eol)))))

/-- It matches everything up to the first `=` as key, and everything behind the white space at the
`=` as value. -/
theorem first_settingTail {k y nl : List Char} (hk : '=' ∉ k) (hne : k ≠ []) (hy : '\n' ∉ y)
    (hnl : nl = [] ∨ nl = ['\n']) :
    ∃ t rest, settingTail.first (k ++ '=' :: (y ++ nl)) =
      some ⟨t, [k, y.dropWhile space], rest⟩ := by
  obtain ⟨nl', hvalue, hnl'⟩ := dropWhile_space_append (y := y) hnl
  have hkey : ∀ c ∈ k, decide (c ≠ '=') = true := decide_ne_of_notMem hk
  have hline : ∀ c ∈ y.dropWhile space, decide (c ≠ '\n') = true :=
    decide_ne_of_notMem fun hmem => hy ((List.dropWhile_sublist _).subset hmem)
  have hnewline : (∀ c ∈ nl'.head?, ¬decide (c ≠ '\n') = true) ∧ nl'.dropWhile space = [] := by
    rcases hnl' with rfl | rfl
    · exact ⟨by simp, rfl⟩
    · exact ⟨by simp, rfl⟩
  -- each part matches at its first try what the next one goes on from
  have hequals : ∀ c ∈ ('=' :: (y ++ nl)).head?, ¬decide (c ≠ '=') = true := by simp
  have h₂ := Regex.first_group (Regex.first_oneOrMore_append hne hkey hequals)
  have h₃ := Regex.first_many space ('=' :: (y ++ nl))
  rw [List.dropWhile_cons_of_neg (by decide)] at h₃
  have h₄ := Regex.first_one (p := (· = '=')) (c := '=') (by decide) (y ++ nl)
  have h₅ := Regex.first_many space (y ++ nl)
  rw [hvalue] at h₅
  have h₆ := Regex.first_group (Regex.first_many_append hline hnewline.1)
  have h₇ := Regex.first_many space nl'
  rw [hnewline.2] at h₇
  have h₈ := Regex.first_eol (.inl rfl : ([] : List Char) = [] ∨ _)
  have hall := Regex.first_seq h₂ (Regex.first_seq h₃ (Regex.first_seq h₄
    (Regex.first_seq h₅ (Regex.first_seq h₆ (Regex.first_seq h₇ h₈)))))
  exact ⟨_, _, hall⟩

/-- A setting is matched with everything up to its first `=` behind the indent as key, and
everything behind the white space at its `=` as value. -/
theorem first_settingRegex {x y nl : List Char} (hx : '=' ∉ x) (hne : x.dropWhile space ≠ [])
    (hy : '\n' ∉ y) (hnl : nl = [] ∨ nl = ['\n']) :
    ∃ t rest, settingRegex.first (x ++ '=' :: (y ++ nl)) =
      some ⟨t, [x.dropWhile space, y.dropWhile space], rest⟩ := by
  have hindent : (x ++ '=' :: (y ++ nl)).dropWhile space =
      x.dropWhile space ++ '=' :: (y ++ nl) := by
    rw [List.dropWhile_append, if_neg (by simpa using hne)]
  have hkey : '=' ∉ x.dropWhile space := fun hmem => hx ((List.dropWhile_sublist _).subset hmem)
  obtain ⟨t, rest, htail⟩ := first_settingTail hkey hne hy hnl
  have hspace := Regex.first_many space (x ++ '=' :: (y ++ nl))
  rw [hindent] at hspace
  exact ⟨_, _, Regex.first_seq hspace htail⟩

/-- A line without `=` is no setting. -/
theorem first_settingRegex_none {s : List Char} (h : '=' ∉ s) : settingRegex.first s = none := by
  have hone : ∀ (r : Regex) (rest : List Char), '=' ∉ rest →
      (Regex.seq (.one (· = '=')) r).tries rest = [] := by
    intro r rest hrest
    cases rest with
    | nil => rfl
    | cons c rest =>
        have hc : c ≠ '=' := fun heq => hrest (heq ▸ List.mem_cons_self)
        rw [Regex.tries_seq, Regex.tries_one_cons, if_neg (by simpa using hc), List.flatMap_nil]
  have hsuffix : ∀ {t t' : List Char}, t <:+ t' → '=' ∉ t' → '=' ∉ t := fun hs hnot hmem =>
    hnot (hs.subset hmem)
  have hnil : settingRegex.tries s = [] := by
    refine Regex.tries_seq_eq_nil fun s₁ h₁ => ?_
    refine Regex.tries_seq_eq_nil fun s₂ h₂ => ?_
    refine Regex.tries_seq_eq_nil fun s₃ h₃ => ?_
    exact hone _ s₃ (hsuffix h₃ (hsuffix h₂ (hsuffix h₁ h)))
  rw [Regex.first, hnil]
  rfl

/-! ## What is read of a line -/

/-- What stays of a comment. -/
def bare (line : List Char) : List Char := if comment line = ['#'] then ['#'] else []

/-- A body with an equals sign is its key, the sign and its value. -/
theorem body_eq {line : List Char} (h : '=' ∈ body line) :
    body line = keyPart line ++ '=' :: valuePart line := by
  have hsplit := List.takeWhile_append_dropWhile (p := fun c => decide (c ≠ '=')) (l := body line)
  have hne : (body line).dropWhile (fun c => decide (c ≠ '=')) ≠ [] := by
    intro hnil
    have hall := List.dropWhile_eq_nil_iff.1 hnil '=' h
    exact absurd hall (by decide)
  obtain ⟨c, s, hcons⟩ := List.exists_cons_of_ne_nil hne
  have hc : c = '=' := by
    have hnot := List.head?_dropWhile_not (fun c : Char => decide (c ≠ '=')) (body line)
    rw [hcons] at hnot
    simpa using hnot
  rw [hcons, hc] at hsplit
  rw [keyPart, valuePart, hcons]
  exact hsplit.symm

/-- The key ends in front of the first equals sign. -/
theorem equals_notMem_keyPart (line : List Char) : '=' ∉ keyPart line := by
  intro h
  have hne := List.mem_takeWhile_imp h
  simp at hne

/-- There is no line break in the value of a line. -/
theorem newline_notMem_valuePart (line : List Char) : '\n' ∉ valuePart line := fun h =>
  newline_notMem_body line ((List.dropWhile_sublist _).subset (List.mem_of_mem_tail h))

/-- There is no line break in a line without its comment. -/
theorem newline_notMem_bare (line : List Char) : '\n' ∉ bare line := by
  rw [bare]
  split <;> decide

/-- A documented setting has a key that is not blank. -/
theorem dropWhile_keyPart_ne_nil {line : List Char} (h : Documented line) (hmem : '=' ∈ body line) :
    (keyPart line).dropWhile space ≠ [] := by
  intro hnil
  rw [Documented, if_pos hmem, trim, hnil] at h
  exact h rfl

/-- A line gives its key up to the `=`, and everything behind the `=` as value. -/
theorem readLine_eq {text line : List Char} (hline : line ∈ getlines text) (h : Documented line) :
    readLine line = if '=' ∈ body line then
        some (lc ((keyPart line).dropWhile space), (valuePart line ++ bare line).dropWhile space)
      else none := by
  obtain ⟨nl, hchomp, hnl⟩ : ∃ nl, line = chomp line ++ nl ∧ (nl = [] ∨ nl = ['\n']) := by
    rcases mem_getlines hline with ⟨heq, -⟩ | heq
    · exact ⟨[], by rwa [List.append_nil], .inl rfl⟩
    · exact ⟨_, heq, .inr rfl⟩
  have hreplace : commentRegex.replace [] line = body line ++ bare line ++ nl := by
    conv_lhs => rw [hchomp]
    exact replace_commentRegex line hnl
  rw [readLine, hreplace]
  split_ifs with hmem
  · have hvalue : '\n' ∉ valuePart line ++ bare line := by
      rw [List.mem_append, not_or]
      exact ⟨newline_notMem_valuePart line, newline_notMem_bare line⟩
    obtain ⟨t, rest, hfirst⟩ := first_settingRegex (equals_notMem_keyPart line)
      (dropWhile_keyPart_ne_nil h hmem) hvalue hnl
    have hline' : body line ++ bare line ++ nl =
        keyPart line ++ '=' :: (valuePart line ++ bare line ++ nl) := by
      conv_lhs => rw [body_eq hmem]
      simp only [List.append_assoc, List.cons_append]
    rw [hline', hfirst]
  · have hnot : '=' ∉ body line ++ bare line ++ nl := by
      rw [List.mem_append, List.mem_append, not_or, not_or]
      refine ⟨⟨hmem, ?_⟩, ?_⟩
      · rw [bare]
        split <;> decide
      · rcases hnl with rfl | rfl <;> decide
    rw [first_settingRegex_none hnot]

/-- All lines of such a file are true. -/
theorem truth_of_documented {text line : List Char} (hline : line ∈ getlines text)
    (h : Documented line) : truth line = true := by
  have hne : line ≠ [] := by
    rcases mem_getlines hline with ⟨-, hne⟩ | heq
    · exact hne
    · rw [heq]
      exact List.append_ne_nil_of_right_ne_nil _ (List.cons_ne_nil _ _)
  have hzero : line ≠ ['0'] := by
    rintro rfl
    exact absurd (h '0' (by decide)) (by decide)
  rw [truth, decide_eq_true_eq]
  exact ⟨hne, hzero⟩

/-- A documented file is read line by line, and a later line wins. -/
theorem readConf_eq {text : List Char} (h : ∀ line ∈ getlines text, Documented line) :
    readConf (some text) = ofPairs ((getlines text).filterMap readLine) := by
  have hall : (getlines text).takeWhile truth = getlines text := by
    rw [List.takeWhile_eq_self_iff]
    exact fun line hline => truth_of_documented hline (h line hline)
  rw [readConf, hall]

end Soundcan.Rpi
