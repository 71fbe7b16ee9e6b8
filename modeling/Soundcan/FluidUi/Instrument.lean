import Soundcan.FluidUi.Controls

/-!
# Reading an instrument back

`readInstrument` takes the bank and the preset from the first line of the listing of the channels.
It does not stop at the name of the preset, whose words it reads as columns too: a name with the
word `bank` in it changes what is read, and one that ends with it makes `atoi` read from a null
pointer. `readInstrument_reads_back_iff` says for which names the number that is written back is the
one that was listed.
-/

namespace Soundcan.FluidUi

open CText

/-! ## The text -/

/-- `writeInstrument`: the commands that it runs, `none` where one does not fit its buffer. -/
def writeInstrument (writeValue : List Char) : Option (List (List Char)) :=
  match strtok ['-'] writeValue with
  | sBank :: sPreset :: _ => do
    let command ← sprintf 50 ("select 0 1 ".toList ++ d (atoi sBank) ++ ' ' :: d (atoi sPreset))
    some [command]
  | _ => some []

/-- The line of a channel in the listing. -/
def channelLine (sfont bank preset : Nat) (name : List Char) : List Char :=
  "chan 0, sfont ".toList ++ d sfont ++ ", bank ".toList ++ d bank ++ ", preset ".toList ++
    d preset ++ ", ".toList ++ name

/-- The text of a bank and a preset. -/
def bankPresetText (bank preset : Int) : List Char := d03 bank ++ '-' :: d03 preset

/-- The command that selects them. -/
def selectCommand (bank preset : Nat) : List Char :=
  "select 0 1 ".toList ++ d bank ++ ' ' :: d preset

/-! ## Keywords -/

/-- The delimiters of the columns. -/
def columnDelimiters : List Char := [' ', ',']

/-- The keywords of a row, `true` for `bank`, with the words behind them: a word behind a keyword is
not a keyword itself. `none` where nothing is behind the last keyword. -/
def keywords : List (List Char) → Option (List (Bool × List Char))
  | [] => some []
  | token :: tokens =>
    if token = "bank".toList then
      match tokens with
      | [] => none
      | next :: tokens => (keywords tokens).map fun ks => (true, next) :: ks
    else if token = "preset".toList then
      match tokens with
      | [] => none
      | next :: tokens => (keywords tokens).map fun ks => (false, next) :: ks
    else keywords tokens

/-- A token that is no keyword is passed over. -/
theorem keywords_cons_of_ne {token : List Char} (hbank : token ≠ "bank".toList)
    (hpreset : token ≠ "preset".toList) (tokens : List (List Char)) :
    keywords (token :: tokens) = keywords tokens := by
  conv_lhs => unfold keywords
  rw [if_neg hbank, if_neg hpreset]

/-- The last word behind a keyword. -/
def lastBehind (keyword : Bool) (ks : List (Bool × List Char)) : Option (List Char) :=
  (ks.filterMap fun k => if k.1 = keyword then some k.2 else none).getLast?

/-- The words of a name leave the bank and the preset as they are: each keyword has a word behind
it, and the last number behind each of the two is the bank or the preset again. -/
def NameKeeps (bank preset : Int) (name : List Char) : Prop :=
  ∃ ks, keywords (strtok columnDelimiters name) = some ks ∧
    (∀ word, lastBehind true ks = some word → atoi word = bank) ∧
    ∀ word, lastBehind false ks = some word → atoi word = preset

/-- The first occurrence of a keyword is the last one only without a later one. -/
theorem lastBehind_cons_self (keyword : Bool) (word : List Char) (ks : List (Bool × List Char)) :
    lastBehind keyword ((keyword, word) :: ks) = some ((lastBehind keyword ks).getD word) := by
  simp [lastBehind, List.getLast?_cons]

/-- An occurrence of the other keyword does not count. -/
theorem lastBehind_cons_of_ne {keyword keyword' : Bool} (h : keyword' ≠ keyword) (word : List Char)
    (ks : List (Bool × List Char)) :
    lastBehind keyword ((keyword', word) :: ks) = lastBehind keyword ks := by
  simp [lastBehind, h]

/-- The numbers that are read are the last ones behind the keywords. -/
theorem readColumns_eq (tokens : List (List Char)) (bank preset : Int) :
    readColumns tokens bank preset = (keywords tokens).map fun ks =>
      (((lastBehind true ks).map atoi).getD bank,
        ((lastBehind false ks).map atoi).getD preset) := by
  fun_induction readColumns tokens bank preset with
  | case1 bank preset => rfl
  | case2 bank preset => rfl
  | case3 bank preset next tokens ih =>
      rw [ih]
      show _ = ((keywords tokens).map fun ks => (true, next) :: ks).map _
      rw [Option.map_map]
      refine congrArg (fun f => (keywords tokens).map f) (funext fun ks => ?_)
      rw [Function.comp_apply, lastBehind_cons_self, lastBehind_cons_of_ne (by decide)]
      cases lastBehind true ks <;> rfl
  | case4 bank preset => rfl
  | case5 bank preset next tokens hbank ih =>
      rw [ih]
      show _ = ((keywords tokens).map fun ks => (false, next) :: ks).map _
      rw [Option.map_map]
      refine congrArg (fun f => (keywords tokens).map f) (funext fun ks => ?_)
      rw [Function.comp_apply, lastBehind_cons_self, lastBehind_cons_of_ne (by decide)]
      cases lastBehind false ks <;> rfl
  | case6 token tokens bank preset hbank hpreset ih =>
      rw [ih, keywords_cons_of_ne hbank hpreset]

/-- The numbers stay as they are exactly where the name keeps them. -/
theorem readColumns_keeps_iff (name : List Char) (bank preset : Int) :
    readColumns (strtok columnDelimiters name) bank preset = some (bank, preset) ↔
      NameKeeps bank preset name := by
  rw [readColumns_eq, NameKeeps]
  cases keywords (strtok columnDelimiters name) with
  | none =>
      refine iff_of_false (fun h => ?_) (fun ⟨ks, h, _⟩ => ?_)
      · cases h
      · cases h
  | some ks =>
      simp only [Option.map_some, Option.some.injEq, Prod.mk.injEq, exists_eq_left']
      have hlast : ∀ (last : Option (List Char)) (n : Int),
          (last.map atoi).getD n = n ↔ ∀ word, last = some word → atoi word = n := by
        intro last n
        cases last <;> simp
      rw [hlast, hlast]

/-! ## The line -/

/-- A word without delimiters is one token. -/
theorem strtok_word {delimiters s : List Char} (hne : s ≠ []) (h : ∀ c ∈ s, c ∉ delimiters) :
    strtok delimiters s = [s] := by
  rw [strtok, List.splitOnP_eq_singleton fun c hc => decide_eq_false (h c hc)]
  simp [hne]

/-- A number is one token where no digit is a delimiter. -/
theorem strtok_digits {delimiters s : List Char} (hne : s ≠ []) (h : Digits s)
    (hnot : ∀ c ∈ delimiters, c.isDigit = false) : strtok delimiters s = [s] := by
  refine strtok_word hne fun c hc hmem => ?_
  have hdigit := h c hc
  rw [hnot c hmem] at hdigit
  cases hdigit

/-- A number is a column. -/
theorem strtok_d (n : Nat) : strtok columnDelimiters (d n) = [d n] := by
  refine strtok_digits ?_ (digits_d n) (by simp [columnDelimiters])
  rw [d_natCast]
  exact Nat.toDigits_ne_nil

/-- A blank behind a comma. -/
theorem strtok_comma (s t : List Char) :
    strtok columnDelimiters (s ++ ", ".toList ++ t) =
      strtok columnDelimiters s ++ strtok columnDelimiters t := by
  have hcomma : s ++ ", ".toList ++ t = s ++ ',' :: ([] ++ ' ' :: t) := by simp
  have hnil : strtok columnDelimiters [] = [] := rfl
  rw [hcomma, strtok_append_cons (by decide), strtok_append_cons (by decide), hnil,
    List.nil_append]

/-- A blank ends a token. -/
theorem strtok_blank (s t : List Char) :
    strtok columnDelimiters (s ++ ' ' :: t) =
      strtok columnDelimiters s ++ strtok columnDelimiters t :=
  strtok_append_cons (by decide) s t

/-- The columns of the line of a channel. -/
theorem strtok_channelLine (sfont bank preset : Nat) (name : List Char) :
    strtok columnDelimiters (channelLine sfont bank preset name) =
      ["chan".toList, "0".toList, "sfont".toList, d sfont, "bank".toList, d bank,
        "preset".toList, d preset] ++ strtok columnDelimiters name := by
  have hline : channelLine sfont bank preset name =
      "chan 0".toList ++ ", ".toList ++ ("sfont".toList ++ ' ' :: d sfont) ++ ", ".toList ++
        ("bank".toList ++ ' ' :: d bank) ++ ", ".toList ++ ("preset".toList ++ ' ' :: d preset) ++
        ", ".toList ++ name := by
    have hsfont : "chan 0, sfont ".toList =
        "chan 0".toList ++ ", ".toList ++ "sfont".toList ++ [' '] := by decide +kernel
    have hbank : ", bank ".toList = ", ".toList ++ "bank".toList ++ [' '] := by decide +kernel
    have hpreset : ", preset ".toList = ", ".toList ++ "preset".toList ++ [' '] := by decide +kernel
    unfold channelLine
    rw [hsfont, hbank, hpreset]
    simp only [List.append_assoc, List.singleton_append]
  have hwords : strtok columnDelimiters "chan 0".toList = ["chan".toList, "0".toList] ∧
      strtok columnDelimiters "sfont".toList = ["sfont".toList] ∧
      strtok columnDelimiters "bank".toList = ["bank".toList] ∧
      strtok columnDelimiters "preset".toList = ["preset".toList] := by
    decide +kernel
  obtain ⟨hchan, hsfont, hbank, hpreset⟩ := hwords
  rw [hline, strtok_comma, strtok_comma, strtok_comma, strtok_comma, strtok_blank, strtok_blank,
    strtok_blank, strtok_d, strtok_d, strtok_d, hchan, hsfont, hbank, hpreset]
  rfl

/-- The first line of a text is its first token. -/
theorem strtok_firstLine {s : List Char} (h : s.takeWhile (· ≠ '\n') ≠ []) :
    ∃ rest, strtok ['\n'] s = s.takeWhile (· ≠ '\n') :: rest := by
  have hword : strtok ['\n'] (s.takeWhile (· ≠ '\n')) = [s.takeWhile (· ≠ '\n')] := by
    refine strtok_word h fun c hc hmem => ?_
    have hne : c ≠ '\n' := by simpa using List.mem_takeWhile_imp hc
    exact hne (List.mem_singleton.1 hmem)
  cases hrest : s.dropWhile (· ≠ '\n') with
  | nil =>
      refine ⟨[], ?_⟩
      have hs := List.takeWhile_append_dropWhile (p := (· ≠ '\n')) (l := s)
      rw [hrest, List.append_nil] at hs
      rw [← hword, hs]
  | cons c rest =>
      obtain rfl : c = '\n' := by
        have hc := List.head?_dropWhile_not (· ≠ '\n') s
        rw [hrest] at hc
        simpa using hc
      refine ⟨strtok ['\n'] rest, ?_⟩
      have hs := List.takeWhile_append_dropWhile (p := (· ≠ '\n')) (l := s)
      rw [hrest] at hs
      conv_lhs => rw [← hs]
      rw [strtok_append_cons (by decide), hword]
      rfl

/-- A token that is no keyword changes neither column. -/
theorem readColumns_cons_of_ne {token : List Char} (hbank : token ≠ "bank".toList)
    (hpreset : token ≠ "preset".toList) (tokens : List (List Char)) (bank preset : Int) :
    readColumns (token :: tokens) bank preset = readColumns tokens bank preset := by
  conv_lhs => unfold readColumns
  rw [if_neg hbank, if_neg hpreset]

/-- The columns of a channel up to its name. -/
theorem readColumns_channel (sfont bank preset : Nat) (tokens : List (List Char)) :
    readColumns (["chan".toList, "0".toList, "sfont".toList, d sfont, "bank".toList, d bank,
        "preset".toList, d preset] ++ tokens) (-1) (-1) =
      readColumns tokens (atoi (d bank)) (atoi (d preset)) := by
  have hsfont : d sfont ≠ "bank".toList ∧ d sfont ≠ "preset".toList := by
    have hwords : ¬Digits "bank".toList ∧ ¬Digits "preset".toList := by decide
    exact ⟨fun heq => hwords.1 (heq ▸ digits_d sfont), fun heq => hwords.2 (heq ▸ digits_d sfont)⟩
  show readColumns ("chan".toList :: "0".toList :: "sfont".toList :: d sfont :: "bank".toList ::
    d bank :: "preset".toList :: d preset :: tokens) (-1) (-1) = _
  rw [readColumns_cons_of_ne (by decide) (by decide),
    readColumns_cons_of_ne (by decide) (by decide),
    readColumns_cons_of_ne (by decide) (by decide), readColumns_cons_of_ne hsfont.1 hsfont.2]
  rfl

/-! ## Reading back -/

/-- What is read when the first line is the one of the channel. -/
theorem readInstrument_channelLine {runCommand : RunCommand} {sfont bank preset : Nat}
    {name : List Char}
    (h : (runCommand "channels -verbose".toList 1000).takeWhile (· ≠ '\n') =
      channelLine sfont bank preset name) :
    readInstrument runCommand =
      (readColumns (strtok columnDelimiters name) (atoi (d bank)) (atoi (d preset))).bind
        fun p => sprintf 30 (bankPresetText p.1 p.2) := by
  have hne : (runCommand "channels -verbose".toList 1000).takeWhile (· ≠ '\n') ≠ [] := by
    rw [h]
    unfold channelLine
    intro hnil
    cases hnil
  obtain ⟨rest, hrest⟩ := strtok_firstLine hne
  rw [h] at hrest
  have hcolumns : readColumns (strtok columnDelimiters (channelLine sfont bank preset name))
      (-1) (-1) = readColumns (strtok columnDelimiters name) (atoi (d bank)) (atoi (d preset)) := by
    rw [strtok_channelLine, readColumns_channel]
  rw [readInstrument, hrest]
  show (readColumns (strtok columnDelimiters (channelLine sfont bank preset name)) (-1) (-1)).bind
    _ = _
  rw [hcolumns]
  rfl

/-- The text tells the bank and the preset. -/
theorem bankPresetText_inj {b p : Int} {bank preset : Nat}
    (h : bankPresetText b p = bankPresetText bank preset) : b = bank ∧ p = preset := by
  have hnot : ∀ n : Nat, '-' ∉ d03 n := by
    intro n hmem
    cases digits_d03 n '-' hmem
  rcases Int.lt_or_le b 0 with hneg | hpos
  · have hminus : (bankPresetText bank preset).head? = some '-' := by
      rw [← h, bankPresetText, d03, if_pos hneg]
      rfl
    obtain ⟨c, cs, hcs⟩ := List.exists_cons_of_ne_nil (d03_ne_nil bank)
    rw [bankPresetText, hcs, List.cons_append, List.head?_cons] at hminus
    exact absurd (hcs ▸ Option.some.inj hminus ▸ List.mem_cons_self) (hnot bank)
  · obtain ⟨k, rfl⟩ := Int.eq_ofNat_of_zero_le hpos
    have hsplit := congrArg (List.splitOn '-') h
    rw [bankPresetText, bankPresetText, List.splitOn_append_cons_self_of_not_mem (hnot k),
      List.splitOn_append_cons_self_of_not_mem (hnot bank)] at hsplit
    have hbank := d03_inj_natCast (List.cons.inj hsplit).1
    rw [bankPresetText, bankPresetText, hbank, List.append_cancel_left_eq] at h
    exact ⟨hbank, d03_inj_natCast (List.cons.inj h).2⟩

/-- A text of a bank and a preset that are read from numbers fits its buffer and is written as the
command that selects them. -/
theorem writeInstrument_bankPresetText {bank preset : Nat} (hbank : bank < 2 ^ 31)
    (hpreset : preset < 2 ^ 31) :
    sprintf 30 (bankPresetText bank preset) = some (bankPresetText bank preset) ∧
      writeInstrument (bankPresetText bank preset) = some [selectCommand bank preset] := by
  have hlengths := And.intro (length_d03_le hbank) (length_d03_le hpreset)
  have hdigits : ∀ n : Nat, strtok ['-'] (d03 n) = [d03 n] := fun n =>
    strtok_digits (d03_ne_nil n) (digits_d03 n) (by simp)
  have htokens : strtok ['-'] (bankPresetText bank preset) = [d03 bank, d03 preset] := by
    rw [bankPresetText, strtok_append_cons (by decide), hdigits, hdigits]
    rfl
  refine ⟨sprintf_of_lt ?_, ?_⟩
  · rw [bankPresetText, List.length_append, List.length_cons]
    omega
  · have hcommand : (selectCommand bank preset).length < 50 := by
      have hfront : "select 0 1 ".toList.length = 11 := by decide
      have hd := And.intro (CText.length_d_le hbank) (CText.length_d_le hpreset)
      unfold selectCommand
      rw [List.length_append, List.length_append, List.length_cons, hfront]
      omega
    rw [writeInstrument, htokens]
    show (sprintf 50 ("select 0 1 ".toList ++ d (atoi (d03 bank)) ++ ' ' ::
      d (atoi (d03 preset)))).bind _ = _
    rw [atoi_d03 hbank, atoi_d03 hpreset]
    exact congrArg (fun command => command.bind fun c => some [c]) (sprintf_of_lt hcommand)

/-- A number that stays as it is, or is read from a word, is an `int`. -/
theorem last_lt {last : Option (List Char)} {s : List Char} {n : Nat}
    (h : (last.map atoi).getD (atoi s) = n) : n < 2 ^ 31 := by
  have hlt : (last.map atoi).getD (atoi s) < 2 ^ 31 := by
    cases last with
    | none => exact atoi_lt s
    | some word => exact atoi_lt word
  omega

/-- The instrument of the first line is stored, no null pointer is read, and writing what was stored
selects it again, exactly when the bank and the preset are `int`s and the words of the name leave
them as they are. -/
theorem readInstrument_reads_back_iff (runCommand : RunCommand) (sfont bank preset : Nat)
    (name : List Char)
    (h : (runCommand "channels -verbose".toList 1000).takeWhile (· ≠ '\n') =
      channelLine sfont bank preset name) :
    (readInstrument runCommand = some (bankPresetText bank preset) ∧
        writeInstrument (bankPresetText bank preset) = some [selectCommand bank preset]) ↔
      bank < 2 ^ 31 ∧ preset < 2 ^ 31 ∧ NameKeeps bank preset name := by
  rw [readInstrument_channelLine h]
  constructor
  · rintro ⟨hread, -⟩
    obtain ⟨⟨b, p⟩, hcolumns, htext⟩ := Option.bind_eq_some_iff.1 hread
    have hsame : bankPresetText b p = bankPresetText bank preset := by
      unfold sprintf at htext
      split at htext
      · exact Option.some.inj htext
      · cases htext
    obtain ⟨rfl, rfl⟩ := bankPresetText_inj hsame
    have hlast := hcolumns
    rw [readColumns_eq] at hlast
    obtain ⟨ks, -, hks⟩ := Option.map_eq_some_iff.1 hlast
    have hbank := last_lt (congrArg Prod.fst hks)
    have hpreset := last_lt (congrArg Prod.snd hks)
    rw [atoi_d hbank, atoi_d hpreset, readColumns_keeps_iff] at hcolumns
    exact ⟨hbank, hpreset, hcolumns⟩
  · rintro ⟨hbank, hpreset, hkeeps⟩
    have hwrite := writeInstrument_bankPresetText hbank hpreset
    rw [atoi_d hbank, atoi_d hpreset, (readColumns_keeps_iff name bank preset).2 hkeeps]
    exact hwrite

/-- A synthesizer with one channel. -/
def oneChannel (bank preset : Nat) (name : String) : RunCommand := fun _ _ =>
  channelLine 1 bank preset name.toList ++ ['\n']

/-- The piano is read, and the same is selected with what was read. -/
theorem piano_reads_back :
    readInstrument (oneChannel 8 4 "Grand Piano") = some (bankPresetText 8 4) ∧
      writeInstrument (bankPresetText 8 4) = some [selectCommand 8 4] := by
  refine (readInstrument_reads_back_iff (oneChannel 8 4 "Grand Piano") 1 8 4 "Grand Piano".toList
    (by decide +kernel)).2 ⟨by decide, by decide, [], by decide +kernel, ?_, ?_⟩
  · intro word h
    cases h
  · intro word h
    cases h

/-- A name that ends with `bank` makes `atoi` read from a null pointer. -/
theorem bank_name_null : readInstrument (oneChannel 8 4 "Piano bank") = none := by
  decide +kernel

end Soundcan.FluidUi
