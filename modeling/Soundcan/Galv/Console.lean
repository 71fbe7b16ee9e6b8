import Soundcan.Lib.LastWrite
import Soundcan.Lib.Scanf

/-!
# The command prompt of jalv

`jalv_process_command` tries the formats of the commands one after the other, and `sscanf` takes
white space in a format for any or none. So a line that sets a control by its symbol is taken for
another command where the symbol begins like one: `parseCommand_assign_iff` says which symbols these
are. The form with `set` in front works for each symbol, and a session of such lines leaves each
control at the last value that it was given (`console_sets`).
-/

namespace Soundcan.Galv

open Scanf CText

/-! ## Commands -/

/-- `[a-zA-Z0-9_]`. -/
def symbolChar (c : Char) : Bool := c.isAlphanum ∨ c = '_'

/-- The set of `preset`: that of the symbols with `:`, `/`, `-`, `.` and `#`. Its `-` stands between
`/` and `.`, which is no range, and so for itself. -/
def presetChar (c : Char) : Bool := symbolChar c ∨ c ∈ [':', '/', '-', '.', '#']

/-- `preset`, a text of this set and white space. -/
def presetFormat : List Directive :=
  lits ['p', 'r', 'e', 's', 'e', 't'] ++ [.space, .set 1023 presetChar, .space]

/-- `"set %u %f"`. -/
def setIndexFormat : List Directive := lits ['s', 'e', 't'] ++ [.space, .u, .space, .f]

/-- `"set %1023[a-zA-Z0-9_] %f"`. -/
def setSymbolFormat : List Directive :=
  lits ['s', 'e', 't'] ++ [.space, .set 1023 symbolChar, .space, .f]

/-- `"%1023[a-zA-Z0-9_] = %f"`. -/
def assignFormat : List Directive := [.set 1023 symbolChar, .space, .lit '=', .space, .f]

/-- What a line asks for. -/
inductive Command where
  | help
  | presets
  | preset (uri : List Char)
  | controls
  | monitors
  | setIndex (index : Nat) (value : List Char)
  | setSymbol (sym value : List Char)
  | invalid
  deriving DecidableEq

/-- The tests of `jalv_process_command`. -/
def parseCommand (cmd : List Char) : Command :=
  if ['h', 'e', 'l', 'p'].isPrefixOf cmd then .help
  else if cmd = ['p', 'r', 'e', 's', 'e', 't', 's', '\n'] then .presets
  else
    match sscanf presetFormat cmd with
    | [.text uri] => .preset uri
    | _ =>
      if cmd = ['c', 'o', 'n', 't', 'r', 'o', 'l', 's', '\n'] then .controls
      else if cmd = ['m', 'o', 'n', 'i', 't', 'o', 'r', 's', '\n'] then .monitors
      else
        match sscanf setIndexFormat cmd with
        | [.number index, .float value] => .setIndex index value
        | _ =>
          match sscanf setSymbolFormat cmd with
          | [.text sym, .float value] => .setSymbol sym value
          | _ =>
            match sscanf assignFormat cmd with
            | [.text sym, .float value] => .setSymbol sym value
            | _ => .invalid

/-! ## What the commands do -/

/-- A `ControlID` of a port. -/
structure PromptControl where
  symbol : List Char
  index : Nat
  isWritable : Bool
  isReadable : Bool

/-- What the prompt works on: the symbols of the ports, the controls and `controls_buf`. -/
structure Prompt (F : Type) where
  symbols : List (List Char)
  controls : List PromptControl
  controlsBuf : Nat → F

/-- What is printed for a command. -/
inductive Reply (F : Type) where
  | commands
  | presets
  | control (symbol : List Char) (value : F)
  | outOfRange
  | noControl (sym : List Char)
  | invalid

/-- The port of a symbol, by `jalv_port_by_symbol`. -/
def portBySymbol (symbols : List (List Char)) (sym : List Char) : Option Nat :=
  symbols.findIdx? (· = sym)

variable {F : Type}

/-- `print_controls`. -/
def printControls (s : Prompt F) (writable readable : Bool) : List (Reply F) :=
  (s.controls.filter fun control =>
    (control.isWritable && writable) || (control.isReadable && readable)).map fun control =>
      .control control.symbol (s.controlsBuf control.index)

/-- `jalv_process_command`. Floats are what `strtof` makes of their texts; `applyPreset` is what
`jalv_apply_preset` leaves in `controls_buf`. -/
def jalvProcessCommand (strtof : List Char → F)
    (applyPreset : List Char → (Nat → F) → Nat → F) (s : Prompt F) (cmd : List Char) :
    Prompt F × List (Reply F) :=
  match parseCommand cmd with
  | .help => (s, [.commands])
  | .presets => (s, [.presets])
  | .preset uri =>
    let s := { s with controlsBuf := applyPreset uri s.controlsBuf }
    (s, printControls s true false)
  | .controls => (s, printControls s true false)
  | .monitors => (s, printControls s false true)
  | .setIndex index value =>
    match s.symbols[index]? with
    | some symbol =>
      ({ s with controlsBuf := Function.update s.controlsBuf index (strtof value) },
        [.control symbol (strtof value)])
    | none => (s, [.outOfRange])
  | .setSymbol sym value =>
    match portBySymbol s.symbols sym with
    | some index =>
      ({ s with controlsBuf := Function.update s.controlsBuf index (strtof value) },
        [.control sym (strtof value)])
    | none => (s, [.noControl sym])
  | .invalid => (s, [.invalid])

/-- What `fgets` gives one after the other for a line buffer of `size + 1` bytes; `room` is what is
left for the line that has begun. -/
def fgets (size : Nat) : Nat → List Char → List (List Char)
  | _, [] => []
  | room, c :: s =>
    if c = '\n' ∨ room ≤ 1 then [c] :: fgets size size s
    else
      match fgets size (room - 1) s with
      | [] => [[c]]
      | line :: lines => (c :: line) :: lines

/-- One line of it. -/
def consoleLine (strtof : List Char → F) (applyPreset : List Char → (Nat → F) → Nat → F)
    (s : Prompt F × List (Reply F)) (line : List Char) : Prompt F × List (Reply F) :=
  let (prompt, replies) := jalvProcessCommand strtof applyPreset s.1 line
  (prompt, s.2 ++ replies)

/-- The prompt of `jalv_frontend_open`, to the end of its input. -/
def console (strtof : List Char → F) (applyPreset : List Char → (Nat → F) → Nat → F)
    (s : Prompt F) (stdin : List Char) : Prompt F × List (Reply F) :=
  (fgets 1023 1023 stdin).foldl (consoleLine strtof applyPreset) (s, [])

/-! ## Lines that set a control -/

/-- A symbol of LV2. -/
structure IsSymbol (sym : List Char) : Prop where
  chars : ∀ c ∈ sym, symbolChar c = true
  head : ∃ c, sym.head? = some c ∧ ¬c.isDigit = true

instance (sym : List Char) : Decidable (IsSymbol sym) :=
  decidable_of_iff (sym.all symbolChar = true ∧ (sym.head?.any fun c => !c.isDigit) = true) (by
    constructor
    · rintro ⟨hchars, hhead⟩
      cases sym with
      | nil => cases hhead
      | cons c sym => exact ⟨List.all_eq_true.1 hchars, c, rfl, by simpa using hhead⟩
    · rintro ⟨hchars, c, hc, hdigit⟩
      exact ⟨List.all_eq_true.2 hchars, by simpa [hc] using hdigit⟩)

/-- `SYMBOL = VALUE`. -/
def assignLine (sym value : List Char) : List Char := sym ++ ' ' :: '=' :: ' ' :: (value ++ ['\n'])

/-- `set SYMBOL VALUE`. -/
def setLine (sym value : List Char) : List Char :=
  's' :: 'e' :: 't' :: ' ' :: (sym ++ ' ' :: (value ++ ['\n']))

/-- The symbol begins like another command. -/
def Shadowed (sym : List Char) : Prop :=
  ['h', 'e', 'l', 'p'].isPrefixOf sym ∨
  (['p', 'r', 'e', 's', 'e', 't'].isPrefixOf sym ∧ sym ≠ ['p', 'r', 'e', 's', 'e', 't']) ∨
  (sscanf setIndexFormat sym).length = 2

instance (sym : List Char) : Decidable (Shadowed sym) := inferInstanceAs (Decidable (_ ∨ _))

example : Shadowed "help_volume".toList ∧ Shadowed "preset_mix".toList ∧ Shadowed "set1inf".toList ∧
    ¬Shadowed "set1".toList ∧ ¬Shadowed "preset".toList := by decide

/-! ### The characters -/

/-- No character of a symbol is one that ends or begins something else. -/
theorem symbolChar_ne {c : Char} (h : symbolChar c = true) :
    ¬isspace c = true ∧ c ≠ '+' ∧ c ≠ '-' ∧ c ≠ '=' := by
  refine ⟨fun hspace => ?_, ?_, ?_, ?_⟩
  · rcases isspace_cases hspace with rfl | rfl | rfl | rfl | rfl | rfl <;> cases h
  · rintro rfl
    cases h
  · rintro rfl
    cases h
  · rintro rfl
    cases h

/-- A symbol is not empty. -/
theorem IsSymbol.ne_nil {sym : List Char} (h : IsSymbol sym) : sym ≠ [] := by
  obtain ⟨c, hc, -⟩ := h.head
  rintro rfl
  cases hc

/-- White space in front of a symbol ends there. -/
theorem dropWhile_symbol {sym s : List Char} (hne : sym ≠ [])
    (hchars : ∀ c ∈ sym, symbolChar c = true) :
    (sym ++ s).dropWhile isspace = sym ++ s := by
  obtain ⟨c, t, rfl⟩ := List.exists_cons_of_ne_nil hne
  exact List.dropWhile_cons_of_neg (symbolChar_ne (hchars c List.mem_cons_self)).1

/-- A word without blanks stands in front of a blank, or not at all. -/
theorem isPrefixOf_append_blank {word : List Char} (h : ' ' ∉ word) (s t : List Char) :
    word.isPrefixOf (s ++ ' ' :: t) = word.isPrefixOf s := by
  induction word generalizing s with
  | nil => rfl
  | cons c word ih =>
      rw [List.mem_cons, not_or] at h
      cases s with
      | nil =>
          have hc : (c == ' ') = false := beq_eq_false_iff_ne.2 (Ne.symm h.1)
          rw [List.nil_append, List.isPrefixOf_cons_cons, hc]
          rfl
      | cons d s =>
          rw [List.cons_append, List.isPrefixOf_cons_cons, List.isPrefixOf_cons_cons, ih h.2]

/-! ### The formats on such lines -/

/-- What `set %u %f` stores. -/
theorem sscanf_setIndexFormat (s : List Char) :
    sscanf setIndexFormat s = [] ∨ (∃ n, sscanf setIndexFormat s = [.number n]) ∨
      ∃ n v, sscanf setIndexFormat s = [.number n, .float v] := by
  rw [setIndexFormat, sscanf_lits]
  split
  next =>
    simp only [sscanf]
    split
    next n rest _ =>
      split
      next v _ _ => exact .inr (.inr ⟨n, v, rfl⟩)
      next => exact .inr (.inl ⟨n, rfl⟩)
    next => exact .inl rfl
  next => exact .inl rfl

/-- On a line that sets a symbol it stores as much as on the symbol. -/
theorem length_sscanf_setIndexFormat {sym : List Char} (hchars : ∀ c ∈ sym, symbolChar c = true)
    (w : List Char) :
    (sscanf setIndexFormat (sym ++ ' ' :: '=' :: w)).length =
      (sscanf setIndexFormat sym).length := by
  have hspace : ∀ c ∈ (' ' :: '=' :: w).head?, isspace c = true := by
    rintro c ⟨⟩
    rfl
  have hequals : (' ' :: '=' :: w).dropWhile isspace = '=' :: w := rfl
  have hu : scanU ('=' :: w) = none := by
    refine scanU_eq_none ?_
    rintro c ⟨⟩
    decide
  have hf : scanF ('=' :: w) = none := by
    refine scanF_eq_none ?_
    rintro c ⟨⟩
    rfl
  rw [setIndexFormat, sscanf_lits, sscanf_lits, isPrefixOf_append_blank (by decide)]
  split
  next hbegins =>
    obtain ⟨t, rfl⟩ := List.isPrefixOf_iff_prefix.1 hbegins
    rw [List.append_assoc, List.drop_left, List.drop_left]
    have ht : ∀ c ∈ t, symbolChar c = true := fun c hc =>
      hchars c (List.mem_append_right _ hc)
    cases t with
    | nil =>
        simp only [sscanf, List.nil_append, hequals, hu]
        rfl
    | cons c t =>
        have hc := (symbolChar_ne (ht c List.mem_cons_self)).1
        have hdrop : ((c :: t) ++ ' ' :: '=' :: w).dropWhile isspace =
            (c :: t) ++ ' ' :: '=' :: w := List.dropWhile_cons_of_neg hc
        simp only [sscanf, hdrop, List.dropWhile_cons_of_neg hc, scanU_append_space hc hspace]
        cases hscan : scanU (c :: t) with
        | none => rfl
        | some p =>
            obtain ⟨n, rest⟩ := p
            have hrest : ∀ d ∈ rest, symbolChar d = true := fun d hd =>
              ht d ((scanU_suffix hscan).mem hd)
            cases rest with
            | nil =>
                have hnil : scanF [] = none := rfl
                simp only [Option.map_some, List.nil_append, hequals, hf, List.dropWhile_nil, hnil]
            | cons d r =>
                have hd := (symbolChar_ne (hrest d List.mem_cons_self)).1
                simp only [Option.map_some, List.cons_append, List.dropWhile_cons_of_neg hd]
                rw [← List.cons_append, scanF_append_space hd hspace]
                cases hfloat : scanF (d :: r) with
                | none => rfl
                | some p => rfl
  next => rfl

/-- `preset` takes a line that sets a symbol for a command of its own where the symbol goes on
behind it. -/
theorem sscanf_presetFormat {sym : List Char} (hchars : ∀ c ∈ sym, symbolChar c = true)
    (hlength : sym.length ≤ 1023) (w : List Char) :
    sscanf presetFormat (sym ++ ' ' :: '=' :: w) =
      if ['p', 'r', 'e', 's', 'e', 't'].isPrefixOf sym ∧ sym ≠ ['p', 'r', 'e', 's', 'e', 't'] then
        [.text (sym.drop 6)]
      else [] := by
  have hpreset : ∀ c : Char, symbolChar c = true → presetChar c = true := fun c hc => by
    rw [presetChar, hc]
    simp
  rw [presetFormat, sscanf_lits, isPrefixOf_append_blank (by decide)]
  by_cases hbegins : ['p', 'r', 'e', 's', 'e', 't'].isPrefixOf sym = true
  · obtain ⟨t, rfl⟩ := List.isPrefixOf_iff_prefix.1 hbegins
    rw [if_pos hbegins, List.append_assoc, List.drop_left]
    have ht : ∀ c ∈ t, symbolChar c = true := fun c hc =>
      hchars c (List.mem_append_right _ hc)
    cases t with
    | nil => rfl
    | cons c t =>
        have hne : ['p', 'r', 'e', 's', 'e', 't'] ++ c :: t ≠ ['p', 'r', 'e', 's', 'e', 't'] :=
          fun heq => by simpa using congrArg List.length heq
        have hwidth : (c :: t).length ≤ 1023 := by
          rw [List.length_append] at hlength
          omega
        rw [if_pos ⟨hbegins, hne⟩, sscanf, dropWhile_symbol (List.cons_ne_nil _ _) ht,
          sscanf_set (List.cons_ne_nil _ _) (fun d hd => hpreset d (ht d hd)) hwidth
            (by rintro d ⟨⟩; decide)]
        rfl
  · rw [if_neg hbegins, if_neg fun h => hbegins h.1]

/-- No `set` with a symbol stands in such a line. -/
theorem sscanf_setSymbolFormat {sym : List Char} (hchars : ∀ c ∈ sym, symbolChar c = true)
    (hlength : sym.length ≤ 1023) (w : List Char) :
    sscanf setSymbolFormat (sym ++ ' ' :: '=' :: w) = [] ∨
      ∃ t, sscanf setSymbolFormat (sym ++ ' ' :: '=' :: w) = [.text t] := by
  have hf : scanF ('=' :: w) = none := by
    refine scanF_eq_none ?_
    rintro c ⟨⟩
    rfl
  rw [setSymbolFormat, sscanf_lits]
  split
  next hbegins =>
    rw [isPrefixOf_append_blank (by decide)] at hbegins
    obtain ⟨t, rfl⟩ := List.isPrefixOf_iff_prefix.1 hbegins
    rw [List.append_assoc, List.drop_left]
    have ht : ∀ c ∈ t, symbolChar c = true := fun c hc =>
      hchars c (List.mem_append_right _ hc)
    cases t with
    | nil =>
        have hset : sscanf [.set 1023 symbolChar, .space, .f] ('=' :: w) = [] :=
          sscanf_set_eq_nil (by rintro c ⟨⟩; decide)
        exact .inl hset
    | cons c t =>
        have hwidth : (c :: t).length ≤ 1023 := by
          rw [List.length_append] at hlength
          omega
        refine .inr ⟨c :: t, ?_⟩
        have hequals : sscanf [.space, .f] (' ' :: '=' :: w) = sscanf [.f] ('=' :: w) := rfl
        rw [sscanf, dropWhile_symbol (List.cons_ne_nil _ _) ht,
          sscanf_set (List.cons_ne_nil _ _) ht hwidth (by rintro d ⟨⟩; decide), hequals, sscanf, hf]
  next => exact .inl rfl

/-- The two texts behind a symbol. -/
theorem sscanf_space_f {value : List Char} (h : FloatText value) :
    sscanf [.space, .f] (' ' :: (value ++ ['\n'])) = [.float value] := by
  have hdrop : (' ' :: (value ++ ['\n'])).dropWhile isspace = value ++ ['\n'] :=
    h.dropWhile ['\n']
  simp only [sscanf, hdrop, h.scanF_append (s := ['\n']) (by rintro c ⟨⟩; rfl)]

/-- A symbol, `=` and a value. -/
theorem sscanf_assignFormat {sym value : List Char} (hne : sym ≠ [])
    (hchars : ∀ c ∈ sym, symbolChar c = true) (hlength : sym.length ≤ 1023)
    (hvalue : FloatText value) :
    sscanf assignFormat (assignLine sym value) = [.text sym, .float value] := by
  rw [assignFormat, assignLine, sscanf_set hne hchars hlength (by rintro c ⟨⟩; decide),
    ← sscanf_space_f hvalue]
  rfl

/-! ### The commands of such lines -/

/-- A line that sets a control by its symbol does so, unless the symbol begins like another
command. -/
theorem parseCommand_assign_iff {sym value : List Char} (hsym : IsSymbol sym)
    (hvalue : FloatText value) (hlength : (assignLine sym value).length ≤ 1023) :
    parseCommand (assignLine sym value) = .setSymbol sym value ↔ ¬Shadowed sym := by
  have hwidth : sym.length ≤ 1023 := by
    rw [assignLine, List.length_append] at hlength
    omega
  have hassign := sscanf_assignFormat hsym.ne_nil hsym.chars hwidth hvalue
  have hblank : ∀ word : List Char, ' ' ∉ word → assignLine sym value ≠ word := by
    rintro _ hword rfl
    exact hword (List.mem_append_right _ List.mem_cons_self)
  have hblank' : ' ' ∉ ['h', 'e', 'l', 'p'] := by decide
  have hhelp := isPrefixOf_append_blank hblank' sym ('=' :: ' ' :: (value ++ ['\n']))
  have hpreset := sscanf_presetFormat hsym.chars hwidth (' ' :: (value ++ ['\n']))
  have hindex := length_sscanf_setIndexFormat hsym.chars (' ' :: (value ++ ['\n']))
  have hset := sscanf_setSymbolFormat hsym.chars hwidth (' ' :: (value ++ ['\n']))
  rw [← assignLine] at hhelp hpreset hindex hset
  rw [parseCommand, hhelp, if_neg (hblank ['p', 'r', 'e', 's', 'e', 't', 's', '\n'] (by decide)),
    if_neg (hblank ['c', 'o', 'n', 't', 'r', 'o', 'l', 's', '\n'] (by decide)),
    if_neg (hblank ['m', 'o', 'n', 'i', 't', 'o', 'r', 's', '\n'] (by decide))]
  by_cases hword : ['h', 'e', 'l', 'p'].isPrefixOf sym = true
  · rw [if_pos hword]
    exact iff_of_false nofun (not_not_intro (.inl hword))
  rw [if_neg hword]
  by_cases hlong :
      ['p', 'r', 'e', 's', 'e', 't'].isPrefixOf sym ∧ sym ≠ ['p', 'r', 'e', 's', 'e', 't']
  · rw [hpreset, if_pos hlong]
    exact iff_of_false nofun (not_not_intro (.inr (.inl hlong)))
  rw [hpreset, if_neg hlong]
  by_cases htwo : (sscanf setIndexFormat sym).length = 2
  · -- the number is stored, and so the line is taken for `set INDEX VALUE`
    refine iff_of_false ?_ (not_not_intro (.inr (.inr htwo)))
    rw [← hindex] at htwo
    obtain heq | ⟨n, heq⟩ | ⟨n, v, heq⟩ := sscanf_setIndexFormat (assignLine sym value)
    · rw [heq] at htwo
      cases htwo
    · rw [heq] at htwo
      cases htwo
    · rw [heq]
      exact nofun
  · refine iff_of_true ?_ fun h => h.elim hword fun h => h.elim hlong htwo
    rw [← hindex] at htwo
    obtain heq | ⟨n, heq⟩ | ⟨n, v, heq⟩ := sscanf_setIndexFormat (assignLine sym value)
    · obtain hset | ⟨t, hset⟩ := hset <;> rw [heq, hset, hassign]
    · obtain hset | ⟨t, hset⟩ := hset <;> rw [heq, hset, hassign]
    · rw [heq] at htwo
      exact absurd rfl htwo

/-- `gain = 0.5` sets the control `gain`, and `preset_mix = 1` loads a preset. -/
theorem parseCommand_assign_gain :
    parseCommand (assignLine "gain".toList "0.5".toList) =
      .setSymbol "gain".toList "0.5".toList ∧
    parseCommand (assignLine "preset_mix".toList "1".toList) ≠
      .setSymbol "preset_mix".toList "1".toList :=
  ⟨(parseCommand_assign_iff (by decide) (by decide) (by decide)).2 (by decide),
    fun h => (parseCommand_assign_iff (by decide) (by decide) (by decide)).1 h (by decide)⟩

/-- There is no line break in a symbol. -/
theorem symbol_notMem {sym : List Char} (hchars : ∀ c ∈ sym, symbolChar c = true) : '\n' ∉ sym :=
  fun hmem => (symbolChar_ne (hchars _ hmem)).1 rfl

/-- With `set` in front it does so for each symbol. -/
theorem parseCommand_setLine {sym value : List Char} (hsym : IsSymbol sym)
    (hvalue : FloatText value) (hlength : sym.length ≤ 1023) :
    parseCommand (setLine sym value) = .setSymbol sym value := by
  have hdrop : (' ' :: (sym ++ ' ' :: (value ++ ['\n']))).dropWhile isspace =
      sym ++ ' ' :: (value ++ ['\n']) := dropWhile_symbol hsym.ne_nil hsym.chars
  have hpreset : sscanf presetFormat (setLine sym value) = [] := by
    rw [presetFormat, sscanf_lits]
    rfl
  have hu : scanU (sym ++ ' ' :: (value ++ ['\n'])) = none := by
    obtain ⟨c, hc, hdigit⟩ := hsym.head
    have hchar := symbolChar_ne (hsym.chars c (List.mem_of_head? hc))
    refine scanU_eq_none fun d hd => ?_
    rw [dropWhile_symbol hsym.ne_nil hsym.chars, List.head?_append, hc] at hd
    obtain rfl : c = d := by simpa using hd
    exact ⟨hchar.2.2.1, hchar.2.1, hdigit⟩
  have hindex : sscanf setIndexFormat (setLine sym value) = [] := by
    rw [setIndexFormat, sscanf_lits]
    show sscanf [.u, .space, .f] ((' ' :: (sym ++ ' ' :: (value ++ ['\n']))).dropWhile isspace) = []
    rw [hdrop, sscanf, hu]
  have hset : sscanf setSymbolFormat (setLine sym value) = [.text sym, .float value] := by
    rw [setSymbolFormat, sscanf_lits]
    show sscanf [.set 1023 symbolChar, .space, .f]
      ((' ' :: (sym ++ ' ' :: (value ++ ['\n']))).dropWhile isspace) = _
    rw [hdrop, sscanf_set hsym.ne_nil hsym.chars hlength (by rintro c ⟨⟩; decide),
      sscanf_space_f hvalue]
  have hne : ∀ {c : Char} {word : List Char}, c ≠ 's' → setLine sym value ≠ c :: word :=
    fun hc h => hc (List.cons.inj h).1.symm
  have hhelp : ¬['h', 'e', 'l', 'p'].isPrefixOf (setLine sym value) = true := Bool.false_ne_true
  rw [parseCommand, if_neg hhelp, if_neg (hne (by decide)), hpreset]
  simp only
  rw [if_neg (hne (by decide)), if_neg (hne (by decide)), hindex]
  simp only
  rw [hset]

/-! ## A session -/

/-- A line of the session that sets a control, in one of the two forms. -/
structure Setting where
  sym : List Char
  value : List Char
  assign : Bool

namespace Setting

def line (p : Setting) : List Char :=
  if p.assign then assignLine p.sym p.value else setLine p.sym p.value

/-- It is what its user means. -/
structure Plain (p : Setting) : Prop where
  symbol : IsSymbol p.sym
  float : FloatText p.value
  length : p.line.length ≤ 1023
  shadowed : p.assign = true → ¬Shadowed p.sym

/-- What it prints. -/
def reply (strtof : List Char → F) (symbols : List (List Char)) (p : Setting) : Reply F :=
  match portBySymbol symbols p.sym with
  | some _ => .control p.sym (strtof p.value)
  | none => .noControl p.sym

/-- The line of a plain setting is parsed as the setting. -/
theorem Plain.parseCommand {p : Setting} (h : p.Plain) :
    parseCommand p.line = .setSymbol p.sym p.value := by
  have hlength := h.length
  rw [line] at hlength ⊢
  split
  next hassign =>
    rw [if_pos hassign] at hlength
    exact (parseCommand_assign_iff h.symbol h.float hlength).2 (h.shadowed hassign)
  next hassign =>
    rw [if_neg hassign, setLine] at hlength
    refine parseCommand_setLine h.symbol h.float ?_
    simp only [List.length_cons, List.length_append] at hlength
    omega

/-- Its only line break is its last character. -/
theorem Plain.line_eq {p : Setting} (h : p.Plain) :
    ∃ body, p.line = body ++ ['\n'] ∧ '\n' ∉ body := by
  have hsym := symbol_notMem h.symbol.chars
  have hvalue : '\n' ∉ p.value := fun hmem => h.float.not_isspace _ hmem rfl
  rw [line]
  split
  next =>
    exact ⟨p.sym ++ ' ' :: '=' :: ' ' :: p.value, by simp [assignLine], by simp [hsym, hvalue]⟩
  next =>
    exact ⟨'s' :: 'e' :: 't' :: ' ' :: (p.sym ++ ' ' :: p.value), by simp [setLine],
      by simp [hsym, hvalue]⟩

end Setting

/-- `fgets` gives a line that fits as it is. -/
theorem fgets_line {size room : Nat} {body : List Char} (hbody : '\n' ∉ body)
    (hroom : body.length < room) (s : List Char) :
    fgets size room (body ++ '\n' :: s) = (body ++ ['\n']) :: fgets size size s := by
  induction body generalizing room with
  | nil => rw [List.nil_append, fgets, if_pos (.inl rfl), List.nil_append]
  | cons c body ih =>
      rw [List.mem_cons, not_or] at hbody
      rw [List.length_cons] at hroom
      have hc : ¬(c = '\n' ∨ room ≤ 1) := fun h => h.elim (Ne.symm hbody.1) (by omega)
      rw [List.cons_append, fgets, if_neg hc, ih hbody.2 (by omega)]
      rfl

/-- The lines of plain settings are read one by one. -/
theorem fgets_lines {settings : List Setting} (h : ∀ p ∈ settings, p.Plain) :
    fgets 1023 1023 (settings.flatMap Setting.line) = settings.map Setting.line := by
  induction settings with
  | nil => rfl
  | cons p settings ih =>
      rw [List.forall_mem_cons] at h
      obtain ⟨body, hline, hbody⟩ := h.1.line_eq
      have hlength := h.1.length
      rw [hline, List.length_append, List.length_singleton] at hlength
      rw [List.flatMap_cons, hline, List.append_assoc, List.singleton_append,
        fgets_line hbody (by omega), ih h.2, List.map_cons, hline]

/-- What one setting does. -/
theorem jalvProcessCommand_line (strtof : List Char → F)
    (applyPreset : List Char → (Nat → F) → Nat → F) (s : Prompt F) {p : Setting} (h : p.Plain) :
    jalvProcessCommand strtof applyPreset s p.line =
      ({ s with
        controlsBuf := LastWrite.store (fun p => portBySymbol s.symbols p.sym)
          (fun p => strtof p.value) s.controlsBuf p },
        [p.reply strtof s.symbols]) := by
  have hcommand : jalvProcessCommand strtof applyPreset s p.line =
      match portBySymbol s.symbols p.sym with
      | some index =>
        ({ s with controlsBuf := Function.update s.controlsBuf index (strtof p.value) },
          [.control p.sym (strtof p.value)])
      | none => (s, [.noControl p.sym]) := by
    rw [jalvProcessCommand, h.parseCommand]
  rw [hcommand, Setting.reply, LastWrite.store]
  cases portBySymbol s.symbols p.sym <;> rfl

/-- The lines of plain settings store their values, and the last one for a control wins. -/
theorem foldl_consoleLine (strtof : List Char → F)
    (applyPreset : List Char → (Nat → F) → Nat → F) {settings : List Setting}
    (h : ∀ p ∈ settings, p.Plain) (s : Prompt F) (replies : List (Reply F)) :
    (settings.map Setting.line).foldl (consoleLine strtof applyPreset) (s, replies) =
      ({ s with
        controlsBuf := LastWrite.storeAll (fun p => portBySymbol s.symbols p.sym)
          (fun p => strtof p.value) s.controlsBuf settings },
        replies ++ settings.map (·.reply strtof s.symbols)) := by
  induction settings generalizing s replies with
  | nil => rw [List.map_nil, List.map_nil, List.append_nil]; rfl
  | cons p settings ih =>
      rw [List.forall_mem_cons] at h
      rw [List.map_cons, List.foldl_cons, consoleLine, jalvProcessCommand_line _ _ _ h.1, ih h.2,
        List.append_assoc, List.singleton_append]
      rfl

/-- A session of settings leaves each control at the last value that it was given there, and answers
each line. -/
theorem console_sets (strtof : List Char → F) (applyPreset : List Char → (Nat → F) → Nat → F)
    (s : Prompt F) {settings : List Setting} (h : ∀ p ∈ settings, p.Plain) :
    (∀ i, (console strtof applyPreset s (settings.flatMap Setting.line)).1.controlsBuf i =
      match settings.reverse.find? fun p => portBySymbol s.symbols p.sym = some i with
      | some p => strtof p.value
      | none => s.controlsBuf i) ∧
    (console strtof applyPreset s (settings.flatMap Setting.line)).2 =
      settings.map (·.reply strtof s.symbols) := by
  rw [console, fgets_lines h, foldl_consoleLine strtof applyPreset h, List.nil_append]
  refine ⟨fun i => (LastWrite.storeAll_apply settings i).trans ?_, rfl⟩
  unfold LastWrite.last
  cases settings.reverse.find? fun p => portBySymbol s.symbols p.sym = some i <;> rfl

/-- Two settings of one control, and one of a control that is not there. -/
theorem console_sets_gain :
    let s : Prompt (List Char) :=
      { symbols := ["in".toList, "gain".toList], controls := [], controlsBuf := fun _ => [] }
    let settings : List Setting :=
      [⟨"gain".toList, "1".toList, false⟩, ⟨"gain".toList, "0.5".toList, true⟩,
        ⟨"mix".toList, "2".toList, false⟩]
    (console id (fun _ buf => buf) s (settings.flatMap Setting.line)).1.controlsBuf 1 =
      "0.5".toList ∧
    (console id (fun _ buf => buf) s (settings.flatMap Setting.line)).2 =
      [.control "gain".toList "1".toList, .control "gain".toList "0.5".toList,
        .noControl "mix".toList] := by
  intro s settings
  have hplain : ∀ p ∈ settings, p.Plain := by
    simp only [settings, List.forall_mem_cons]
    exact ⟨⟨by decide, by decide, by decide, nofun⟩,
      ⟨by decide, by decide, by decide, fun _ => by decide⟩,
      ⟨by decide, by decide, by decide, nofun⟩, nofun⟩
  have hsets := console_sets id (fun _ buf => buf) s hplain
  exact ⟨hsets.1 1, hsets.2⟩

end Soundcan.Galv
