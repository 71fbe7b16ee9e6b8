import Soundcan.Lib.CText
import Soundcan.Ui.Fluidsynth

/-!
# The commands of a request

The handlers of the fluidsynth page put path values and form values as they are into a command of
the synthesizer, which ends at a newline and whose words are separated by white space. A request
sends one command of its own kind exactly when none of the values has a newline, its form values are
as many words as there are places for them, and it does not have to fetch the fonts
(`one_command_iff`).
-/

namespace Soundcan.Ui

open CText

/-! ## Words -/

/-- White space between the words of a command. -/
def blanks : List Char := [' ', '\t', '\n', '\x0b', '\x0c', '\r']

/-- The words of a command. -/
def commandWords (s : String) : List (List Char) := strtok blanks s.toList

/-- A verb and pieces behind blanks. -/
def spaced (verb : String) (pieces : List String) : String :=
  verb ++ .join (pieces.map (" " ++ ·))

/-- A blank ends a word. -/
theorem commandWords_append_blank (s t : String) :
    commandWords (s ++ " " ++ t) = commandWords s ++ commandWords t := by
  have htext : (s ++ " " ++ t).toList = s.toList ++ ' ' :: t.toList := by simp
  rw [commandWords, htext, strtok_append_cons (by decide)]
  rfl

/-- The line break adds no word. -/
theorem commandWords_written (s : String) : commandWords (written s) = commandWords s := by
  have htext : (written s).toList = s.toList ++ '\n' :: [] := by simp [written]
  rw [commandWords, htext, strtok_append_cons (by decide)]
  exact List.append_nil _

/-- The first piece belongs to what is in front of the others. -/
theorem spaced_cons (verb piece : String) (pieces : List String) :
    spaced verb (piece :: pieces) = spaced (verb ++ " " ++ piece) pieces := by
  rw [spaced, spaced, List.map_cons, String.join_cons, String.append_assoc, String.append_assoc,
    String.append_assoc]

/-- The words of a command are those of its verb and of its pieces. -/
theorem commandWords_spaced (verb : String) (pieces : List String) :
    commandWords (spaced verb pieces) = commandWords verb ++ pieces.flatMap commandWords := by
  induction pieces generalizing verb with
  | nil => rw [spaced, List.map_nil, String.join_nil, String.append_empty, List.flatMap_nil,
      List.append_nil]
  | cons piece pieces ih =>
      rw [spaced_cons, ih, commandWords_append_blank, List.flatMap_cons, List.append_assoc]

/-- A line break in a command is one of its verb or its pieces. -/
theorem newline_mem_spaced {verb : String} {pieces : List String} :
    '\n' ∈ (spaced verb pieces).toList ↔
      '\n' ∈ verb.toList ∨ ∃ piece ∈ pieces, '\n' ∈ piece.toList := by
  induction pieces generalizing verb with
  | nil => simp [spaced]
  | cons piece pieces ih =>
      rw [spaced_cons, ih]
      simp [or_assoc]

/-! ## The commands of the handlers -/

namespace PageRequest

/-- The first word of the command of a handler. -/
def verb : PageRequest → String
  | setting _ => "set"
  | midicc _ _ => "cc"
  | selectFont _ _ | setBankPreset _ => "select"

/-- The path values in the command. -/
def pathValues : PageRequest → List String
  | setting name => [name]
  | midicc channel control => [channel, control]
  | selectFont channel _ | setBankPreset channel => [channel]

/-- The form values in the command, one word for each. -/
def formValues (r : PageRequest) (get : String → String) : List String :=
  match r with
  | setting _ => [get "settingvalue"]
  | midicc _ _ => [get "ccvalue"]
  | selectFont _ _ => [get "font"]
  | setBankPreset _ => [get "font", bankOf (get "bankpreset"), presetOf (get "bankpreset")]

/-- The number of the form values. -/
def slots : PageRequest → Nat
  | setting _ | midicc _ _ | selectFont _ _ => 1
  | setBankPreset _ => 3

/-- What the handler itself adds to the command. -/
def suffix : PageRequest → List String
  | selectFont _ _ => ["0", "0"]
  | setting _ | midicc _ _ | setBankPreset _ => []

/-- The number of the arguments: it depends on the path of the request only. -/
def arguments (r : PageRequest) : Nat :=
  (r.pathValues.flatMap commandWords).length + r.slots + r.suffix.length

/-- The handler gets to its command. -/
def Sends (r : PageRequest) (get : String → String) : Prop :=
  ∀ channel, r = setBankPreset channel → 7 ≤ (get "bankpreset").length

/-- The answer of the handler fetches the fonts. -/
def Fetches (r : PageRequest) (s : PageState) : Prop :=
  ∃ channel, r = selectFont channel (some "change") ∧ s.fontmap = none

/-- The command of the handler. -/
def command (r : PageRequest) (get : String → String) : String :=
  spaced r.verb (r.pathValues ++ r.formValues get ++ r.suffix)

end PageRequest

/-- The command is one command with the verb of the handler, and its number of arguments does not
depend on the form. -/
structure OneCommand (r : PageRequest) (command : String) : Prop where
  newline : ∃ text, written command = text ++ "\n" ∧ '\n' ∉ text.toList
  verb : (commandWords (written command)).head? = some r.verb.toList
  arguments : (commandWords (written command)).length = r.arguments + 1

section
variable (order : RangeOrder) (replies : Replies)

/-- `FetchFonts` asks for the fonts first. -/
theorem fetchFonts_commands : ∃ rest, (fetchFonts order replies).1 = "fonts" :: rest := by
  unfold fetchFonts
  cases fontRows (replies.text "fonts") with
  | none => exact ⟨[], rfl⟩
  | some fonts => exact ⟨_, rfl⟩

/-- Behind `select` a font box that changed asks for the fonts. -/
theorem PageRequest.handle_selectFont (channel : String) (event : Option String)
    (get : String → String) (s : PageState) :
    ((selectFont channel event).handle order replies (some get) s).1 =
      (selectFont channel event).command get ::
        if event = some "change" then (s.fonts order replies).1 else [] := by
  have hcommand : "select " ++ channel ++ " " ++ get "font" ++ " 0 0" =
      (selectFont channel event).command get := by
    refine String.toList_injective ?_
    simp [command, spaced, verb, pathValues, formValues, suffix]
  rw [← hcommand]
  show (postSelectFontHandler order replies channel event (some get) s).1 = _
  rw [postSelectFontHandler]
  split
  · obtain ⟨vars, fontmap⟩ := s
    cases fontmap <;> rfl
  · rfl

/-- What is sent for a request whose handler gets to its command. -/
theorem PageRequest.handle_sends {r : PageRequest} {get : String → String} (h : r.Sends get)
    (s : PageState) :
    (r.Fetches s ∧ ∃ rest,
        (r.handle order replies (some get) s).1 = r.command get :: "fonts" :: rest) ∨
      ¬r.Fetches s ∧ (r.handle order replies (some get) s).1 = [r.command get] := by
  cases r with
  | setting name =>
      refine .inr ⟨?_, congrArg (fun c => [c]) (String.toList_injective ?_)⟩
      · rintro ⟨_, heq, -⟩
        cases heq
      · simp [command, spaced, verb, pathValues, formValues, suffix]
  | midicc channel control =>
      refine .inr ⟨?_, congrArg (fun c => [c]) (String.toList_injective ?_)⟩
      · rintro ⟨_, heq, -⟩
        cases heq
      · simp [command, spaced, verb, pathValues, formValues, suffix]
  | selectFont channel event =>
      rw [handle_selectFont]
      by_cases hchange : event = some "change"
      · rw [if_pos hchange]
        subst hchange
        cases hfontmap : s.fontmap with
        | none =>
            obtain ⟨rest, hrest⟩ := fetchFonts_commands order replies
            refine .inl ⟨⟨channel, rfl, hfontmap⟩, rest, ?_⟩
            rw [PageState.fonts, hfontmap, ← hrest]
        | some fonts =>
            refine .inr ⟨?_, ?_⟩
            · rintro ⟨_, -, hnone⟩
              rw [hfontmap] at hnone
              cases hnone
            · rw [PageState.fonts, hfontmap]
      · rw [if_neg hchange]
        refine .inr ⟨?_, rfl⟩
        rintro ⟨_, heq, -⟩
        cases heq
        exact hchange rfl
  | setBankPreset channel =>
      refine .inr ⟨?_, ?_⟩
      · rintro ⟨_, heq, -⟩
        cases heq
      · show (postSetBankPresetHandler channel (some get) s).1 = _
        rw [postSetBankPresetHandler_eq channel (h channel rfl)]
        refine congrArg (fun c => [c]) (String.toList_injective ?_)
        simp [command, spaced, verb, pathValues, formValues, suffix]

/-- Nothing is sent for a value that is too short. -/
theorem PageRequest.handle_not_sends {r : PageRequest} {get : String → String} (h : ¬r.Sends get)
    (s : PageState) : (r.handle order replies (some get) s).1 = [] := by
  unfold Sends at h
  push Not at h
  obtain ⟨channel, rfl, hshort⟩ := h
  exact congrArg Prod.fst (postSetBankPresetHandler_short channel hshort s)

/-- Each verb is one word on one line. -/
theorem PageRequest.commandWords_verb (r : PageRequest) :
    commandWords r.verb = [r.verb.toList] ∧ '\n' ∉ r.verb.toList := by
  have hverbs : ∀ verb ∈ ["set", "cc", "select"],
      commandWords verb = [verb.toList] ∧ '\n' ∉ verb.toList := by
    decide +kernel
  refine hverbs _ ?_
  cases r <;> simp [verb]

/-- Each piece behind the verb that the program adds is one word on one line. -/
theorem PageRequest.commandWords_suffix (r : PageRequest) :
    (r.suffix.flatMap commandWords).length = r.suffix.length ∧
      ∀ piece ∈ r.suffix, '\n' ∉ piece.toList := by
  have hsuffixes : ∀ suffix ∈ [[], ["0", "0"]],
      (suffix.flatMap commandWords).length = suffix.length ∧
        ∀ piece ∈ suffix, '\n' ∉ piece.toList := by
    decide +kernel
  refine hsuffixes _ ?_
  cases r <;> simp [suffix]

/-- The command of the handler is one command exactly when no value has a newline and each form
value is one word, or they are as many words in all. -/
theorem PageRequest.oneCommand_command_iff (r : PageRequest) (get : String → String) :
    OneCommand r (r.command get) ↔
      (∀ value ∈ r.pathValues ++ r.formValues get, '\n' ∉ value.toList) ∧
      ((r.formValues get).flatMap commandWords).length = r.slots := by
  obtain ⟨hverb, hverbline⟩ := r.commandWords_verb
  have hsuffix := r.commandWords_suffix
  have hwords : commandWords (written (r.command get)) = r.verb.toList ::
      (r.pathValues ++ r.formValues get ++ r.suffix).flatMap commandWords := by
    rw [commandWords_written, command, commandWords_spaced, hverb]
    rfl
  have hnewline : '\n' ∉ (r.command get).toList ↔
      ∀ value ∈ r.pathValues ++ r.formValues get, '\n' ∉ value.toList := by
    rw [command, newline_mem_spaced]
    push Not
    constructor
    · intro h value hvalue
      exact h.2 value (List.mem_append_left _ hvalue)
    · intro h
      refine ⟨hverbline, fun piece hpiece => ?_⟩
      rcases List.mem_append.1 hpiece with hvalue | hfixed
      · exact h piece hvalue
      · exact hsuffix.2 piece hfixed
  rw [← hnewline]
  constructor
  · rintro ⟨⟨text, htext, hline⟩, -, harguments⟩
    obtain rfl := (String.append_left_inj _).1 htext
    rw [hwords] at harguments
    simp only [List.length_cons, List.flatMap_append, List.length_append, arguments] at harguments
    exact ⟨hline, by omega⟩
  · rintro ⟨hline, hslots⟩
    refine ⟨⟨_, rfl, hline⟩, ?_, ?_⟩
    · rw [hwords, List.head?_cons]
    · rw [hwords]
      simp only [List.length_cons, List.flatMap_append, List.length_append, arguments]
      omega

/-- A request sends one command of its own kind exactly when, for a form that is parsed and whose
bank and preset can be cut, no value has a newline, the form values are as many words as there are
places for them, and the answer does not have to fetch the fonts. -/
theorem one_command_iff (r : PageRequest) (form : Form) (s : PageState) :
    (∀ command ∈ (r.handle order replies form s).1, OneCommand r command) ↔
      ∀ get, form = some get → r.Sends get →
        (∀ value ∈ r.pathValues ++ r.formValues get, '\n' ∉ value.toList) ∧
        ((r.formValues get).flatMap commandWords).length = r.slots ∧ ¬r.Fetches s := by
  cases form with
  | none =>
      refine iff_of_true (fun command hcommand => ?_) (fun get hget => ?_)
      · cases r <;> cases hcommand
      · cases hget
  | some get =>
      have hforms : (∀ get', some get = some get' → r.Sends get' →
            (∀ value ∈ r.pathValues ++ r.formValues get', '\n' ∉ value.toList) ∧
            ((r.formValues get').flatMap commandWords).length = r.slots ∧ ¬r.Fetches s) ↔
          (r.Sends get → OneCommand r (r.command get) ∧ ¬r.Fetches s) := by
        rw [r.oneCommand_command_iff]
        constructor
        · intro h hsends
          obtain ⟨hline, hslots, hfetches⟩ := h get rfl hsends
          exact ⟨⟨hline, hslots⟩, hfetches⟩
        · intro h get' hget hsends
          obtain rfl := Option.some.inj hget
          obtain ⟨⟨hline, hslots⟩, hfetches⟩ := h hsends
          exact ⟨hline, hslots, hfetches⟩
      rw [hforms]
      by_cases hsends : r.Sends get
      · rcases r.handle_sends order replies hsends s with ⟨hfetches, rest, hcommands⟩ |
          ⟨hfetches, hcommands⟩
        · rw [hcommands]
          refine iff_of_false (fun h => ?_) fun h => (h hsends).2 hfetches
          -- the word `fonts` is not a verb
          have hfonts := (h "fonts" (List.mem_cons_of_mem _ List.mem_cons_self)).verb
          obtain ⟨channel, rfl, -⟩ := hfetches
          have hne : (commandWords (written "fonts")).head? ≠ some "select".toList := by
            decide +kernel
          exact hne hfonts
        · rw [hcommands, List.forall_mem_singleton]
          exact ⟨fun h _ => ⟨h, hfetches⟩, fun h => (h hsends).1⟩
      · rw [r.handle_not_sends order replies hsends s]
        exact iff_of_true (fun _ hcommand => absurd hcommand List.not_mem_nil)
          fun h => absurd h hsends

end

/-- A value with a newline in it is two commands. -/
theorem setting_two_commands :
    ∃ command ∈ ((PageRequest.setting "synth.gain").handle .given (fun _ => none)
        (some fun _ => "1\nreset") ⟨.init, none⟩).1,
      ¬OneCommand (.setting "synth.gain") command := by
  refine ⟨"set synth.gain 1\nreset", by decide +kernel, ?_⟩
  rintro ⟨⟨text, htext, hline⟩, -, -⟩
  obtain rfl := (String.append_left_inj _).1 htext
  exact hline (by decide +kernel)

end Soundcan.Ui
