import Soundcan.Lib.GoString
import Soundcan.Ui.Parameter
import Mathlib.Data.List.AList

/-!
# The fluidsynth page of the web UI

`ui/src/fluidsynth/fluidsynth.go` has four handlers that send a command to the synthesizer and store
what was set in the parameters, and `FetchFonts`, which reads the listings of the synthesizer. An
expression that panics is `none`. The order in which Go visits the keys of a map is given by a
`RangeOrder`.
-/

namespace Soundcan.Ui

open GoString

/-! ## The fonts -/

structure InstrumentRecord where
  bank : String
  preset : String
  name : String
  deriving DecidableEq

structure FontRecord where
  font : String
  filename : String
  instruments : List InstrumentRecord
  deriving DecidableEq

/-- `map[string]FontRecord`. -/
abbrev FontMap : Type := AList fun _ : String => FontRecord

/-- The value of a key, or the zero value. -/
def FontMap.get (fonts : FontMap) (key : String) : FontRecord :=
  (fonts.lookup key).getD ⟨"", "", []⟩

/-- An order in which `range` visits the keys of a map. -/
structure RangeOrder where
  visit : List String → List String
  perm (keys : List String) : (visit keys).Perm keys

/-- The keys with the last inserted one first. -/
def RangeOrder.given : RangeOrder := ⟨fun keys => keys, fun _ => List.Perm.refl _⟩

/-- What `FluidsynthCommand` returns for a command, `none` with an error. -/
abbrev Replies : Type := String → Option String

/-- `string(response)`. -/
def Replies.text (replies : Replies) (command : String) : String := (replies command).getD ""

/-- A row of the reply to `fonts`. -/
def fontRow (fonts : FontMap) (row : String) : Option FontMap :=
  match fields row with
  | column :: filename :: _ => do
    let filename ← sliceFrom filename (lastIndex '/' filename.toList + 1).toNat
    some (fonts.insert column ⟨column, filename, []⟩)
  | _ => none

/-- The first loop of `FetchFonts`. -/
def fontRows (response : String) : Option FontMap := do
  let rows := split response '\n'
  let rows ← sub rows 1 (rows.length - 1)
  rows.foldlM fontRow ∅

/-- A row of the reply to `inst`. -/
def instrumentRow (row : String) : Option InstrumentRecord := do
  let bank ← slice row 0 3
  let preset ← slice row 4 7
  let name ← sliceFrom row 8
  some ⟨bank, preset, name⟩

/-- The inner loop of `FetchFonts`. -/
def instrumentRows (response : String) : Option (List InstrumentRecord) := do
  let rows := split response '\n'
  let rows ← sub rows 0 (rows.length - 1)
  rows.mapM instrumentRow

/-- The second loop of `FetchFonts`, with the commands that it sends. -/
def fetchInstruments (replies : Replies) : List String → FontMap → List String × Option FontMap
  | [], fonts => ([], some fonts)
  | key :: keys, fonts =>
    match instrumentRows (replies.text ("inst " ++ key)) with
    | none => (["inst " ++ key], none)
    | some instruments =>
      let rest := fetchInstruments replies keys
        (fonts.insert key { fonts.get key with instruments := instruments })
      (("inst " ++ key) :: rest.1, rest.2)

/-- `FetchFonts`: the commands that it sends and the map that it builds. -/
def fetchFonts (order : RangeOrder) (replies : Replies) : List String × Option FontMap :=
  match fontRows (replies.text "fonts") with
  | none => (["fonts"], none)
  | some fonts =>
    let rest := fetchInstruments replies (order.visit fonts.keys) fonts
    ("fonts" :: rest.1, rest.2)

/-! ## The handlers -/

/-- The variables of the packages, `fontmap` is `none` for `nil`. -/
structure PageState where
  vars : Vars
  fontmap : Option FontMap

/-- `parameter.Assign`. -/
def PageState.assign (s : PageState) (parameterName value : String) : PageState :=
  { s with vars := s.vars.assign parameterName value }

/-- `r.Form.Get`, `none` where `ParseForm` fails. -/
abbrev Form : Type := Option (String → String)

/-- The requests of the page. -/
inductive PageRequest where
  | setting (name : String)
  | midicc (channel control : String)
  /-- With the `type` of the `Triggering-Event`. -/
  | selectFont (channel : String) (event : Option String)
  | setBankPreset (channel : String)
  deriving DecidableEq

/-- `postSettingHandler`: the commands that it sends and the state that it leaves. -/
def postSettingHandler (setting : String) (form : Form) (s : PageState) :
    List String × PageState :=
  match form with
  | none => ([], s)
  | some get =>
    let settingvalue := get "settingvalue"
    (["set " ++ setting ++ " " ++ settingvalue],
      s.assign ("fluidsynth/setting/" ++ setting) settingvalue)

/-- `postMidiccHandler`. -/
def postMidiccHandler (channel control : String) (form : Form) (s : PageState) :
    List String × PageState :=
  match form with
  | none => ([], s)
  | some get =>
    let ccvalue := get "ccvalue"
    (["cc " ++ channel ++ " " ++ control ++ " " ++ ccvalue],
      s.assign ("fluidsynth/midicc/" ++ channel ++ "/" ++ control) ccvalue)

section
variable (order : RangeOrder) (replies : Replies)

/-- `Fonts`, as the template `fluidprogram` calls it: an error ends the template. -/
def PageState.fonts (s : PageState) : List String × PageState :=
  match s.fontmap with
  | some _ => ([], s)
  | none =>
    let result := fetchFonts order replies
    (result.1, { s with fontmap := result.2 })

/-- `postSelectFontHandler`: for a change it answers with `fluidprogram`. -/
def postSelectFontHandler (channel : String) (event : Option String) (form : Form)
    (s : PageState) : List String × PageState :=
  match form with
  | none => ([], s)
  | some get =>
    let font := get "font"
    let s := s.assign ("fluidsynth/selectfont/" ++ channel) font
    let s := s.assign ("fluidsynth/setbankpreset/" ++ channel) "000-000"
    let command := "select " ++ channel ++ " " ++ font ++ " 0 0"
    if event = some "change" then
      let result := s.fonts order replies
      (command :: result.1, result.2)
    else ([command], s)

/-- `postSetBankPresetHandler`: the server recovers from a panic, which comes before the command. -/
def postSetBankPresetHandler (channel : String) (form : Form) (s : PageState) :
    List String × PageState :=
  match form with
  | none => ([], s)
  | some get =>
    let bankpreset := get "bankpreset"
    let font := get "font"
    match slice bankpreset 0 3, slice bankpreset 4 7 with
    | some bank, some preset =>
      (["select " ++ channel ++ " " ++ font ++ " " ++ bank ++ " " ++ preset],
        s.assign ("fluidsynth/setbankpreset/" ++ channel) bankpreset)
    | _, _ => ([], s)

/-- The handler of a request. -/
def PageRequest.handle (r : PageRequest) (form : Form) (s : PageState) :
    List String × PageState :=
  match r with
  | .setting name => postSettingHandler name form s
  | .midicc channel control => postMidiccHandler channel control form s
  | .selectFont channel event => postSelectFontHandler order replies channel event form s
  | .setBankPreset channel => postSetBankPresetHandler channel form s

end

/-- What `FluidsynthCommand` writes to the connection. -/
def written (command : String) : String := command ++ "\n"

/-! ## The bank and the preset -/

/-- `bankpreset[0:3]` of a value that is long enough. -/
def bankOf (bankpreset : String) : String := .ofList (bankpreset.toList.take 3)

/-- `bankpreset[4:7]` of a value that is long enough. -/
def presetOf (bankpreset : String) : String := .ofList ((bankpreset.toList.take 7).drop 4)

/-- A post with a bank and a preset in it sends one command. -/
theorem postSetBankPresetHandler_eq (channel : String) {get : String → String}
    (h : 7 ≤ (get "bankpreset").length) (s : PageState) :
    postSetBankPresetHandler channel (some get) s =
      (["select " ++ channel ++ " " ++ get "font" ++ " " ++ bankOf (get "bankpreset") ++ " " ++
          presetOf (get "bankpreset")],
        s.assign ("fluidsynth/setbankpreset/" ++ channel) (get "bankpreset")) := by
  have hbank : slice (get "bankpreset") 0 3 = some (bankOf (get "bankpreset")) :=
    slice_eq_some (Nat.zero_le _) (by omega)
  have hpreset : slice (get "bankpreset") 4 7 = some (presetOf (get "bankpreset")) :=
    slice_eq_some (by decide) h
  simp only [postSetBankPresetHandler, hbank, hpreset]

/-- A value that is too short leaves everything as it is. -/
theorem postSetBankPresetHandler_short (channel : String) {get : String → String}
    (h : (get "bankpreset").length < 7) (s : PageState) :
    postSetBankPresetHandler channel (some get) s = ([], s) := by
  have hpreset : slice (get "bankpreset") 4 7 = none := slice_eq_none h
  simp only [postSetBankPresetHandler, hpreset]
  cases slice (get "bankpreset") 0 3 <;> rfl

end Soundcan.Ui
