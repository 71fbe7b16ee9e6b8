import Soundcan.Ui.Fluidsynth
import Soundcan.Ui.Shown

/-!
# Reloading the fluidsynth page

The elements of `fluidsynth.gohtml` look their values up in the parameters, and when the page is
loaded the sliders and the selects of the fonts post what they show. The sliders store what was
stored. The select of a font stores the font that it shows, which is the first one where the stored
font is not among the options, and its handler resets the bank and preset of the channel, which
nothing posts. `reload_unchanged_iff` says which stores a reload leaves as they are.
-/

namespace Soundcan.Ui

/-! ## The page -/

/-- An element that shows a parameter. -/
inductive Element where
  | setting (setting init : String)
  | font (channel : String)
  | bankPreset (channel : String)
  | midicc (channel control init : String)
  deriving DecidableEq

namespace Element

/-- The name that the template looks up. -/
def name : Element → String
  | setting name _ => "fluidsynth/setting/" ++ name
  | font channel => "fluidsynth/selectfont/" ++ channel
  | bankPreset channel => "fluidsynth/setbankpreset/" ++ channel
  | midicc channel control _ => "fluidsynth/midicc/" ++ channel ++ "/" ++ control

/-- The default of the lookup. -/
def init : Element → String
  | setting _ init => init
  | font _ => "1"
  | bankPreset _ => "000-000"
  | midicc _ _ init => init

/-- What the template looks up. -/
def value (v : Vars) (e : Element) : String := v.paramValue e.name e.init

end Element

/-- The sliders of `fluidsynth`. -/
def fluidsettingsliders : List Element :=
  [.setting "synth.reverb.active" "0", .setting "synth.reverb.damp" "0.29",
    .setting "synth.reverb.level" "0.62", .setting "synth.reverb.room-size" "0.71",
    .setting "synth.reverb.width" "75", .setting "synth.chorus.active" "0",
    .setting "synth.chorus.depth" "3", .setting "synth.chorus.level" "4.8",
    .setting "synth.chorus.nr" "2", .setting "synth.chorus.speed" "1.3"]

/-- The elements of `fluidchannel`, the first two from `fluidprogram`. -/
def fluidchannel (channel : String) : List Element :=
  [.font channel, .bankPreset channel, .midicc channel "7" "100", .midicc channel "91" "100",
    .midicc channel "93" "50"]

/-- The page for a list of channels. -/
def page (channels : List String) : List Element :=
  fluidsettingsliders ++ channels.flatMap fluidchannel

/-- The options of the select, in the order of the keys. -/
def options (fonts : FontMap) : List String :=
  (fonts.keys.mergeSort fun key key' => key ≤ key').map fun key => (fonts.get key).font

/-- The option that a select shows: the one that is marked as selected, else the first one. -/
def shownOption (options : List String) (selected : String) : String :=
  if selected ∈ options then selected else options.headD ""

/-- A form with one field. -/
def field (name value : String) : Form := some fun key => if key = name then value else ""

/-- What an element posts when the page is loaded: the select of the instruments has no `load`. -/
def Element.load (fonts : FontMap) (v : Vars) : Element → Option (PageRequest × Form)
  | e@(.setting name _) => some (.setting name, field "settingvalue" (e.value v))
  | e@(.font channel) =>
    some (.selectFont channel (some "load"), field "font" (shownOption (options fonts) (e.value v)))
  | .bankPreset _ => none
  | e@(.midicc channel control _) => some (.midicc channel control, field "ccvalue" (e.value v))

/-- The posts of a page. -/
def loadPosts (fonts : FontMap) (v : Vars) (channels : List String) : List (PageRequest × Form) :=
  (page channels).filterMap (Element.load fonts v)

/-- The handlers of posts, one after the other. -/
def handlePosts (order : RangeOrder) (replies : Replies) (posts : List (PageRequest × Form))
    (s : PageState) : PageState :=
  posts.foldl (fun s post => (post.1.handle order replies post.2 s).2) s

/-! ## Assignments -/

/-- Assignments one after the other. -/
def Vars.assigns (v : Vars) (ws : List (String × String)) : Vars :=
  ws.foldl (fun v w => v.assign w.1 w.2) v

/-- Writes to other names leave a name alone. -/
theorem Vars.paramValue_assigns_of_ne (v : Vars) {name : String} {ws : List (String × String)}
    (h : ∀ w ∈ ws, name ≠ w.1) (init : String) :
    (v.assigns ws).paramValue name init = v.paramValue name init := by
  induction ws generalizing v with
  | nil => rfl
  | cons w ws ih =>
      have hne : name ≠ w.1 := h w List.mem_cons_self
      have htail := ih (v.assign w.1 w.2) fun w' hw' => h w' (List.mem_cons_of_mem _ hw')
      rw [Vars.assigns, List.foldl_cons, ← Vars.assigns, htail,
        Vars.paramValue_assign_of_ne v hne]

/-- A name that is always assigned the same value has it afterwards. -/
theorem Vars.paramValue_assigns (v : Vars) {name value : String} {ws : List (String × String)}
    (hmem : (name, value) ∈ ws) (hvalue : ∀ w ∈ ws, w.1 = name → w.2 = value) (init : String) :
    (v.assigns ws).paramValue name init = value := by
  induction ws generalizing v with
  | nil => cases hmem
  | cons w ws ih =>
      rw [Vars.assigns, List.foldl_cons, ← Vars.assigns]
      by_cases hlater : (name, value) ∈ ws
      · exact ih _ hlater fun w' hw' => hvalue w' (List.mem_cons_of_mem _ hw')
      · obtain rfl : (name, value) = w := (List.mem_cons.1 hmem).resolve_right hlater
        have hne : ∀ w' ∈ ws, name ≠ w'.1 := by
          intro w' hw' heq
          have hw'value := hvalue w' (List.mem_cons_of_mem _ hw') heq.symm
          exact hlater (by rw [heq, ← hw'value]; exact hw')
        rw [Vars.paramValue_assigns_of_ne _ hne, Vars.paramValue_assign_self]

/-! ## What a reload writes -/

namespace Element

/-- A character in which the names of different kinds differ. -/
def kind : Element → Char
  | setting _ _ => 't'
  | font _ => 'e'
  | bankPreset _ => 'b'
  | midicc _ _ _ => 'i'

/-- What is in front of a text that is appended stays where it is. -/
theorem getElem?_append_left {s : String} {i : Nat} {c : Char} (h : s.toList[i]? = some c)
    (t : String) : (s ++ t).toList[i]? = some c := by
  have hlt : i < s.toList.length := (List.getElem?_eq_some_iff.1 h).1
  rw [String.toList_append, List.getElem?_append_left hlt, h]

/-- The name of an element tells its kind. -/
theorem name_kind (e : Element) : e.name.toList[14]? = some e.kind := by
  cases e with
  | setting name init =>
      have hfront : "fluidsynth/setting/".toList[14]? = some 't' := by decide +kernel
      exact getElem?_append_left hfront name
  | font channel =>
      have hfront : "fluidsynth/selectfont/".toList[14]? = some 'e' := by decide +kernel
      exact getElem?_append_left hfront channel
  | bankPreset channel =>
      have hfront : "fluidsynth/setbankpreset/".toList[14]? = some 'b' := by decide +kernel
      exact getElem?_append_left hfront channel
  | midicc channel control init =>
      have hfront : "fluidsynth/midicc/".toList[14]? = some 'i' := by decide +kernel
      exact getElem?_append_left (getElem?_append_left (getElem?_append_left hfront channel) "/")
        control

/-- What the lookup of an element gives after a reload. -/
def loaded (fonts : FontMap) (v : Vars) : Element → String
  | e@(setting _ _) => e.value v
  | e@(font _) => shownOption (options fonts) (e.value v)
  | bankPreset _ => "000-000"
  | e@(midicc _ _ _) => e.value v

/-- The assignments of the handler of a post. -/
def writes (fonts : FontMap) (v : Vars) : Element → List (String × String)
  | e@(setting _ _) => [(e.name, e.loaded fonts v)]
  | e@(font channel) =>
    [(e.name, e.loaded fonts v), ((bankPreset channel).name, (bankPreset channel).loaded fonts v)]
  | bankPreset _ => []
  | e@(midicc _ _ _) => [(e.name, e.loaded fonts v)]

end Element

/-- The page shows the settings, and the controls of each channel. -/
theorem mem_page {channels : List String} {e : Element} :
    e ∈ page channels ↔
      e ∈ fluidsettingsliders ∨ ∃ channel ∈ channels, e ∈ fluidchannel channel := by
  rw [page, List.mem_append, List.mem_flatMap]

/-- A setting on the page is one of the sliders. -/
theorem setting_mem_page {channels : List String} {name init : String}
    (h : .setting name init ∈ page channels) : .setting name init ∈ fluidsettingsliders := by
  rcases mem_page.1 h with hsetting | ⟨channel, -, hchannel⟩
  · exact hsetting
  · simp [fluidchannel] at hchannel

/-- The controls of a channel with their defaults. -/
def channelControls : List (String × String) := [("7", "100"), ("91", "100"), ("93", "50")]

/-- A MIDI control on the page is one of those of a channel. -/
theorem midicc_mem_page {channels : List String} {channel control init : String}
    (h : .midicc channel control init ∈ page channels) :
    (control, init) ∈ channelControls := by
  rcases mem_page.1 h with hsetting | ⟨channel', -, hchannel⟩
  · simp [fluidsettingsliders] at hsetting
  · simp only [fluidchannel, List.mem_cons, reduceCtorEq, false_or, Element.midicc.injEq,
      List.not_mem_nil, or_false] at hchannel
    simp only [channelControls, List.mem_cons, Prod.mk.injEq, List.not_mem_nil, or_false]
    tauto

/-- No two settings have one name. -/
theorem settings_name_injOn : ∀ e ∈ fluidsettingsliders, ∀ e' ∈ fluidsettingsliders,
    e.name = e'.name → e = e' := by
  decide +kernel

/-- The controls differ in their last digit. -/
theorem controls_getLast_injOn :
    ∀ c ∈ channelControls, ∀ c' ∈ channelControls,
      c.1.toList.getLast? = c'.1.toList.getLast? → c = c' := by
  decide +kernel

/-- Every control has a number. -/
theorem controls_ne_empty : ∀ c ∈ channelControls, c.1 ≠ "" := by decide

/-- The last character is that of what is appended. -/
theorem getLast?_append {s t : String} (h : t ≠ "") :
    (s ++ t).toList.getLast? = t.toList.getLast? := by
  rw [String.toList_append, List.getLast?_append_of_ne_nil _ fun hnil =>
    h (String.toList_injective hnil)]

/-- A name is looked up by one element. -/
theorem page_name_injOn {channels : List String} {e e' : Element} (he : e ∈ page channels)
    (he' : e' ∈ page channels) (h : e.name = e'.name) : e = e' := by
  have hkind : e.kind = e'.kind := by
    have hsame := e.name_kind
    rw [h, e'.name_kind] at hsame
    exact (Option.some.inj hsame).symm
  cases e <;> cases e' <;> cases hkind
  case setting =>
    exact settings_name_injOn _ (setting_mem_page he) _ (setting_mem_page he') h
  case font =>
    exact congrArg Element.font ((String.append_right_inj _).1 h)
  case bankPreset =>
    exact congrArg Element.bankPreset ((String.append_right_inj _).1 h)
  case midicc channel control init channel' control' init' =>
    have hcontrol := midicc_mem_page he
    have hcontrol' := midicc_mem_page he'
    have hlast : control.toList.getLast? = control'.toList.getLast? := by
      have hleft := getLast?_append (s := "fluidsynth/midicc/" ++ channel ++ "/")
        (controls_ne_empty _ hcontrol)
      have hright := getLast?_append (s := "fluidsynth/midicc/" ++ channel' ++ "/")
        (controls_ne_empty _ hcontrol')
      rw [← hleft, ← hright]
      exact congrArg (fun name => name.toList.getLast?) h
    have hsame := controls_getLast_injOn _ hcontrol _ hcontrol' hlast
    obtain ⟨rfl, rfl⟩ := Prod.mk.inj hsame
    have hchannel := (String.append_left_inj _).1 ((String.append_left_inj _).1 h)
    rw [(String.append_right_inj _).1 hchannel]

/-- The two elements of a `fluidprogram`. -/
theorem fluidprogram_mem_page {channels : List String} {channel : String} :
    (.font channel ∈ page channels ↔ channel ∈ channels) ∧
      (.bankPreset channel ∈ page channels ↔ channel ∈ channels) := by
  constructor <;> rw [mem_page] <;> simp [fluidsettingsliders, fluidchannel]

/-! ## The reload -/

/-- The assignments of the handler of a request. -/
def PageRequest.writes : PageRequest → Form → List (String × String)
  | _, none => []
  | .setting name, some get => [("fluidsynth/setting/" ++ name, get "settingvalue")]
  | .midicc channel control, some get =>
    [("fluidsynth/midicc/" ++ channel ++ "/" ++ control, get "ccvalue")]
  | .selectFont channel _, some get =>
    [("fluidsynth/selectfont/" ++ channel, get "font"),
      ("fluidsynth/setbankpreset/" ++ channel, "000-000")]
  | .setBankPreset channel, some get =>
    if 7 ≤ (get "bankpreset").length then
      [("fluidsynth/setbankpreset/" ++ channel, get "bankpreset")]
    else []

section
variable (order : RangeOrder) (replies : Replies)

/-- A handler makes its assignments and no others. -/
theorem PageRequest.handle_vars (r : PageRequest) (form : Form) (s : PageState) :
    (r.handle order replies form s).2.vars = s.vars.assigns (r.writes form) := by
  cases form with
  | none => cases r <;> rfl
  | some get =>
      cases r with
      | setting | midicc => rfl
      | selectFont channel event =>
          show (postSelectFontHandler order replies channel event (some get) s).2.vars = _
          rw [postSelectFontHandler]
          split
          · unfold PageState.fonts
            split <;> rfl
          · rfl
      | setBankPreset channel =>
          show (postSetBankPresetHandler channel (some get) s).2.vars = _
          rcases Nat.lt_or_ge (get "bankpreset").length 7 with hshort | hlong
          · rw [postSetBankPresetHandler_short channel hshort, writes, if_neg (not_le.2 hshort)]
            rfl
          · rw [postSetBankPresetHandler_eq channel hlong, writes, if_pos hlong]
            rfl

/-- The assignments of posts one after the other. -/
theorem handlePosts_vars (posts : List (PageRequest × Form)) (s : PageState) :
    (handlePosts order replies posts s).vars =
      s.vars.assigns (posts.flatMap fun post => post.1.writes post.2) := by
  induction posts generalizing s with
  | nil => rfl
  | cons post posts ih =>
      rw [handlePosts, List.foldl_cons, ← handlePosts, ih, PageRequest.handle_vars,
        List.flatMap_cons, Vars.assigns, Vars.assigns, Vars.assigns, List.foldl_append]

end

section
variable (fonts : FontMap) (v : Vars)

/-- What an element posts when it is loaded writes what the element writes. -/
theorem writes_load {e : Element} {post : PageRequest × Form} (h : e.load fonts v = some post) :
    post.1.writes post.2 = e.writes fonts v := by
  cases e <;> cases h <;> rfl

/-- The posts of a page write, for each of its elements, the name of the element. -/
theorem mem_writes_iff {channels : List String} {posts : List (PageRequest × Form)}
    (h : posts.Perm (loadPosts fonts v channels)) (w : String × String) :
    w ∈ posts.flatMap (fun post => post.1.writes post.2) ↔
      ∃ e ∈ page channels, w = (e.name, e.loaded fonts v) := by
  rw [(h.flatMap_right _).mem_iff, loadPosts, List.mem_flatMap]
  constructor
  · rintro ⟨post, hpost, hw⟩
    obtain ⟨e, he, hload⟩ := List.mem_filterMap.1 hpost
    rw [writes_load fonts v hload] at hw
    cases e with
    | setting name init => exact ⟨_, he, List.mem_singleton.1 hw⟩
    | font channel =>
        rcases List.mem_pair.1 hw with rfl | rfl
        · exact ⟨_, he, rfl⟩
        · exact ⟨_, fluidprogram_mem_page.2.2 (fluidprogram_mem_page.1.1 he), rfl⟩
    | bankPreset channel => cases hw
    | midicc channel control init => exact ⟨_, he, List.mem_singleton.1 hw⟩
  · rintro ⟨e, he, rfl⟩
    cases e with
    | setting name init =>
        exact ⟨_, List.mem_filterMap.2 ⟨_, he, rfl⟩, List.mem_singleton.2 rfl⟩
    | font channel =>
        exact ⟨_, List.mem_filterMap.2 ⟨_, he, rfl⟩, List.mem_cons_self⟩
    | bankPreset channel =>
        -- the handler of the select of the font writes it
        have hfont := fluidprogram_mem_page.1.2 (fluidprogram_mem_page.2.1 he)
        exact ⟨_, List.mem_filterMap.2 ⟨.font channel, hfont, rfl⟩,
          List.mem_cons_of_mem _ List.mem_cons_self⟩
    | midicc channel control init =>
        exact ⟨_, List.mem_filterMap.2 ⟨_, he, rfl⟩, List.mem_singleton.2 rfl⟩

end

section
variable (order : RangeOrder) (replies : Replies) (fonts : FontMap) (v : Vars)

/-- What the next lookup of an element gives, in any order of the posts. -/
theorem value_handlePosts {channels : List String} {posts : List (PageRequest × Form)}
    (h : posts.Perm (loadPosts fonts v channels)) {e : Element} (he : e ∈ page channels) :
    e.value (handlePosts order replies posts ⟨v, some fonts⟩).vars = e.loaded fonts v := by
  have hmem := (mem_writes_iff fonts v h (e.name, e.loaded fonts v)).2 ⟨e, he, rfl⟩
  rw [Element.value, handlePosts_vars]
  refine Vars.paramValue_assigns _ hmem (fun w hw hname => ?_) _
  obtain ⟨e', he', rfl⟩ := (mem_writes_iff fonts v h w).1 hw
  rw [page_name_injOn he' he hname]

/-- The first option is shown where the stored font is not among the options. -/
theorem shownOption_eq_iff (os : List String) (selected : String) :
    shownOption os selected = selected ↔ selected ∈ os ∨ os = [] ∧ selected = "" := by
  unfold shownOption
  split
  next hmem => exact iff_of_true rfl (.inl hmem)
  next hnot =>
    cases os with
    | nil => exact ⟨fun h => .inr ⟨rfl, h.symm⟩, fun h => (h.resolve_left hnot).2.symm⟩
    | cons o os =>
        constructor
        · intro h
          exact absurd (h ▸ List.mem_cons_self) hnot
        · rintro (hmem | ⟨hnil, -⟩)
          · exact absurd hmem hnot
          · cases hnil

/-- Reloading the page changes nothing, in any order of its posts, exactly when for each channel the
stored bank and preset is `000-000` and the stored font is among the options (or there are no
options and it is empty). -/
theorem reload_unchanged_iff (channels : List String) (posts : List (PageRequest × Form))
    (h : posts.Perm (loadPosts fonts v channels)) :
    (∀ e ∈ page channels,
        e.value (handlePosts order replies posts ⟨v, some fonts⟩).vars = e.value v) ↔
      ∀ channel ∈ channels,
        v.paramValue ("fluidsynth/setbankpreset/" ++ channel) "000-000" = "000-000" ∧
        (v.paramValue ("fluidsynth/selectfont/" ++ channel) "1" ∈ options fonts ∨
          options fonts = [] ∧ v.paramValue ("fluidsynth/selectfont/" ++ channel) "1" = "") := by
  have hloaded : (∀ e ∈ page channels,
        e.value (handlePosts order replies posts ⟨v, some fonts⟩).vars = e.value v) ↔
      ∀ e ∈ page channels, e.loaded fonts v = e.value v :=
    forall₂_congr fun e he => by rw [value_handlePosts order replies fonts v h he]
  rw [hloaded]
  constructor
  · intro hall channel hchannel
    have hbank := hall _ (fluidprogram_mem_page.2.2 hchannel)
    have hfont := hall _ (fluidprogram_mem_page.1.2 hchannel)
    exact ⟨hbank.symm, (shownOption_eq_iff _ _).1 hfont⟩
  · intro hall e he
    cases e with
    | setting | midicc => rfl
    | font channel =>
        exact (shownOption_eq_iff _ _).2 (hall channel (fluidprogram_mem_page.1.1 he)).2
    | bankPreset channel => exact (hall channel (fluidprogram_mem_page.2.1 he)).1.symm

end

/-- One font, with the id 1. -/
def oneFont : FontMap := AList.insert "1" ⟨"1", "default.sf2", [⟨"008", "004", "Piano"⟩]⟩ ∅

/-- A volume and a bank and preset that were stored: those that the page starts with. -/
def storedVolume : Vars :=
  (Vars.init.assign "fluidsynth/midicc/0/7" "80").assign "fluidsynth/setbankpreset/1" "000-000"

/-- The page of two channels, with its posts in the given order where nothing was stored, and in the
reverse one behind what was. -/
theorem reload_unchanged_init :
    (Element.midicc "0" "7" "100").value storedVolume = "80" ∧
      (∀ e ∈ page ["0", "1"], e.value (handlePosts .given (fun _ => none)
        (loadPosts oneFont .init ["0", "1"]) ⟨.init, some oneFont⟩).vars = e.value .init) ∧
      ∀ e ∈ page ["0", "1"], e.value (handlePosts .given (fun _ => none)
        (loadPosts oneFont storedVolume ["0", "1"]).reverse ⟨storedVolume, some oneFont⟩).vars =
          e.value storedVolume :=
  ⟨by decide +kernel,
    (reload_unchanged_iff .given (fun _ => none) oneFont .init ["0", "1"] _
      (List.Perm.refl _)).2 (by decide +kernel),
    (reload_unchanged_iff .given (fun _ => none) oneFont storedVolume ["0", "1"] _
      (List.reverse_perm _)).2 (by decide +kernel)⟩

/-- A reload resets the bank and preset of a channel. -/
theorem reload_resets_bankPreset :
    let v := Vars.init.assign "fluidsynth/setbankpreset/0" "008-004"
    (Element.bankPreset "0").value v = "008-004" ∧
      (Element.bankPreset "0").value (handlePosts .given (fun _ => none)
        (loadPosts oneFont v ["0", "1", "2", "3"]) ⟨v, some oneFont⟩).vars = "000-000" := by
  decide +kernel

end Soundcan.Ui
