import Soundcan.Lib.Json
import Soundcan.FluidUi.Buffers

/-!
# The listing of the controls

The listing of `getControlInstances` is faithful if it is an array with one object for each control,
which says of it what its table and fluidsynth do. Nothing is escaped, so that is the case exactly
where no name and no value has a quote or a backslash (`getControlInstances_faithful_iff`).
-/

namespace Soundcan.FluidUi

open CText Json

/-! ## What a faithful listing says -/

/-- An instrument of fluidsynth. -/
structure Instrument where
  bank : List Char
  preset : List Char
  name : List Char
  bank_digits : bank.length = 3 ∧ Digits bank
  preset_digits : preset.length = 3 ∧ Digits preset
  name_printable : Printable name
  name_length : name.length ≤ 100

namespace Instrument

/-- The number `bbb-ppp`. -/
def number (instrument : Instrument) : List Char :=
  instrument.bank ++ '-' :: instrument.preset

/-- The line of the instrument in the response to `inst 1`. -/
def line (instrument : Instrument) : List Char :=
  instrument.number ++ ' ' :: instrument.name

/-- The response to `inst 1`. -/
def response (instruments : List Instrument) : List Char :=
  instruments.flatMap fun instrument => instrument.line ++ ['\n']

end Instrument

/-- A value of the listing that is a text. -/
def text (s : List Char) : Json := .str (units s)

/-- The value is the pair of an instrument's number and name. -/
def ListsInstrument (v : Json) (instrument : Instrument) : Prop :=
  ∃ ms, v = .obj ms ∧ lookup ms (units "value".toList) = some (text instrument.number) ∧
    lookup ms (units "symbol".toList) = some (text instrument.name)

/-- The value says of a control its index, label, bounds and value, and of the control `Instrument`
the instruments. -/
structure ListsControl (instruments : List Instrument) (control : Control) (i : Nat)
    (value : List Char) (ms : List (List Nat × Json)) : Prop where
  index : lookup ms (units "index".toList) = some (.num i)
  label : lookup ms (units "label".toList) = some (text control.label)
  min : lookup ms (units "min".toList) = control.minValue.map text
  max : lookup ms (units "max".toList) = control.maxValue.map text
  value : lookup ms (units "value".toList) = some (text value)
  points : control.label = "Instrument".toList → ∃ ps,
    lookup ms (units "points".toList) = some (.arr ps) ∧
      List.Forall₂ ListsInstrument ps instruments

/-- The listing is an array with one object for each control, in order. -/
def Faithful (runCommand : RunCommand) (instruments : List Instrument) (response : List Char) :
    Prop :=
  ∃ vs, parse response = some (.arr vs) ∧
    List.Forall₂ (fun v (control, i) => ∃ value ms, control.readFunc runCommand = some value ∧
      v = .obj ms ∧ ListsControl instruments control i value ms) vs controls.zipIdx

/-- What fluidsynth may answer: the instruments in a response that fits its buffer, and a value for
each control. -/
structure Answers (runCommand : RunCommand) (instruments : List Instrument) : Prop where
  inst : runCommand "inst 1".toList 5000 = Instrument.response instruments
  fits : (Instrument.response instruments).length < 5000
  values : ∀ control ∈ controls, ∃ value, control.readFunc runCommand = some value ∧
    Printable value ∧ value.length ≤ 29

/-! ## The text of the listing -/

/-- The members of the object of an instrument. -/
def instrumentMembers (instrument : Instrument) : List Member :=
  [.str "value".toList instrument.number, .str "symbol".toList instrument.name]

/-- The members of the object of a control behind its index and type. -/
def details (control : Control) (value : List Char) (points : Option (List Char × Json)) :
    List Member :=
  [.str "label".toList control.label] ++ (control.minValue.map (.str "min".toList)).toList ++
    (control.maxValue.map (.str "max".toList)).toList ++ [.str "value".toList value] ++
    (points.map fun p => ⟨"points".toList, p.1, p.2⟩).toList

/-- The members of the object of a control. -/
def members (control : Control) (i : Nat) (value : List Char)
    (points : Option (List Char × Json)) : List Member :=
  ⟨"index".toList, d i, .num i⟩ :: .str "type".toList (typeImage control.type) ::
    details control value points

/-- Printable text without quotes and backslashes is plain. -/
theorem Printable.plain {s : List Char} (h : Printable s) (hs : Unescaped s) : Plain s :=
  fun c hc => ⟨(hs c hc).1, (hs c hc).2, (h c hc).1⟩

namespace Instrument

/-- A bank and a program take seven characters. -/
theorem length_number (instrument : Instrument) : instrument.number.length = 7 := by
  rw [number, List.length_append, List.length_cons, instrument.bank_digits.1,
    instrument.preset_digits.1]

/-- A number is of digits and a hyphen. -/
theorem number_digits (instrument : Instrument) {c : Char} (h : c ∈ instrument.number) :
    c.isDigit = true ∨ c = '-' := by
  rw [number, List.mem_append, List.mem_cons] at h
  rcases h with h | rfl | h
  · exact .inl (instrument.bank_digits.2 c h)
  · exact .inr rfl
  · exact .inl (instrument.preset_digits.2 c h)

/-- They are digits and a hyphen, with nothing to escape. -/
theorem number_plain (instrument : Instrument) :
    Printable instrument.number ∧ Unescaped instrument.number := by
  have hcode : ∀ c ∈ instrument.number, 0x2d ≤ c.toNat ∧ c.toNat ≤ 0x39 := by
    intro c hc
    rcases instrument.number_digits hc with hdigit | rfl
    · simp only [Char.isDigit, Bool.and_eq_true, decide_eq_true_eq] at hdigit
      have hlow : '0'.toNat ≤ c.toNat := hdigit.1
      have hhigh : c.toNat ≤ '9'.toNat := hdigit.2
      exact ⟨le_trans (by decide) hlow, hhigh⟩
    · decide
  refine ⟨fun c hc => ?_, fun c hc => ?_⟩
  · have h := hcode c hc
    omega
  · have h := hcode c hc
    refine ⟨?_, ?_⟩
    · rintro rfl
      exact absurd h (by decide)
    · rintro rfl
      exact absurd h (by decide)

/-- The instrument as a line of a reply. -/
def instLine (instrument : Instrument) : InstLine where
  bank := instrument.bank
  preset := instrument.preset
  name := instrument.name
  bank_digits := instrument.bank_digits
  preset_digits := instrument.preset_digits
  name_line c hc := by
    have hcode := (instrument.name_printable c hc).1
    refine ⟨?_, ?_⟩
    · rintro rfl
      exact absurd hcode (by decide)
    · rintro rfl
      exact absurd hcode (by decide)
  name_length := instrument.name_length.trans (by decide)

/-- The reply of the synthesizer, as the lines that the buffers are sized for. -/
theorem reply_instLines (instruments : List Instrument) :
    InstLine.reply (instruments.map instLine) = response instruments := by
  rw [InstLine.reply, List.flatMap_map]
  rfl

/-- The texts of these lines. -/
theorem text_instLines (instruments : List Instrument) :
    (instruments.map instLine).map InstLine.text = instruments.map line := by
  rw [List.map_map]
  rfl

/-- The record of an instrument is its object. -/
theorem recordText_line (instrument : Instrument) :
    recordText instrument.line = objText (instrumentMembers instrument) := by
  have hnumber := instrument.length_number
  have htake : instrument.line.take 7 = instrument.number := by
    rw [line, ← hnumber, List.take_left]
  have hdrop : instrument.line.drop 8 = instrument.name := by
    rw [line, List.append_cons, List.drop_left']
    rw [List.length_append, hnumber]
    rfl
  unfold recordText
  simp [htake, hdrop, objText, instrumentMembers, joined, Member.whole, Member.str]

end Instrument

/-- The text of the instruments. -/
def pointsText (instruments : List Instrument) : List Char :=
  arrText (instruments.map fun instrument => objText (instrumentMembers instrument))

/-- The values of the instrument control are the records of the instruments. -/
theorem pointsText_eq (instruments : List Instrument) :
    pointsText instruments = recordsText (instruments.map Instrument.line) := by
  rw [pointsText, recordsText, List.map_map]
  exact congrArg arrText (List.map_congr_left fun i _ => i.recordText_line.symm)

/-! ## The text of a control -/

/-- The text of a control is its object, behind a comma. -/
theorem controlText_eq (control : Control) (i : Nat) (value : List Char)
    {points : Option (List Char × Json)} (h : control.points = points.map Prod.fst) :
    controlText control i value =
      (if i = 0 then [] else [',']) ++ objText (members control i value points) := by
  have hopen : (if i = 0 then ['{'] else [',', '{']) = (if i = 0 then [] else [',']) ++ ['{'] := by
    split <;> rfl
  obtain ⟨type, label, minValue, maxValue, pointsText, readFunc⟩ := control
  obtain rfl : pointsText = points.map Prod.fst := h
  rw [controlText, hopen]
  cases minValue <;> cases maxValue <;> cases points <;>
    simp [members, details, objText, joined_eq, Member.whole, Member.str]

/-! ## The whole text -/

/-- The table behind `initControl`. -/
def listed (instruments : List Instrument) : List Control :=
  controls.modify 2 fun control => { control with points := some (pointsText instruments) }

/-- What the listing says of the instruments. -/
def pointsJson (instruments : List Instrument) : Json :=
  .arr (instruments.map fun i => .obj ((instrumentMembers i).map Member.read))

/-- The members of the object of an entry of the table. -/
def entryMembers (runCommand : RunCommand) (instruments : List Instrument) (p : Control × Nat) :
    List Member :=
  members p.1 p.2 (readValue runCommand p.1)
    (p.1.points.map fun s => (s, pointsJson instruments))

/-- The text of the listing. -/
def listing (runCommand : RunCommand) (instruments : List Instrument) : List Char :=
  arrText ((listed instruments).zipIdx.map fun p => objText (entryMembers runCommand instruments p))

section
variable {runCommand : RunCommand} {instruments : List Instrument}

/-- A synthesizer that answers gives each control a value that is read and is short. -/
theorem Answers.readsValues (h : Answers runCommand instruments) : ReadsValues runCommand := by
  intro control hmem
  obtain ⟨value, hread, -, hlength⟩ := h.values control hmem
  exact ⟨value, hread, hlength⟩

/-- A synthesizer that answers gives each control a printable value. -/
theorem Answers.printable (h : Answers runCommand instruments) {control : Control}
    (hmem : control ∈ listed instruments) : Printable (readValue runCommand control) := by
  have hinitial : control.initial ∈ controls := by
    rw [← tableWith_initial (pointsText instruments)]
    exact List.mem_map_of_mem hmem
  obtain ⟨value, hread, hprintable, -⟩ := h.values _ hinitial
  have hvalue := hread.symm.trans (h.readsValues.read hmem).1
  rwa [Option.some.inj hvalue] at hprintable

/-- The text of a control is a comma, but for the first, and an object. -/
theorem controlText_entry (runCommand : RunCommand) (instruments : List Instrument)
    (p : Control × Nat) :
    controlText p.1 p.2 (readValue runCommand p.1) =
      (if p.2 = 0 then [] else [',']) ++ objText (entryMembers runCommand instruments p) := by
  refine controlText_eq p.1 p.2 _ ?_
  cases p.1.points <;> rfl

/-- The texts behind each other have commas between the objects. -/
theorem flatMap_controlText :
    ((listed instruments).zipIdx.flatMap fun p => controlText p.1 p.2 (readValue runCommand p.1)) =
      joined ((listed instruments).zipIdx.map fun p =>
        objText (entryMembers runCommand instruments p)) := by
  obtain ⟨control, cs, hlisted⟩ : ∃ control cs, listed instruments = control :: cs := ⟨_, _, rfl⟩
  have hrest : ((cs.zipIdx (0 + 1)).flatMap fun p =>
      controlText p.1 p.2 (readValue runCommand p.1)) = (cs.zipIdx (0 + 1)).flatMap fun p =>
        ',' :: objText (entryMembers runCommand instruments p) := by
    refine List.flatMap_congr fun p hp => ?_
    have hpos := (List.mem_zipIdx hp).1
    rw [controlText_entry runCommand instruments, if_neg (by omega)]
    rfl
  have hfirst := controlText_entry runCommand instruments (control, 0)
  rw [if_pos rfl, List.nil_append] at hfirst
  rw [hlisted, List.zipIdx_cons, List.flatMap_cons, hfirst, hrest, List.map_cons, joined_eq,
    List.flatMap_map]

/-- The listing is built within its buffers. -/
theorem getControlInstances_eq (h : Answers runCommand instruments) :
    getControlInstances runCommand = some (listing runCommand instruments) := by
  have hinst := h.inst
  have hfits := Nat.le_of_lt_succ h.fits
  rw [← Instrument.reply_instLines] at hinst hfits
  obtain ⟨hinit, hpoints⟩ := InstLine.initControl_reply hinst hfits
  rw [Instrument.text_instLines, ← pointsText_eq] at hinit hpoints
  rw [getControlInstances_of_initControl h.readsValues hinit (by omega), listing, arrText,
    ← flatMap_controlText]
  rfl

/-! ## Names and values without quotes and backslashes -/

/-- A place in the table is read back as the number. -/
theorem reads_d {i : Nat} (h : i < 100) : Reads (d i) (.num i) := by
  have hall : ∀ i < 100, Nat.toDigits 10 i ≠ [] ∧ Digits (Nat.toDigits 10 i) ∧
      ((Nat.toDigits 10 i).length > 1 → (Nat.toDigits 10 i).head? ≠ some '0') ∧
      digitsValue (Nat.toDigits 10 i) = i := by decide
  obtain ⟨hne, hdigit, hzero, hvalue⟩ := hall i h
  have hreads := reads_num hne hdigit hzero
  rwa [hvalue] at hreads

/-- An instrument without quotes in its name is read back. -/
theorem instrumentMembers_reads {instrument : Instrument} (h : Unescaped instrument.name) :
    Reads (objText (instrumentMembers instrument))
      (.obj ((instrumentMembers instrument).map Member.read)) := by
  have hnumber := instrument.number_plain
  refine reads_obj fun m hm => ?_
  rw [instrumentMembers, List.mem_cons, List.mem_singleton] at hm
  rcases hm with rfl | rfl
  · exact Member.reads_str (by decide) (hnumber.1.plain hnumber.2)
  · exact Member.reads_str (by decide) (instrument.name_printable.plain h)

/-- The instruments are read back as an array where no name has a quote. -/
theorem pointsText_reads (h : ∀ instrument ∈ instruments, Unescaped instrument.name) :
    Reads (pointsText instruments) (pointsJson instruments) := by
  have hitems : ∀ item ∈ instruments.map fun i =>
      (objText (instrumentMembers i), obj ((instrumentMembers i).map Member.read)),
      Reads item.1 item.2 := by
    intro item hitem
    obtain ⟨instrument, hmem, rfl⟩ := List.mem_map.1 hitem
    exact instrumentMembers_reads (h instrument hmem)
  have hreads := reads_arr hitems
  rw [List.map_map, List.map_map] at hreads
  exact hreads

/-- The members of a control are read back, one by one. -/
theorem members_reads {control : Control} (hcontrol : Tabled control) {i : Nat} (hi : i < 100)
    {value : List Char} (hvalue : Plain value) {points : Option (List Char × Json)}
    (hpoints : ∀ p ∈ points, Reads p.1 p.2) :
    ∀ m ∈ members control i value points, m.Reads := by
  intro m hm
  have htype := typeImage_tabled control.type
  simp only [members, details, List.mem_cons, List.mem_append, List.not_mem_nil, or_false,
    Option.mem_toList, Option.map_eq_some_iff] at hm
  rcases hm with rfl | rfl | (((rfl | ⟨s, hs, rfl⟩) | ⟨s, hs, rfl⟩) | rfl) | ⟨p, hp, rfl⟩
  · exact ⟨(by decide : Plain "index".toList), reads_d hi⟩
  · exact Member.reads_str (by decide) (htype.1.plain htype.2.1)
  · exact Member.reads_str (by decide) (hcontrol.label.1.plain hcontrol.label.2.1)
  · exact Member.reads_str (by decide)
      ((hcontrol.minValue s hs).1.plain (hcontrol.minValue s hs).2.1)
  · exact Member.reads_str (by decide)
      ((hcontrol.maxValue s hs).1.plain (hcontrol.maxValue s hs).2.1)
  · exact Member.reads_str (by decide) hvalue
  · exact ⟨(by decide : Plain "points".toList), hpoints p hp⟩

/-- The value of the listing. -/
def listingJson (runCommand : RunCommand) (instruments : List Instrument) : Json :=
  .arr ((listed instruments).zipIdx.map fun p =>
    .obj ((entryMembers runCommand instruments p).map Member.read))

/-- Where there is nothing to escape, the listing is JSON, and this value. -/
theorem parse_listing (h : Answers runCommand instruments)
    (hnames : ∀ instrument ∈ instruments, Unescaped instrument.name)
    (hvalues : ∀ control ∈ listed instruments, Unescaped (readValue runCommand control)) :
    parse (listing runCommand instruments) = some (listingJson runCommand instruments) := by
  have hitems : ∀ item ∈ (listed instruments).zipIdx.map fun p =>
      (objText (entryMembers runCommand instruments p),
        obj ((entryMembers runCommand instruments p).map Member.read)), Reads item.1 item.2 := by
    intro item hitem
    obtain ⟨p, hp, rfl⟩ := List.mem_map.1 hitem
    obtain ⟨hmem, hlt⟩ := mem_of_mem_zipIdx hp
    refine reads_obj (members_reads (Tabled.of_mem_tableWith hmem) (by omega)
      ((h.printable hmem).plain (hvalues _ hmem)) ?_)
    intro q hq
    obtain ⟨s, hs, rfl⟩ := Option.mem_map.1 hq
    rw [Option.mem_def, points_of_mem_tableWith hmem] at hs
    split at hs
    next =>
      obtain rfl := Option.some.inj hs
      exact pointsText_reads hnames
    next => cases hs
  have hreads := reads_arr hitems
  rw [List.map_map, List.map_map] at hreads
  exact hreads.parse

/-- The members of an instrument are found in its object. -/
theorem listsInstrument_members (instrument : Instrument) :
    ListsInstrument (.obj ((instrumentMembers instrument).map Member.read)) instrument :=
  ⟨_, rfl, rfl, rfl⟩

/-- The members of a control are found in its object. -/
theorem listsControl_members (instruments : List Instrument) (control : Control) (i : Nat)
    (value : List Char) (points : Option (List Char × Json))
    (hpoints : control.label = "Instrument".toList →
      points.map Prod.snd = some (pointsJson instruments)) :
    ListsControl instruments control i value
      ((members control i value points).map Member.read) := by
  have hinstruments : List.Forall₂ ListsInstrument
      (instruments.map fun i => .obj ((instrumentMembers i).map Member.read)) instruments := by
    rw [List.forall₂_map_left_iff, List.forall₂_same]
    exact fun instrument _ => listsInstrument_members instrument
  obtain ⟨type, label, minValue, maxValue, pointsText, readFunc⟩ := control
  cases minValue <;> cases maxValue <;> rcases points with _ | ⟨s, v⟩
  all_goals
    refine ⟨rfl, rfl, rfl, rfl, rfl, fun hlabel => ?_⟩
    cases hpoints hlabel
  all_goals exact ⟨_, rfl, hinstruments⟩

/-- Where there is nothing to escape, the listing is faithful. -/
theorem faithful_of_unescaped (h : Answers runCommand instruments)
    (hnames : ∀ instrument ∈ instruments, Unescaped instrument.name)
    (hvalues : ∀ control ∈ listed instruments, Unescaped (readValue runCommand control)) :
    Faithful runCommand instruments (listing runCommand instruments) := by
  refine ⟨_, parse_listing h hnames hvalues, ?_⟩
  have hcontrols : controls.zipIdx =
      (listed instruments).zipIdx.map fun p => (p.1.initial, p.2) := rfl
  rw [hcontrols, List.forall₂_map_right_iff, List.forall₂_map_left_iff, List.forall₂_same]
  intro p hp
  obtain ⟨hmem, hlt⟩ := mem_of_mem_zipIdx hp
  refine ⟨_, _, (h.readsValues.read hmem).1, rfl, ?_⟩
  have hlists := listsControl_members instruments p.1 p.2
    (readValue runCommand p.1) (p.1.points.map fun s => (s, pointsJson instruments)) (by
      intro hlabel
      rw [points_of_mem_tableWith hmem, if_pos hlabel]
      rfl)
  exact ⟨hlists.index, hlists.label, hlists.min, hlists.max, hlists.value, hlists.points⟩

end

/-! ## What a faithful listing costs -/

section
variable {k : Nat} {instruments : List Instrument}

/-- What is printable is ASCII. -/
theorem Printable.ascii {s : List Char} (h : Printable s) : Ascii s := by
  intro c hc
  have hlt := (h c hc).2
  omega

/-- The quotes and backslashes in the names. -/
def escapesNames (instruments : List Instrument) : Nat :=
  (instruments.map fun instrument => escapes instrument.name).sum

/-- A value that lists an instrument costs its text and the escapes that its name lacks. -/
theorem cost_listsInstrument {v : Json} {instrument : Instrument}
    (h : ListsInstrument v instrument) :
    weight k (objText (instrumentMembers instrument)) + (k + 1) * escapes instrument.name ≤
      cost k v := by
  obtain ⟨ms, rfl, hvalue, hsymbol⟩ := h
  have hnumber := instrument.number_plain
  have hfound : ∀ m ∈ (instrumentMembers instrument).map Member.read,
      lookup ms m.1 = some m.2 := by
    intro m hm
    rw [instrumentMembers, List.map_cons, List.map_cons, List.map_nil, List.mem_cons,
      List.mem_singleton] at hm
    rcases hm with rfl | rfl
    · exact hvalue
    · exact hsymbol
  have hkeys : (((instrumentMembers instrument).map Member.read).map Prod.fst).Nodup :=
    (by decide : [units "value".toList, units "symbol".toList].Nodup)
  have hle := membersCost_le_of_lookup (k := k) hkeys hfound
  have hcost : membersCost k ((instrumentMembers instrument).map Member.read) =
      membersWeight k (instrumentMembers instrument) + (k + 1) * escapes instrument.name := by
    have hfirst := membersCost_str (k := k) "value".toList (by decide) (by decide)
      hnumber.1.ascii
    have hsecond := membersCost_str (k := k) "symbol".toList (by decide) (by decide)
      instrument.name_printable.ascii
    rw [escapes_eq_zero.2 hnumber.2] at hfirst
    rw [instrumentMembers, ← List.singleton_append, List.map_append, membersCost_append, hfirst,
      hsecond, membersWeight_append]
    omega
  have hne : instrumentMembers instrument ≠ [] := List.cons_ne_nil _ _
  rw [weight_objText hne, cost]
  omega

/-- The values that list the instruments cost their texts and the escapes that the names lack. -/
theorem cost_points {ps : List Json} (h : List.Forall₂ ListsInstrument ps instruments) :
    weight k (pointsText instruments) + (k + 1) * escapesNames instruments ≤
      cost k (.arr ps) + 1 := by
  have helements : ((instruments.map fun i => objText (instrumentMembers i)).map
      fun t => weight k t + 1).sum + (k + 1) * escapesNames instruments ≤ elementsCost k ps := by
    induction h with
    | nil => exact Nat.le_refl 0
    | @cons v instrument ps instruments hfirst _ ih =>
        have hle := cost_listsInstrument (k := k) hfirst
        have hnames : escapesNames (instrument :: instruments) =
            escapes instrument.name + escapesNames instruments := List.sum_cons
        rw [hnames, mul_add, elementsCost]
        simp only [List.map_cons, List.sum_cons]
        omega
  have htext := weight_arrText_le (k := k) (instruments.map fun i => objText (instrumentMembers i))
  rw [pointsText, cost]
  omega

/-- Digits need no escapes. -/
theorem weight_digits {s : List Char} (h : Digits s) : weight k s = s.length := by
  induction s with
  | nil => rfl
  | cons c s ih =>
      have hc : charWeight k c = 1 := by
        have hdigit := h c List.mem_cons_self
        refine if_neg ?_
        rintro (rfl | rfl)
        · cases hdigit
        · cases hdigit
      have htail : Digits s := fun c' hc' => h c' (List.mem_cons_of_mem c hc')
      rw [weight_cons, hc, ih htail, List.length_cons, Nat.add_comm]

/-- Digits cost what they weigh. -/
theorem weight_d_le {i : Nat} (h : i < 100) : weight k (d i) ≤ cost k (.num i) := by
  have hdigits : ∀ i < 100, Digits (Nat.toDigits 10 i) ∧
      (Nat.toDigits 10 i).length = if i < 10 then 1 else 2 := by decide
  have hlength := (hdigits i h).2
  have hd : weight k (d i) = (Nat.toDigits 10 i).length := weight_digits (hdigits i h).1
  rw [hd, hlength, cost, Rat.num_natCast, Rat.den_natCast]
  split
  next hlt => rw [if_pos ⟨rfl, by omega, by omega⟩]
  next => split <;> omega

/-- Optional members of the table are printed as they cost. -/
theorem membersCost_optional (key : List Char) (hkey : Printable key) (hescapes : Unescaped key)
    {o : Option (List Char)} (h : ∀ s ∈ o, Printable s ∧ Unescaped s ∧ s.length ≤ 16) :
    membersCost k ((o.map (Member.str key)).toList.map Member.read) =
      membersWeight k (o.map (Member.str key)).toList := by
  cases o with
  | none => rfl
  | some s =>
      obtain ⟨hs, hs', -⟩ := h s rfl
      have hcost := membersCost_str (k := k) key hkey.ascii (escapes_eq_zero.2 hescapes) hs.ascii
      rwa [escapes_eq_zero.2 hs', Nat.mul_zero, Nat.add_zero] at hcost

/-- The keys of the details are different. -/
theorem nodup_keys (control : Control) (i : Nat) (value : List Char)
    (points : Option (List Char × Json)) :
    (((⟨"index".toList, d i, .num i⟩ :: details control value points).map Member.read).map
      Prod.fst).Nodup := by
  have hoptional : ∀ {α : Type} (o : Option α) (f : α → Member) (key : List Char),
      (∀ a, (f a).key = key) →
        ((((o.map f).toList).map Member.read).map Prod.fst).Sublist [units key] := by
    intro α o f key hkey
    cases o with
    | none => exact List.nil_sublist _
    | some a =>
        show [units (f a).key].Sublist _
        rw [hkey]
  have hall : ([units "index".toList] ++ ([units "label".toList] ++ [units "min".toList] ++
      [units "max".toList] ++ [units "value".toList] ++ [units "points".toList])).Nodup := by decide
  have hmin := hoptional control.minValue (Member.str "min".toList) _ fun _ => rfl
  have hmax := hoptional control.maxValue (Member.str "max".toList) _ fun _ => rfl
  have hpoints := hoptional points (fun p => ⟨"points".toList, p.1, p.2⟩) _ fun _ => rfl
  have hlabel : [units "label".toList].Sublist [units "label".toList] := List.Sublist.refl _
  have hvalue : [units "value".toList].Sublist [units "value".toList] := List.Sublist.refl _
  refine hall.sublist ?_
  simp only [details, List.map_cons, List.map_append]
  exact .cons_cons _ ((((hlabel.append hmin).append hmax).append hvalue).append hpoints)

/-- The type of a control, which the listing has to pay for besides. -/
theorem membersWeight_type_le (type : ValueType) :
    membersWeight k [Member.str "type".toList (typeImage type)] ≤ 17 := by
  have hquote : charWeight k '"' = 1 := rfl
  have hkey : weight k "type".toList = 4 := rfl
  have himage : weight k (typeImage type) ≤ 7 := by
    cases type
    · exact Nat.le_refl 7
    · exact Nat.le_refl 7
    · exact (by decide : 5 ≤ 7)
    · exact (by decide : 6 ≤ 7)
  rw [membersWeight_singleton, Member.str, hkey, List.cons_append, weight_cons, weight_append,
    weight_cons, weight_nil, hquote]
  omega

/-- The escapes that the object of a control needs. -/
def escapesControl (instruments : List Instrument) (control : Control) (value : List Char) : Nat :=
  escapes value + if control.label = "Instrument".toList then escapesNames instruments else 0

/-- What the object of a control lists is found in it, with the points as they were read. -/
theorem lookup_details {control : Control} {i : Nat} {value : List Char}
    {ms : List (List Nat × Json)} (h : ListsControl instruments control i value ms)
    {points : Option (List Char × Json)}
    (hpoints : ∀ p ∈ points, lookup ms (units "points".toList) = some p.2) :
    ∀ m ∈ (⟨"index".toList, d i, .num i⟩ :: details control value points).map Member.read,
      lookup ms m.1 = some m.2 := by
  intro m hm
  simp only [details, List.map_cons, List.map_append, List.map_nil, List.mem_cons,
    List.mem_append, List.not_mem_nil, or_false, List.mem_map, Option.mem_toList,
    Option.map_eq_some_iff] at hm
  rcases hm with rfl | (((rfl | ⟨-, ⟨s, hs, rfl⟩, rfl⟩) | ⟨-, ⟨s, hs, rfl⟩, rfl⟩) | rfl) |
    ⟨-, ⟨p, hp, rfl⟩, rfl⟩
  · exact h.index
  · exact h.label
  · show lookup ms (units "min".toList) = some (text s)
    rw [h.min, hs, Option.map_some]
  · show lookup ms (units "max".toList) = some (text s)
    rw [h.max, hs, Option.map_some]
  · exact h.value
  · exact hpoints p hp

/-- The index of a control costs what it weighs. -/
theorem membersWeight_index_le {i : Nat} (hi : i < 100) :
    membersWeight k [⟨"index".toList, d i, .num i⟩] ≤
      membersCost k [Member.read ⟨"index".toList, d i, .num i⟩] := by
  have hd := weight_d_le (k := k) hi
  have hmember := membersCost_singleton (k := k) "index".toList (d i) (.num i) (by decide)
    (by decide)
  omega

/-- The points of a control cost what they weigh and what their names need. -/
theorem membersWeight_points_le {control : Control}
    (hpoints : control.points =
      if control.label = "Instrument".toList then some (pointsText instruments) else none)
    {ps : List Json}
    (hforall : control.label = "Instrument".toList →
      List.Forall₂ ListsInstrument ps instruments) :
    membersWeight k (((control.points.map fun s => (s, pointsJson instruments)).map
        fun p => Member.mk "points".toList p.1 p.2).toList) +
      (k + 1) * (if control.label = "Instrument".toList then escapesNames instruments else 0) ≤
      membersCost k ((((control.points.map fun s => (s, Json.arr ps)).map
        fun p => Member.mk "points".toList p.1 p.2).toList).map Member.read) + 1 := by
  rw [hpoints]
  split
  next hlabel =>
    have hcost := cost_points (k := k) (hforall hlabel)
    have hread := membersCost_singleton (k := k) "points".toList (pointsText instruments) (.arr ps)
      (by decide) (by decide)
    -- the text of the points weighs the same whatever they are read as
    have hprinted : membersWeight k [⟨"points".toList, pointsText instruments, .arr ps⟩] =
        membersWeight k [⟨"points".toList, pointsText instruments, pointsJson instruments⟩] :=
      rfl
    simp only [Option.map_some, Option.toList_some, List.map_singleton]
    omega
  next => exact Nat.zero_le _

/-- The instruments that the object of a control lists, where the control has points. -/
theorem ListsControl.exists_points {control : Control}
    (hpoints : control.points =
      if control.label = "Instrument".toList then some (pointsText instruments) else none)
    {i : Nat} {value : List Char} {ms : List (List Nat × Json)}
    (h : ListsControl instruments control i value ms) :
    ∃ ps, (∀ p ∈ control.points.map fun s => (s, Json.arr ps),
        lookup ms (units "points".toList) = some p.2) ∧
      (control.label = "Instrument".toList → List.Forall₂ ListsInstrument ps instruments) := by
  rw [hpoints]
  by_cases hlabel : control.label = "Instrument".toList
  · obtain ⟨ps, hlookup, hforall⟩ := h.points hlabel
    refine ⟨ps, fun p hp => ?_, fun _ => hforall⟩
    rw [if_pos hlabel] at hp
    obtain rfl := Option.some.inj hp
    exact hlookup
  · refine ⟨[], fun p hp => ?_, fun heq => absurd heq hlabel⟩
    rw [if_neg hlabel] at hp
    cases hp

/-- A value that lists a control costs its text and the escapes that this lacks. -/
theorem cost_listsControl {control : Control} (hcontrol : Tabled control)
    (hpoints : control.points =
      if control.label = "Instrument".toList then some (pointsText instruments) else none)
    {i : Nat} (hi : i < 100) {value : List Char} (hvalue : Printable value)
    {ms : List (List Nat × Json)} (h : ListsControl instruments control i value ms) :
    weight k (objText (members control i value
        (control.points.map fun s => (s, pointsJson instruments)))) +
      (k + 1) * escapesControl instruments control value ≤ cost k (.obj ms) + 18 := by
  obtain ⟨ps, hread, hforall⟩ := h.exists_points hpoints
  have hle := membersCost_le_of_lookup (k := k) (nodup_keys control i value _)
    (lookup_details h hread)
  have hindex := membersWeight_index_le (k := k) hi
  have htype := membersWeight_type_le (k := k) control.type
  have hlabel := membersCost_str (k := k) "label".toList (by decide) (by decide)
    hcontrol.label.1.ascii
  rw [escapes_eq_zero.2 hcontrol.label.2.1] at hlabel
  have hmin := membersCost_optional (k := k) "min".toList (by decide) (by decide)
    hcontrol.minValue
  have hmax := membersCost_optional (k := k) "max".toList (by decide) (by decide)
    hcontrol.maxValue
  have hvalueCost := membersCost_str (k := k) "value".toList (by decide) (by decide)
    hvalue.ascii
  have hpointsCost := membersWeight_points_le (k := k) hpoints hforall
  have hmembers :
      members control i value (control.points.map fun s => (s, pointsJson instruments)) =
      [⟨"index".toList, d i, .num i⟩] ++ ([.str "type".toList (typeImage control.type)] ++
        details control value (control.points.map fun s => (s, pointsJson instruments))) := rfl
  have hne : members control i value (control.points.map fun s => (s, pointsJson instruments)) ≠
      [] := List.cons_ne_nil _ _
  rw [weight_objText hne, hmembers, cost, escapesControl, mul_add]
  rw [← List.singleton_append] at hle
  simp only [details, List.map_append, membersCost_append, membersWeight_append] at hle ⊢
  rw [List.map_singleton] at hle
  omega

/-- The objects of a part of the table. -/
theorem elementsCost_of_lists {runCommand : RunCommand} (h : Answers runCommand instruments)
    {vs : List Json} {entries : List (Control × Nat)}
    (hentries : ∀ p ∈ entries, p ∈ (listed instruments).zipIdx)
    (hlists : List.Forall₂ (fun v p => ∃ ms, v = .obj ms ∧
      ListsControl instruments p.1 p.2 (readValue runCommand p.1) ms) vs entries) :
    (entries.map fun p => weight k (objText (entryMembers runCommand instruments p)) + 1).sum +
      (k + 1) * (entries.map fun p =>
        escapesControl instruments p.1 (readValue runCommand p.1)).sum ≤
      elementsCost k vs + 18 * entries.length := by
  induction hlists with
  | nil => exact Nat.le_refl 0
  | @cons v p vs entries hfirst _ ih =>
      obtain ⟨ms, rfl, hms⟩ := hfirst
      obtain ⟨hmem, hlt⟩ := mem_of_mem_zipIdx (hentries p List.mem_cons_self)
      have htail := ih fun q hq => hentries q (List.mem_cons_of_mem _ hq)
      have hcost := cost_listsControl (k := k) (Tabled.of_mem_tableWith hmem)
        (points_of_mem_tableWith hmem) (by omega) (h.printable hmem) hms
      rw [← entryMembers] at hcost
      simp only [List.map_cons, List.sum_cons, List.length_cons, elementsCost, mul_add]
      omega

/-- A faithful listing pays for no escape. -/
theorem escapes_of_faithful {runCommand : RunCommand} (h : Answers runCommand instruments)
    (hfaithful : Faithful runCommand instruments (listing runCommand instruments)) :
    ∀ p ∈ (listed instruments).zipIdx,
      escapesControl instruments p.1 (readValue runCommand p.1) = 0 := by
  obtain ⟨vs, hparse, hforall⟩ := hfaithful
  have hcontrols : controls.zipIdx =
      (listed instruments).zipIdx.map fun p => (p.1.initial, p.2) := rfl
  rw [hcontrols, List.forall₂_map_right_iff] at hforall
  have hlists : List.Forall₂ (fun v p => ∃ ms, v = .obj ms ∧
      ListsControl instruments p.1 p.2 (readValue runCommand p.1) ms) vs
      (listed instruments).zipIdx := by
    refine hforall.imp fun v p hp => ?_
    obtain ⟨value, ms, hread, rfl, hms⟩ := hp
    have hvalue : readValue runCommand p.1 = value := by
      have hread' : p.1.readFunc runCommand = some value := hread
      rw [readValue, hread', Option.getD_some]
    rw [hvalue]
    exact ⟨ms, rfl, hms.index, hms.label, hms.min, hms.max, hms.value, hms.points⟩
  have hcost := elementsCost_of_lists (k := 1000) h (fun _ hp => hp) hlists
  have htext := cost_le_weight (k := 1000) hparse
  have hlength : (listed instruments).zipIdx.length = 13 := by
    rw [List.length_zipIdx]
    rfl
  have harr := weight_arrText_le (k := 1000)
    ((listed instruments).zipIdx.map fun p => objText (entryMembers runCommand instruments p))
  rw [List.map_map] at harr
  rw [listing, cost] at htext
  have hsum : ((listed instruments).zipIdx.map fun p =>
      escapesControl instruments p.1 (readValue runCommand p.1)).sum = 0 := by
    have hcomp : ((listed instruments).zipIdx.map ((fun t => weight 1000 t + 1) ∘ fun p =>
        objText (entryMembers runCommand instruments p))).sum =
        ((listed instruments).zipIdx.map fun p =>
          weight 1000 (objText (entryMembers runCommand instruments p)) + 1).sum := rfl
    omega
  intro p hp
  exact List.sum_eq_zero_iff.1 hsum _ (List.mem_map_of_mem hp)

end

/-- A faithful listing leaves no room for a name or a value that has to be escaped. -/
theorem unescaped_of_faithful {runCommand : RunCommand} {instruments : List Instrument}
    (h : Answers runCommand instruments)
    (hfaithful : Faithful runCommand instruments (listing runCommand instruments)) :
    (∀ instrument ∈ instruments, Unescaped instrument.name) ∧
      ∀ control ∈ listed instruments, Unescaped (readValue runCommand control) := by
  have hescapes := escapes_of_faithful h hfaithful
  refine ⟨fun instrument hinstrument => ?_, fun control hcontrol => ?_⟩
  · obtain ⟨control, hmem, hlabel⟩ : ∃ control, (control, 2) ∈ (listed instruments).zipIdx ∧
        control.label = "Instrument".toList :=
      ⟨_, List.mem_zipIdx_iff_getElem?.2 rfl, rfl⟩
    have hzero := hescapes _ hmem
    rw [escapesControl, if_pos hlabel] at hzero
    have hnames : escapesNames instruments = 0 := by omega
    exact escapes_eq_zero.1 (List.sum_eq_zero_iff.1 hnames _ (List.mem_map_of_mem hinstrument))
  · obtain ⟨i, hi⟩ := List.mem_iff_getElem?.1 hcontrol
    have hzero : escapesControl instruments control (readValue runCommand control) = 0 :=
      hescapes (control, i) (List.mem_zipIdx_iff_getElem?.2 hi)
    rw [escapesControl] at hzero
    exact escapes_eq_zero.1 (by omega)

/-! ## When the listing is faithful -/

/-- The listing is faithful exactly where no instrument's name and no value that is read has a quote
or a backslash. -/
theorem getControlInstances_faithful_iff (runCommand : RunCommand) (instruments : List Instrument)
    (h : Answers runCommand instruments) :
    (∃ response, getControlInstances runCommand = some response ∧
      Faithful runCommand instruments response) ↔
    (∀ instrument ∈ instruments, Unescaped instrument.name) ∧
      ∀ control ∈ controls, ∀ value, control.readFunc runCommand = some value →
        Unescaped value := by
  have hvalues : (∀ control ∈ controls, ∀ value, control.readFunc runCommand = some value →
      Unescaped value) ↔
      ∀ control ∈ listed instruments, Unescaped (readValue runCommand control) := by
    rw [← tableWith_initial (pointsText instruments), List.forall_mem_map]
    refine forall₂_congr fun control hmem => ?_
    have hread := (h.readsValues.read hmem).1
    refine ⟨fun hall => hall _ hread, fun hunescaped value hvalue => ?_⟩
    have heq : some (readValue runCommand control) = some value := hread.symm.trans hvalue
    rwa [← Option.some.inj heq]
  rw [hvalues]
  refine ⟨?_, fun ⟨hnames, hvalues⟩ => ?_⟩
  · rintro ⟨response, hresponse, hfaithful⟩
    rw [getControlInstances_eq h] at hresponse
    obtain rfl := Option.some.inj hresponse
    exact unescaped_of_faithful h hfaithful
  · exact ⟨_, getControlInstances_eq h, faithful_of_unescaped h hnames hvalues⟩

/-- A piano, and nothing that needs an escape. -/
def grandPiano : Instrument where
  bank := "000".toList
  preset := "000".toList
  name := "Grand Piano".toList
  bank_digits := by decide
  preset_digits := by decide
  name_printable := by decide
  name_length := by decide

/-- A fluidsynth with the given instruments, which answers everything else with a number. -/
def fluidsynth (instruments : List Instrument) : RunCommand := fun command _ =>
  if command = "inst 1".toList then Instrument.response instruments
  else if command = "channels -verbose".toList then
    "chan 0, sfont 1, bank 0, preset 0, Grand Piano\n".toList
  else "0.200\n".toList

/-- What is read from this fluidsynth. -/
def ReadsNumbers (runCommand : RunCommand) : Prop :=
  ∀ control ∈ controls, control.readFunc runCommand = some "0.200".toList ∨
    control.readFunc runCommand = some "000-000".toList

instance (runCommand : RunCommand) : Decidable (ReadsNumbers runCommand) :=
  inferInstanceAs (Decidable (∀ control ∈ controls, _))

/-- The synthesizer answers for a font that its reply can hold. -/
theorem fluidsynth_answers {instruments : List Instrument}
    (h : (Instrument.response instruments).length < 5000)
    (hvalues : ReadsNumbers (fluidsynth instruments)) :
    Answers (fluidsynth instruments) instruments := by
  refine ⟨rfl, h, fun control hmem => ?_⟩
  rcases hvalues control hmem with hread | hread
  · exact ⟨_, hread, by decide, by decide⟩
  · exact ⟨_, hread, by decide, by decide⟩

/-- The values of the controls for the piano are numbers. -/
theorem grandPiano_values : ReadsNumbers (fluidsynth [grandPiano]) := by decide +kernel

/-- The piano without quotes is listed. -/
theorem grandPiano_listed :
    ∃ response, getControlInstances (fluidsynth [grandPiano]) = some response ∧
      Faithful (fluidsynth [grandPiano]) [grandPiano] response :=
  (getControlInstances_faithful_iff (fluidsynth [grandPiano]) [grandPiano]
    (fluidsynth_answers (by decide) grandPiano_values)).2
    ⟨by decide, fun control hmem value hvalue => by
      rcases grandPiano_values control hmem with hread | hread
      all_goals
        obtain rfl := Option.some.inj (hread.symm.trans hvalue)
        decide⟩

/-- A name that a sound font may give. -/
def quotedPiano : Instrument where
  bank := "000".toList
  preset := "001".toList
  name := "Piano \"A\"".toList
  bank_digits := by decide
  preset_digits := by decide
  name_printable := by decide
  name_length := by decide

/-- The values of the controls for the quoted piano are numbers. -/
theorem quotedPiano_values : ReadsNumbers (fluidsynth [quotedPiano]) := by decide +kernel

/-- The listing of this instrument is not faithful. -/
theorem quotedPiano_not_listed :
    Answers (fluidsynth [quotedPiano]) [quotedPiano] ∧
      ¬ ∃ response, getControlInstances (fluidsynth [quotedPiano]) = some response ∧
        Faithful (fluidsynth [quotedPiano]) [quotedPiano] response := by
  have hanswers : Answers (fluidsynth [quotedPiano]) [quotedPiano] :=
    fluidsynth_answers (by decide) quotedPiano_values
  refine ⟨hanswers, ?_⟩
  rintro ⟨response, hresponse, hfaithful⟩
  rw [getControlInstances_eq hanswers] at hresponse
  obtain rfl := Option.some.inj hresponse
  have hname := (unescaped_of_faithful hanswers hfaithful).1 quotedPiano List.mem_cons_self
  exact absurd hname (by decide)

end Soundcan.FluidUi
