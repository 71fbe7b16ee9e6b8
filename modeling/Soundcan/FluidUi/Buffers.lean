import Soundcan.Lib.Json
import Soundcan.FluidUi.Controls

/-!
# The buffers of the listing

No copy into a buffer of `initControl` and `getControlInstances` is bounded. A line of the reply to
`inst 1` grows by 23 bytes when it becomes a record, and by a comma, so that the worst reply is one
of short lines (`sum_records_le`). What fits the reply buffer fits all the others
(`listing_fits`).
-/

namespace Soundcan.FluidUi

open CText Json

/-! ## The records -/

/-- What `initControl` prints to `record` for a line. -/
def recordText (line : List Char) : List Char :=
  "\x7b\"value\":\"".toList ++ line.take 7 ++ "\",\"symbol\":\"".toList ++ line.drop 8 ++
    "\"\x7d".toList

/-- A record takes 23 characters and its line. -/
theorem length_recordText {line : List Char} (h : 8 ≤ line.length) :
    (recordText line).length = 23 + line.length := by
  have htake : min 7 line.length = 7 := by omega
  unfold recordText
  simp [htake]
  omega

/-- The record of a line of up to 176 characters fits its buffer. -/
theorem instrumentRecord_of_le {line : List Char} (h : 8 ≤ line.length) (hle : line.length ≤ 176) :
    instrumentRecord line = some (recordText line) := by
  have hlt : (recordText line).length < 200 := by
    have hlength := length_recordText h
    omega
  exact (if_neg (by omega)).trans (sprintf_of_lt hlt)

/-- A record and a comma are at most 32/9 of their line. -/
theorem sum_records_le {lines : List (List Char)} (h : ∀ line ∈ lines, 8 ≤ line.length) :
    9 * (lines.map fun line => 24 + line.length).sum ≤
      32 * (lines.map fun line => line.length + 1).sum := by
  induction lines with
  | nil => rfl
  | cons line lines ih =>
      have hline := h line List.mem_cons_self
      have hlines := ih fun l hl => h l (List.mem_cons_of_mem _ hl)
      simp only [List.map_cons, List.sum_cons]
      omega

/-- The loop appends the records of the lines. -/
theorem initPoints_lines {lines : List (List Char)}
    (hlines : ∀ line ∈ lines, 8 ≤ line.length ∧ line.length ≤ 176) (s : List Char)
    (hlength : s.length + (lines.map fun line => 24 + line.length).sum < 20000) :
    initPoints true lines s = some (s ++ lines.flatMap fun line => ',' :: recordText line) := by
  induction lines generalizing s with
  | nil => rw [initPoints, List.flatMap_nil, List.append_nil]
  | cons line lines ih =>
      rw [List.map_cons, List.sum_cons] at hlength
      obtain ⟨hge, hle⟩ := hlines line List.mem_cons_self
      have htext := length_recordText hge
      rw [initPoints, if_pos rfl,
        strcat_of_lt (by simp only [List.length_cons, List.length_nil]; omega)]
      simp only [Option.bind_eq_bind, Option.bind_some, instrumentRecord_of_le hge hle]
      rw [strcat_of_lt
        (by simp only [List.length_append, List.length_cons, List.length_nil]; omega)]
      simp only [Option.bind_some]
      rw [ih (fun l hl => hlines l (List.mem_cons_of_mem _ hl)) _
          (by simp only [List.length_append, List.length_cons, List.length_nil]; omega),
        List.flatMap_cons]
      simp only [List.append_assoc, List.cons_append, List.nil_append]

/-- The text of `instrumentPoints`. -/
def recordsText (lines : List (List Char)) : List Char := arrText (lines.map recordText)

/-- The records together, with their commas and brackets. -/
theorem length_recordsText_le {lines : List (List Char)} (h : ∀ line ∈ lines, 8 ≤ line.length) :
    (recordsText lines).length ≤ 2 + (lines.map fun line => 24 + line.length).sum := by
  rw [recordsText, arrText, List.cons_append, List.length_cons, List.length_append,
    List.length_singleton]
  cases lines with
  | nil => decide
  | cons line lines =>
      have htail : (lines.map fun l => (recordText l).length + 1).sum =
          (lines.map fun l => 24 + l.length).sum := by
        congr 1
        refine List.map_congr_left fun l hl => ?_
        rw [length_recordText (h l (List.mem_cons_of_mem _ hl))]
        omega
      have hfirst := length_recordText (h line List.mem_cons_self)
      rw [List.map_cons, joined_eq, List.flatMap_map, List.length_append, List.length_flatMap,
        List.map_cons, List.sum_cons]
      simp only [List.length_cons]
      omega

/-! ## The table with the instruments -/

/-- The table behind `initControl`, with the text of the instruments. -/
def tableWith (points : List Char) : List Control :=
  controls.modify 2 fun control => { control with points := some points }

/-- `initControl` puts the records of the lines into the third entry. -/
theorem initControl_lines {runCommand : RunCommand} {lines : List (List Char)}
    (hinst : strtok ['\n'] (runCommand "inst 1".toList 5000) = lines)
    (hlines : ∀ line ∈ lines, 8 ≤ line.length ∧ line.length ≤ 176)
    (hlength : (lines.map fun line => line.length + 1).sum < 5000) :
    initControl runCommand = some (tableWith (recordsText lines)) := by
  have hsum := sum_records_le fun line hline => (hlines line hline).1
  have htext := length_recordsText_le fun line hline => (hlines line hline).1
  have hpoints : initPoints false lines ['['] = some ('[' :: joined (lines.map recordText)) := by
    cases lines with
    | nil => rfl
    | cons line lines =>
        simp only [List.map_cons, List.sum_cons] at hsum hlength
        obtain ⟨hge, hle⟩ := hlines line List.mem_cons_self
        have hrecord := length_recordText hge
        rw [initPoints, if_neg Bool.false_ne_true]
        simp only [Option.bind_eq_bind, Option.bind_some, instrumentRecord_of_le hge hle]
        rw [strcat_of_lt (by simp only [List.length_cons, List.length_nil]; omega)]
        simp only [Option.bind_some]
        rw [initPoints_lines (fun l hl => hlines l (List.mem_cons_of_mem _ hl)) _ (by
            simp only [List.length_append, List.length_cons, List.length_nil]; omega),
          List.map_cons, joined_eq, List.flatMap_map]
        rfl
  simp only [initControl, hinst, hpoints, Option.bind_eq_bind, Option.bind_some]
  rw [strcat_of_lt]
  · rfl
  · rw [recordsText, arrText, List.length_append] at htext
    omega

/-- A control as it stands in the table in front of `initControl`. -/
def Control.initial (control : Control) : Control := { control with points := none }

/-- Only the values of the instrument control are filled in. -/
theorem tableWith_initial (points : List Char) :
    (tableWith points).map Control.initial = controls := rfl

/-- The table stays as it is spelled, with the values filled in. -/
theorem Tabled.of_mem_tableWith {points : List Char} {control : Control}
    (h : control ∈ tableWith points) : Tabled control := by
  have hmem : control.initial ∈ controls := by
    rw [← tableWith_initial points]
    exact List.mem_map_of_mem h
  obtain ⟨hlabel, hmin, hmax⟩ := controls_tabled _ hmem
  exact ⟨hlabel, hmin, hmax⟩

/-- Points stand in the control `Instrument` and in no other. -/
theorem points_of_mem_tableWith {points : List Char} {control : Control}
    (h : control ∈ tableWith points) :
    control.points = if control.label = "Instrument".toList then some points else none := by
  have hsplit : tableWith points = controls.take 2 ++ (⟨.typeString, "Instrument".toList, none,
      none, some points, readInstrument⟩ :: controls.drop 3) := rfl
  have hother : ∀ control ∈ controls.take 2 ++ controls.drop 3,
      control.points = none ∧ control.label ≠ "Instrument".toList := by decide
  rw [hsplit, List.mem_append, List.mem_cons] at h
  rcases h with h | rfl | h
  · obtain ⟨hpoints, hlabel⟩ := hother control (List.mem_append_left _ h)
    rw [hpoints, if_neg hlabel]
  · exact (if_pos rfl).symm
  · obtain ⟨hpoints, hlabel⟩ := hother control (List.mem_append_right _ h)
    rw [hpoints, if_neg hlabel]

/-- What is listed with an index is in the table, at one of its 13 places. -/
theorem mem_of_mem_zipIdx {points : List Char} {p : Control × Nat}
    (h : p ∈ (tableWith points).zipIdx) : p.1 ∈ tableWith points ∧ p.2 < 13 := by
  obtain ⟨-, hlt, hget⟩ := List.mem_zipIdx h
  rw [hget]
  have hlength : (tableWith points).length = 13 := rfl
  exact ⟨List.getElem_mem _, by omega⟩

/-! ## The text of a control -/

/-- What `listControl` appends. -/
def controlText (control : Control) (i : Nat) (value : List Char) : List Char :=
  (if i = 0 then ['{'] else [',', '{']) ++ ("\"index\":".toList ++ d i) ++
    (",\"type\":\"".toList ++ typeImage control.type ++ ['"']) ++
    (",\"label\":\"".toList ++ control.label ++ ['"']) ++
    (control.minValue.map fun s => ",\"min\":\"".toList ++ s ++ ['"']).getD [] ++
    (control.maxValue.map fun s => ",\"max\":\"".toList ++ s ++ ['"']).getD [] ++
    (",\"value\":\"".toList ++ value ++ ['"']) ++
    (control.points.map fun s => ",\"points\":".toList ++ s).getD [] ++ ['}']

/-- A record that fits its buffer, and the response with it, is appended. -/
theorem strcatRecord_of_lt {response record : List Char} (hrecord : record.length < 20000)
    (h : response.length + record.length < 50000) :
    strcatRecord response record = some (response ++ record) := by
  rw [strcatRecord, sprintf_of_lt hrecord]
  exact strcat_of_lt h

/-- An optional record that fits is appended where there is one. -/
theorem strcatOptional_of_lt {response : List Char} {record : List Char → List Char}
    {s : Option (List Char)} (hrecord : ((s.map record).getD []).length < 20000)
    (h : response.length + ((s.map record).getD []).length < 50000) :
    strcatOptional response record s = some (response ++ (s.map record).getD []) := by
  cases s with
  | none =>
      rw [Option.map_none, Option.getD_none, List.append_nil]
      rfl
  | some s => exact strcatRecord_of_lt hrecord h

/-- The text of a control whose value is read is appended where it fits. -/
theorem listControl_of_lt {runCommand : RunCommand} {control : Control} {i : Nat}
    {value response : List Char} (hread : control.readFunc runCommand = some value)
    (hrecord : (controlText control i value).length < 20000)
    (h : response.length + (controlText control i value).length < 50000) :
    listControl runCommand control i response = some (response ++ controlText control i value) := by
  unfold controlText at hrecord h ⊢
  simp only [List.length_append] at hrecord h
  simp only [listControl, hread, Option.bind_eq_bind, Option.bind_some]
  rw [strcat_of_lt (by omega), Option.bind_some]
  rw [strcatRecord_of_lt (by rw [List.length_append]; omega)
    (by simp only [List.length_append]; omega), Option.bind_some]
  rw [strcatRecord_of_lt (by simp only [List.length_append]; omega)
    (by simp only [List.length_append]; omega), Option.bind_some]
  rw [strcatRecord_of_lt (by simp only [List.length_append]; omega)
    (by simp only [List.length_append]; omega), Option.bind_some]
  rw [strcatOptional_of_lt (by omega) (by simp only [List.length_append]; omega), Option.bind_some]
  rw [strcatOptional_of_lt (by omega) (by simp only [List.length_append]; omega), Option.bind_some]
  rw [strcatRecord_of_lt (by simp only [List.length_append]; omega)
    (by simp only [List.length_append]; omega), Option.bind_some]
  rw [strcatOptional_of_lt (by omega) (by simp only [List.length_append]; omega), Option.bind_some]
  rw [strcat_of_lt (by simp only [List.length_append]; omega)]
  simp only [List.append_assoc]

/-- A place in the table takes two digits at most. -/
theorem length_d_le {i : Nat} (h : i < 100) : (d i).length ≤ 2 := by
  have hall : ∀ i < 100, (Nat.toDigits 10 i).length ≤ 2 := by decide
  exact hall i h

/-- A control takes 200 characters at most, its values aside. -/
theorem length_controlText_le {control : Control} (h : Tabled control) {i : Nat} (hi : i < 100)
    {value : List Char} (hvalue : value.length ≤ 29) :
    (controlText control i value).length ≤ 200 + (control.points.getD []).length := by
  have hlabel := h.label.2.2
  have htype := (typeImage_tabled control.type).2.2
  have hd := length_d_le hi
  have hopen : (if i = 0 then ['{'] else [',', '{']).length ≤ 2 := by split <;> simp
  have hmin : ((control.minValue.map fun s => ",\"min\":\"".toList ++ s ++ ['"']).getD []).length ≤
      25 := by
    cases hs : control.minValue with
    | none => simp
    | some s =>
        have hlength := (h.minValue s hs).2.2
        simp
        omega
  have hmax : ((control.maxValue.map fun s => ",\"max\":\"".toList ++ s ++ ['"']).getD []).length ≤
      25 := by
    cases hs : control.maxValue with
    | none => simp
    | some s =>
        have hlength := (h.maxValue s hs).2.2
        simp
        omega
  have hpoints : ((control.points.map fun s => ",\"points\":".toList ++ s).getD []).length ≤
      10 + (control.points.getD []).length := by
    cases control.points <;> simp
    omega
  have h1 : "\"index\":".toList.length = 8 := rfl
  have h2 : ",\"type\":\"".toList.length = 9 := rfl
  have h3 : ",\"label\":\"".toList.length = 10 := rfl
  have h4 : ",\"value\":\"".toList.length = 10 := rfl
  simp only [controlText, List.length_append, List.length_cons, List.length_nil, h1, h2, h3, h4]
  omega

/-! ## The whole text -/

section
variable {runCommand : RunCommand} (value : Control → List Char)

/-- The loop appends the texts of the controls. -/
theorem listControls_of_lt (cs : List Control) (i : Nat) (response : List Char)
    (hread : ∀ control ∈ cs, control.readFunc runCommand = some (value control))
    (hrecord : ∀ p ∈ cs.zipIdx i, (controlText p.1 p.2 (value p.1)).length < 20000)
    (h : response.length +
      ((cs.zipIdx i).map fun p => (controlText p.1 p.2 (value p.1)).length).sum < 50000) :
    listControls runCommand cs i response =
      some (response ++ (cs.zipIdx i).flatMap fun p => controlText p.1 p.2 (value p.1)) := by
  induction cs generalizing i response with
  | nil => rw [listControls, List.zipIdx_nil, List.flatMap_nil, List.append_nil]
  | cons control cs ih =>
      rw [List.zipIdx_cons] at hrecord h ⊢
      simp only [List.map_cons, List.sum_cons] at h
      have hcontrol : (controlText control i (value control)).length < 20000 :=
        hrecord (control, i) List.mem_cons_self
      have hfirst : listControl runCommand control i response =
          some (response ++ controlText control i (value control)) :=
        listControl_of_lt (hread control List.mem_cons_self) hcontrol (by omega)
      simp only [listControls, Option.bind_eq_bind, hfirst, Option.bind_some]
      have hrest := ih (i + 1) (response ++ controlText control i (value control))
        (fun c hc => hread c (List.mem_cons_of_mem _ hc))
        (fun p hp => hrecord p (List.mem_cons_of_mem _ hp))
        (by rw [List.length_append]; omega)
      rw [hrest, List.flatMap_cons, List.append_assoc]

end

/-- The value that is read for a control. -/
def readValue (runCommand : RunCommand) (control : Control) : List Char :=
  (control.readFunc runCommand).getD []

/-- Each control gives a value, which fits `readValue`. -/
def ReadsValues (runCommand : RunCommand) : Prop :=
  ∀ control ∈ controls, ∃ value, control.readFunc runCommand = some value ∧ value.length ≤ 29

instance (runCommand : RunCommand) : Decidable (ReadsValues runCommand) :=
  decidable_of_iff
    (∀ control ∈ controls, (control.readFunc runCommand).any (·.length ≤ 29))
    (by simp only [ReadsValues, Option.any_eq_true, decide_eq_true_eq])

section
variable {runCommand : RunCommand} {points : List Char}

/-- The texts of the controls. -/
def controlTexts (runCommand : RunCommand) (points : List Char) : List Char :=
  (tableWith points).zipIdx.flatMap fun p => controlText p.1 p.2 (readValue runCommand p.1)

/-- Each control of the table is read, as a short value. -/
theorem ReadsValues.read (h : ReadsValues runCommand) {control : Control}
    (hmem : control ∈ tableWith points) :
    control.readFunc runCommand = some (readValue runCommand control) ∧
      (readValue runCommand control).length ≤ 29 := by
  have hinitial : control.initial ∈ controls := by
    rw [← tableWith_initial points]
    exact List.mem_map_of_mem hmem
  obtain ⟨value, hread, hlength⟩ := h _ hinitial
  have hread' : control.readFunc runCommand = some value := hread
  have hvalue : readValue runCommand control = value := by rw [readValue, hread', Option.getD_some]
  rw [hvalue]
  exact ⟨hread', hlength⟩

/-- The text of a control without points is short. -/
theorem length_controlText_tableWith_le (h : ReadsValues runCommand) {p : Control × Nat}
    (hp : p ∈ (tableWith points).zipIdx) :
    (controlText p.1 p.2 (readValue runCommand p.1)).length ≤
      200 + (p.1.points.getD []).length := by
  obtain ⟨hmem, hlt⟩ := mem_of_mem_zipIdx hp
  exact length_controlText_le (Tabled.of_mem_tableWith hmem) (by omega) (h.read hmem).2

/-- The texts of all the controls take 200 characters each, and the values of one of them. -/
theorem length_controlTexts_le (h : ReadsValues runCommand) (points : List Char) :
    (controlTexts runCommand points).length ≤ 13 * 200 + points.length := by
  have hle : ((tableWith points).zipIdx.map fun p =>
      (controlText p.1 p.2 (readValue runCommand p.1)).length).sum ≤
      ((tableWith points).zipIdx.map fun p => 200 + (p.1.points.getD []).length).sum :=
    List.sum_le_sum fun p hp => length_controlText_tableWith_le h hp
  have hsum : ((tableWith points).zipIdx.map fun p => 200 + (p.1.points.getD []).length).sum =
      13 * 200 + points.length := by
    simp [tableWith, controls, Control.bounded]
    omega
  rw [controlTexts, List.length_flatMap]
  omega

/-- With points that fit their record, the listing fits its buffer. -/
theorem getControlInstances_of_initControl (h : ReadsValues runCommand)
    (hinit : initControl runCommand = some (tableWith points)) (hpoints : points.length < 19800) :
    getControlInstances runCommand = some ('[' :: controlTexts runCommand points ++ [']']) := by
  have htotal := length_controlTexts_le h points
  have hrecord : ∀ p ∈ (tableWith points).zipIdx,
      (controlText p.1 p.2 (readValue runCommand p.1)).length < 20000 := by
    intro p hp
    have hlength := length_controlText_tableWith_le h hp
    have hle : (p.1.points.getD []).length ≤ points.length := by
      rw [points_of_mem_tableWith (mem_of_mem_zipIdx hp).1]
      split
      · exact le_rfl
      · exact Nat.zero_le _
    omega
  have hloop := listControls_of_lt (readValue runCommand) (tableWith points) 0 ['[']
    (fun control hmem => (h.read hmem).1) hrecord
    (by rw [List.length_singleton, ← List.length_flatMap, ← controlTexts]; omega)
  simp only [getControlInstances, hinit, Option.bind_eq_bind, Option.bind_some, hloop]
  refine strcat_of_lt ?_
  rw [← controlTexts, List.length_append, List.length_singleton, List.length_singleton]
  omega

end

/-! ## The buffers suffice -/

/-- A line `bbb-ppp name` of the reply to `inst 1`. -/
structure InstLine where
  bank : List Char
  preset : List Char
  name : List Char
  bank_digits : bank.length = 3 ∧ Digits bank
  preset_digits : preset.length = 3 ∧ Digits preset
  name_line : ∀ c ∈ name, c ≠ '\n' ∧ c ≠ '\x00'
  name_length : name.length ≤ 160

namespace InstLine

/-- The line, without its end. -/
def text (line : InstLine) : List Char := line.bank ++ '-' :: line.preset ++ ' ' :: line.name

/-- The reply. -/
def reply (lines : List InstLine) : List Char := lines.flatMap fun line => line.text ++ ['\n']

/-- A line takes eight characters and its name. -/
theorem length_text (line : InstLine) : line.text.length = 8 + line.name.length := by
  have hbank := line.bank_digits.1
  have hpreset := line.preset_digits.1
  simp only [text, List.length_append, List.length_cons]
  omega

/-- A line has no line break inside. -/
theorem text_ne_newline (line : InstLine) : '\n' ∉ line.text := by
  have hdigits {s : List Char} (h : Digits s) : '\n' ∉ s := by
    intro hmem
    exact absurd (h '\n' hmem) (by decide)
  simp only [text, List.mem_append, List.mem_cons, not_or]
  exact ⟨⟨hdigits line.bank_digits.2, by decide, hdigits line.preset_digits.2⟩, by decide,
    fun hmem => (line.name_line '\n' hmem).1 rfl⟩

/-- The reply is its lines, each with its line break. -/
theorem length_reply (lines : List InstLine) :
    (reply lines).length = ((lines.map text).map fun line => line.length + 1).sum := by
  rw [reply, List.length_flatMap, List.map_map]
  simp [Function.comp_def]

/-- Cut at its line breaks, the reply gives its lines back. -/
theorem strtok_reply (lines : List InstLine) : strtok ['\n'] (reply lines) = lines.map text := by
  rw [reply, ← List.flatMap_map text (fun line => line ++ ['\n'])]
  refine strtok_lines ?_ ?_
  · intro text htext
    obtain ⟨line, -, rfl⟩ := List.mem_map.1 htext
    have hlength := line.length_text
    exact List.ne_nil_of_length_pos (by omega)
  · intro text htext
    obtain ⟨line, -, rfl⟩ := List.mem_map.1 htext
    exact line.text_ne_newline

/-- Each line of the reply has the length of one. -/
theorem length_of_mem (lines : List InstLine) :
    ∀ line ∈ lines.map text, 8 ≤ line.length ∧ line.length ≤ 176 := by
  intro text htext
  obtain ⟨line, -, rfl⟩ := List.mem_map.1 htext
  have hlength := line.length_text
  have hname := line.name_length
  omega

/-- A reply that fits its buffer becomes a table whose points fit theirs. -/
theorem initControl_reply {runCommand : RunCommand} {lines : List InstLine}
    (hinst : runCommand "inst 1".toList 5000 = reply lines) (hfits : (reply lines).length ≤ 4999) :
    initControl runCommand = some (tableWith (recordsText (lines.map text))) ∧
      (recordsText (lines.map text)).length ≤ 17776 := by
  rw [length_reply] at hfits
  refine ⟨initControl_lines (by rw [hinst, strtok_reply]) (length_of_mem lines) (by omega), ?_⟩
  have hsum := sum_records_le fun line hline => (length_of_mem lines line hline).1
  have htext := length_recordsText_le fun line hline =>
    (length_of_mem lines line hline).1
  omega

end InstLine

/-- The texts fit: the record of each line, the points behind the last one and the record of the
points, and, where the values fit theirs, the response, each with its terminator. -/
structure ListingFits (runCommand : RunCommand) (lines : List InstLine) : Prop where
  records : ∀ line ∈ lines, ∃ record,
    instrumentRecord line.text = some record ∧ record.length + 1 ≤ 200
  points : ∃ points, initControl runCommand = some (tableWith points) ∧
    points.length + 1 ≤ 20000 ∧ (",\"points\":".toList ++ points).length + 1 ≤ 20000
  response : ReadsValues runCommand → ∃ response,
    getControlInstances runCommand = some response ∧ response.length + 1 ≤ 50000

/-- Every reply that fits its buffer leads to a listing that fits its buffers. -/
theorem listing_fits {runCommand : RunCommand} {lines : List InstLine}
    (hinst : runCommand "inst 1".toList 5000 = InstLine.reply lines)
    (hfits : (InstLine.reply lines).length ≤ 4999) : ListingFits runCommand lines := by
  obtain ⟨hinit, hpoints⟩ := InstLine.initControl_reply hinst hfits
  refine ⟨fun line hline => ?_, ⟨_, hinit, by omega, ?_⟩, fun hvalues => ?_⟩
  · obtain ⟨hge, hle⟩ := InstLine.length_of_mem lines _ (List.mem_map_of_mem hline)
    refine ⟨_, instrumentRecord_of_le hge hle, ?_⟩
    have hrecord := length_recordText hge
    omega
  · have hkey : ",\"points\":".toList.length = 10 := rfl
    rw [List.length_append, hkey]
    omega
  · refine ⟨_, getControlInstances_of_initControl hvalues hinit (by omega), ?_⟩
    have htotal := length_controlTexts_le hvalues (recordsText (lines.map InstLine.text))
    simp only [List.length_append, List.length_cons, List.length_nil]
    omega

/-- A line with a short name. -/
def pianoLine : InstLine where
  bank := "008".toList
  preset := "004".toList
  name := "Piano".toList
  bank_digits := by decide
  preset_digits := by decide
  name_line := by simp
  name_length := by decide

/-- A fluidsynth that lists it twice, and answers everything else with an empty line. -/
def twoPianos : RunCommand := fun command _ =>
  if command = "inst 1".toList then InstLine.reply [pianoLine, pianoLine] else ['\n']

/-- The two pianos and their values are as short as that. -/
theorem twoPianos_fits : ListingFits twoPianos [pianoLine, pianoLine] ∧ ReadsValues twoPianos :=
  ⟨listing_fits rfl (by decide), by decide +kernel⟩

end Soundcan.FluidUi
