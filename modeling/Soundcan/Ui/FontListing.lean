import Soundcan.Ui.Fluidsynth

/-!
# The listings that `FetchFonts` reads

`FetchFonts` takes the replies of the synthesizer apart by position. It drops the first row of the
list of fonts and what is behind the last newline, takes the first two columns of each row that is
left, and cuts an instrument at fixed bytes. `fetchFonts_returns_iff` says on which replies it does
not panic, `fetchFonts_inverts_iff` for which listings it finds what was listed.
-/

namespace Soundcan.Ui

open GoString

/-! ## The rows -/

/-- The rows of a reply that end with a newline. -/
def completeRows (response : String) : List String := (split response '\n').dropLast

/-- The first two columns of a row. -/
def columns (row : String) : Option (String × String) :=
  match fields row with
  | column :: filename :: _ => some (column, filename)
  | _ => none

/-- The entry of a row. -/
def FontMap.insertColumns (fonts : FontMap) (c : String × String) : FontMap :=
  fonts.insert c.1 ⟨c.1, base c.2, []⟩

/-- A row has its two columns where two fields are there. -/
theorem columns_isSome {row : String} : (columns row).isSome ↔ 2 ≤ (fields row).length := by
  unfold columns
  cases fields row with
  | nil => simp
  | cons column rest => cases rest <;> simp

/-- A row is inserted where it has its columns. -/
theorem fontRow_eq (fonts : FontMap) (row : String) :
    fontRow fonts row = (columns row).map fonts.insertColumns := by
  unfold fontRow columns
  cases fields row with
  | nil => rfl
  | cons column rest =>
      cases rest with
      | nil => rfl
      | cons filename rest =>
          simp only [sliceFrom_lastIndex]
          rfl

/-- A map that may fail succeeds where each element does. -/
theorem mapM_isSome {α β : Type} (f : α → Option β) (l : List α) :
    (l.mapM f).isSome ↔ ∀ a ∈ l, (f a).isSome := by
  induction l with
  | nil => simp
  | cons a l ih =>
      rw [List.mapM_cons, List.forall_mem_cons, ← ih]
      cases f a with
      | none => simp
      | some b => cases l.mapM f <;> simp

/-- A map that may fail is a plain map where each element succeeds. -/
theorem mapM_eq_map {α β : Type} {f : α → Option β} {g : α → β} {l : List α}
    (h : ∀ a ∈ l, f a = some (g a)) : l.mapM f = some (l.map g) := by
  induction l with
  | nil => rfl
  | cons a l ih =>
      rw [List.mapM_cons, h a List.mem_cons_self, ih fun b hb => h b (List.mem_cons_of_mem _ hb)]
      rfl

/-- What `mapM` collects. -/
theorem eq_filterMap_of_mapM {α β : Type} {f : α → Option β} {l : List α} {bs : List β}
    (h : l.mapM f = some bs) : bs = l.filterMap f := by
  induction l generalizing bs with
  | nil => exact (Option.some.inj h).symm
  | cons a l ih =>
      rw [List.mapM_cons] at h
      obtain ⟨b, hb, h⟩ := Option.bind_eq_some_iff.1 h
      obtain ⟨bs', hbs', h⟩ := Option.bind_eq_some_iff.1 h
      obtain rfl := Option.some.inj h
      rw [List.filterMap_cons_some hb, ih hbs']

/-- The rows are inserted one by one, if all of them have their columns. -/
theorem foldlM_fontRow (rows : List String) (fonts : FontMap) :
    rows.foldlM fontRow fonts =
      (rows.mapM columns).map fun cs => cs.foldl FontMap.insertColumns fonts := by
  induction rows generalizing fonts with
  | nil => rfl
  | cons row rows ih =>
      rw [List.foldlM_cons, List.mapM_cons, fontRow_eq]
      cases columns row with
      | none => rfl
      | some c =>
          show rows.foldlM fontRow (fonts.insertColumns c) = _
          rw [ih]
          cases rows.mapM columns <;> rfl

/-- There is a complete row exactly when there is a newline. -/
theorem two_le_length_split (s : String) : 2 ≤ (split s '\n').length ↔ '\n' ∈ s.toList := by
  rw [split, List.length_map]
  by_cases h : '\n' ∈ s.toList
  · obtain ⟨front, back, heq, -⟩ := Path.eq_append_cons_of_mem h
    have hfront := List.length_pos_of_ne_nil (List.splitOn_ne_nil '\n' front)
    have hback := List.length_pos_of_ne_nil (List.splitOn_ne_nil '\n' back)
    rw [heq, List.splitOn_append_cons_self, List.length_append]
    exact iff_of_true (by omega) (by simp)
  · rw [List.splitOn_eq_singleton h]
    exact iff_of_false (by simp) h

/-- `rows[1:len(rows)-1]`. -/
theorem sub_rows {α : Type} (rows : List α) :
    sub rows 1 (rows.length - 1) = if 2 ≤ rows.length then some rows.dropLast.tail else none := by
  rw [sub, List.dropLast_eq_take, ← List.drop_one]
  exact if_congr (by omega) rfl rfl

/-- The rows between the header and the last line break. -/
theorem fontRows_eq (response : String) :
    fontRows response =
      if '\n' ∈ response.toList then
        ((completeRows response).tail.mapM columns).map
          fun cs => cs.foldl FontMap.insertColumns ∅
      else none := by
  have hsub : sub (split response '\n') 1 ((split response '\n').length - 1) =
      if '\n' ∈ response.toList then some (completeRows response).tail else none := by
    rw [sub_rows]
    exact if_congr (two_le_length_split response) rfl rfl
  show (sub (split response '\n') 1 ((split response '\n').length - 1) >>= fun rows =>
    rows.foldlM fontRow ∅) = _
  rw [hsub]
  split
  · exact foldlM_fontRow _ _
  · rfl

/-- The rows up to the last line break. -/
theorem instrumentRows_eq (response : String) :
    instrumentRows response = (completeRows response).mapM instrumentRow := by
  have hlength := List.length_pos_of_ne_nil (split_ne_nil response '\n')
  have hsub : sub (split response '\n') 0 ((split response '\n').length - 1) =
      some (completeRows response) := by
    rw [sub, if_pos (by omega), List.drop_zero, ← List.dropLast_eq_take]
    rfl
  show (sub (split response '\n') 0 ((split response '\n').length - 1) >>= fun rows =>
    rows.mapM instrumentRow) = _
  rw [hsub]
  rfl

/-- A row is cut into its parts where it has eight bytes. -/
theorem instrumentRow_isSome {row : String} : (instrumentRow row).isSome ↔ 8 ≤ row.length := by
  unfold instrumentRow
  rcases Nat.lt_or_ge row.length 8 with hshort | hlong
  · refine iff_of_false ?_ (not_le.2 hshort)
    rw [sliceFrom_eq_none hshort]
    cases slice row 0 3 <;> cases slice row 4 7 <;> exact Bool.false_ne_true
  · rw [slice_eq_some (by decide) (by omega), slice_eq_some (by decide) (by omega),
      sliceFrom_eq_some hlong]
    exact iff_of_true rfl hlong

/-! ## The loops -/

/-- The keys are those from before and those of the rows. -/
theorem FontMap.mem_foldl_insertColumns (cs : List (String × String)) (fonts : FontMap)
    (key : String) :
    key ∈ cs.foldl FontMap.insertColumns fonts ↔ key ∈ fonts ∨ ∃ c ∈ cs, c.1 = key := by
  induction cs generalizing fonts with
  | nil => simp
  | cons c cs ih =>
      rw [List.foldl_cons, ih, FontMap.insertColumns, AList.mem_insert]
      simp only [List.mem_cons, exists_eq_or_imp]
      tauto

/-- The second loop ends exactly when it can cut every row of every reply. -/
theorem fetchInstruments_isSome (replies : Replies) (keys : List String) (fonts : FontMap) :
    (fetchInstruments replies keys fonts).2.isSome ↔
      ∀ key ∈ keys, ∀ row ∈ completeRows (replies.text ("inst " ++ key)), 8 ≤ row.length := by
  induction keys generalizing fonts with
  | nil => simp [fetchInstruments]
  | cons key keys ih =>
      have hrows : (instrumentRows (replies.text ("inst " ++ key))).isSome ↔
          ∀ row ∈ completeRows (replies.text ("inst " ++ key)), 8 ≤ row.length := by
        rw [instrumentRows_eq, mapM_isSome]
        exact forall₂_congr fun row _ => instrumentRow_isSome
      rw [List.forall_mem_cons, ← hrows, fetchInstruments]
      cases instrumentRows (replies.text ("inst " ++ key)) with
      | none => simp
      | some instruments => simpa using ih _

/-- The ids that the first loop reads from the reply to `fonts`. -/
def Lists (response id : String) : Prop :=
  ∃ row ∈ (completeRows response).tail, (columns row).map Prod.fst = some id

/-- `FetchFonts` returns without a panic exactly when there is a newline in the reply to `fonts`,
every complete row of it behind the first one has two columns, and every complete row of the reply
to `inst` for a listed font has eight bytes. -/
theorem fetchFonts_returns_iff (order : RangeOrder) (replies : Replies) :
    (fetchFonts order replies).2.isSome ↔
      '\n' ∈ (replies.text "fonts").toList ∧
      (∀ row ∈ (completeRows (replies.text "fonts")).tail, 2 ≤ (fields row).length) ∧
      ∀ id, Lists (replies.text "fonts") id →
        ∀ row ∈ completeRows (replies.text ("inst " ++ id)), 8 ≤ row.length := by
  unfold fetchFonts
  rw [fontRows_eq]
  by_cases hnewline : '\n' ∈ (replies.text "fonts").toList
  swap
  · rw [if_neg hnewline]
    exact iff_of_false Bool.false_ne_true fun h => hnewline h.1
  rw [if_pos hnewline]
  have hcolumns : ((completeRows (replies.text "fonts")).tail.mapM columns).isSome ↔
      ∀ row ∈ (completeRows (replies.text "fonts")).tail, 2 ≤ (fields row).length := by
    rw [mapM_isSome]
    exact forall₂_congr fun row _ => columns_isSome
  cases hrows : (completeRows (replies.text "fonts")).tail.mapM columns with
  | none =>
      rw [hrows] at hcolumns
      exact iff_of_false Bool.false_ne_true fun h => Bool.false_ne_true (hcolumns.2 h.2.1)
  | some cs =>
      rw [hrows] at hcolumns
      have hids : ∀ id, id ∈ order.visit (cs.foldl FontMap.insertColumns ∅).keys ↔
          Lists (replies.text "fonts") id := by
        intro id
        rw [(order.perm _).mem_iff, ← AList.mem_keys, FontMap.mem_foldl_insertColumns,
          eq_filterMap_of_mapM hrows, Lists]
        simp only [AList.notMem_empty, false_or, List.mem_filterMap, Option.map_eq_some_iff]
        tauto
      show (fetchInstruments replies (order.visit (cs.foldl FontMap.insertColumns ∅).keys)
        (cs.foldl FontMap.insertColumns ∅)).2.isSome ↔ _
      rw [fetchInstruments_isSome]
      constructor
      · intro h
        exact ⟨hnewline, hcolumns.1 rfl, fun id hid => h id ((hids id).2 hid)⟩
      · rintro ⟨-, -, h⟩ id hid
        exact h id ((hids id).1 hid)

/-- Without a connection to the synthesizer `FetchFonts` panics. -/
theorem fetchFonts_panics_unconnected : (fetchFonts .given fun _ => none).2 = none := by
  decide +kernel

/-! ## The listing -/

/-- Three digits. -/
def ThreeDigits (s : String) : Prop := s.length = 3 ∧ ∀ c ∈ s.toList, c.isDigit = true

instance (s : String) : Decidable (ThreeDigits s) := inferInstanceAs (Decidable (_ ∧ _))

/-- An instrument of the synthesizer. -/
structure ListedInstrument where
  bank : String
  preset : String
  name : String
  bank_digits : ThreeDigits bank
  preset_digits : ThreeDigits preset
  name_line : '\n' ∉ name.toList

/-- The line of an instrument. -/
def ListedInstrument.line (i : ListedInstrument) : String :=
  i.bank ++ "-" ++ i.preset ++ " " ++ i.name

/-- What is to be read from it. -/
def ListedInstrument.record (i : ListedInstrument) : InstrumentRecord := ⟨i.bank, i.preset, i.name⟩

/-- A font of the synthesizer: the id is a word. -/
structure ListedFont where
  id : String
  path : String
  instruments : List ListedInstrument
  id_word : fields id = [id]
  id_line : '\n' ∉ id.toList
  path_line : '\n' ∉ path.toList

/-- The line of a font. -/
def ListedFont.line (font : ListedFont) : String := font.id ++ "  " ++ font.path

/-- What is to be read from it. -/
def ListedFont.record (font : ListedFont) : FontRecord :=
  ⟨font.id, base font.path, font.instruments.map ListedInstrument.record⟩

/-- The fonts of the synthesizer and the header of their list. -/
structure Listing where
  header : String
  fonts : List ListedFont
  header_line : '\n' ∉ header.toList
  nodup : (fonts.map ListedFont.id).Nodup

/-- The replies of the synthesizer. -/
def Listing.replies (l : Listing) : Replies := fun command =>
  if command = "fonts" then some (lines (l.header :: l.fonts.map ListedFont.line))
  else (l.fonts.find? fun font => command = "inst " ++ font.id).map fun font =>
    lines (font.instruments.map ListedInstrument.line)

/-- The map is the one of the listing. -/
structure Listing.IsRead (l : Listing) (fonts : FontMap) : Prop where
  keys : ∀ key, key ∈ fonts ↔ ∃ font ∈ l.fonts, font.id = key
  records : ∀ font ∈ l.fonts, fonts.lookup font.id = some font.record

/-- `fluidprogram`: the value of the option of an instrument. -/
def InstrumentRecord.bp (i : InstrumentRecord) : String := i.bank ++ "-" ++ i.preset

/-- The form of a `fluidprogram`. -/
def fluidprogramForm (font bankpreset : String) : Form := some fun key =>
  if key = "font" then font else if key = "bankpreset" then bankpreset else ""

/-- The command that selects the instrument. -/
def InstrumentRecord.command (i : InstrumentRecord) (channel font : String) : String :=
  "select " ++ channel ++ " " ++ font ++ " " ++ i.bank ++ " " ++ i.preset

/-- The reply to `fonts` has a header and a line for each font. -/
theorem Listing.text_fonts (l : Listing) :
    l.replies.text "fonts" = lines (l.header :: l.fonts.map ListedFont.line) := rfl

/-- The listing has the instruments of a font. -/
theorem Listing.text_inst (l : Listing) {font : ListedFont} (h : font ∈ l.fonts) :
    l.replies.text ("inst " ++ font.id) = lines (font.instruments.map ListedInstrument.line) := by
  have hne : "inst " ++ font.id ≠ "fonts" := by
    intro heq
    have hhead := congrArg (fun s => s.toList.head?) heq
    rw [String.toList_append] at hhead
    cases hhead
  have hfind : (l.fonts.find? fun font' => "inst " ++ font.id = "inst " ++ font'.id) =
      some font := by
    cases hfound : l.fonts.find? fun font' => "inst " ++ font.id = "inst " ++ font'.id with
    | none =>
        have hnone := List.find?_eq_none.1 hfound font h
        exact absurd (decide_eq_true rfl) hnone
    | some font' =>
        have hsame := List.find?_some hfound
        have hid := (String.append_right_inj _).1 (of_decide_eq_true hsame)
        rw [List.inj_on_of_nodup_map l.nodup h (List.mem_of_find?_eq_some hfound) hid]
  rw [Replies.text, replies, if_neg hne, hfind]
  rfl

/-- Lines that are written out are read as they were. -/
theorem completeRows_lines {ls : List String} (h : ∀ l ∈ ls, '\n' ∉ l.toList) :
    completeRows (lines ls) = ls := by
  rw [completeRows, split_lines h, List.dropLast_concat]

/-- Three digits have no line break among them. -/
theorem ThreeDigits.newline_notMem {s : String} (h : ThreeDigits s) : '\n' ∉ s.toList :=
  fun hmem => absurd (h.2 _ hmem) (by decide)

/-- The line of an instrument has no line break. -/
theorem ListedInstrument.newline_notMem_line (i : ListedInstrument) : '\n' ∉ i.line.toList := by
  simp [line, i.bank_digits.newline_notMem, i.preset_digits.newline_notMem, i.name_line]

/-- The line of a font has no line break. -/
theorem ListedFont.newline_notMem_line (font : ListedFont) : '\n' ∉ font.line.toList := by
  simp [line, font.id_line, font.path_line]

/-- An instrument is cut back from its line. -/
theorem ListedInstrument.instrumentRow_line (i : ListedInstrument) :
    instrumentRow i.line = some i.record := by
  have hbank : slice i.line 0 3 = some i.bank := by
    have hslice := slice_append "" i.bank ("-" ++ i.preset ++ " " ++ i.name)
    rwa [i.bank_digits.1, String.empty_append, ← String.append_assoc, ← String.append_assoc,
      ← String.append_assoc] at hslice
  have hpreset : slice i.line 4 7 = some i.preset := by
    have hslice := slice_append (i.bank ++ "-") i.preset (" " ++ i.name)
    rw [String.length_append, i.bank_digits.1, i.preset_digits.1] at hslice
    rwa [line, String.append_assoc]
  have hname : sliceFrom i.line 8 = some i.name := by
    have hslice := sliceFrom_append (i.bank ++ "-" ++ i.preset ++ " ") i.name
    rwa [String.length_append, String.length_append, String.length_append, i.bank_digits.1,
      i.preset_digits.1] at hslice
  rw [instrumentRow, hbank, hpreset, hname]
  rfl

/-- The first word of the path. -/
def ListedFont.word (font : ListedFont) : String := (fields font.path).headD ""

/-- The columns of the line of a font are its id and the words of its path. -/
theorem ListedFont.columns_line (font : ListedFont) :
    columns font.line = if fields font.path = [] then none else some (font.id, font.word) := by
  have hline : font.line = font.id ++ " " ++ "" ++ " " ++ font.path := by
    have hblanks : "  " = " " ++ " " := rfl
    rw [line, hblanks, String.append_empty, ← String.append_assoc]
  have hfields : fields font.line = font.id :: fields font.path := by
    have hempty : fields "" = [] := rfl
    rw [hline, fields_append_blank, fields_append_blank, font.id_word, hempty]
    rfl
  rw [columns, hfields, word]
  cases fields font.path <;> rfl

/-- Rows with other keys leave a key alone. -/
theorem FontMap.lookup_foldl_insertColumns_of_notMem {cs : List (String × String)} {key : String}
    (h : key ∉ cs.map Prod.fst) (fonts : FontMap) :
    (cs.foldl FontMap.insertColumns fonts).lookup key = fonts.lookup key := by
  induction cs generalizing fonts with
  | nil => rfl
  | cons c cs ih =>
      rw [List.map_cons, List.mem_cons, not_or] at h
      rw [List.foldl_cons, ih h.2, FontMap.insertColumns, AList.lookup_insert_ne h.1]

/-- A row whose key is the only such is what is found. -/
theorem FontMap.lookup_foldl_insertColumns {cs : List (String × String)}
    (h : (cs.map Prod.fst).Nodup) {c : String × String} (hc : c ∈ cs) (fonts : FontMap) :
    (cs.foldl FontMap.insertColumns fonts).lookup c.1 = some ⟨c.1, base c.2, []⟩ := by
  induction cs generalizing fonts with
  | nil => cases hc
  | cons c' cs ih =>
      rw [List.map_cons, List.nodup_cons] at h
      rcases List.mem_cons.1 hc with rfl | hmem
      · rw [List.foldl_cons, FontMap.lookup_foldl_insertColumns_of_notMem h.1,
          FontMap.insertColumns, AList.lookup_insert]
      · exact ih h.2 hmem _

/-- Inserting a font leaves those with other keys. -/
theorem FontMap.get_insert_of_ne {key key' : String} (h : key' ≠ key) (font : FontRecord)
    (fonts : FontMap) : FontMap.get (fonts.insert key font) key' = fonts.get key' := by
  rw [FontMap.get, AList.lookup_insert_ne h, FontMap.get]

/-- What the second loop leaves at each key. -/
theorem fetchInstruments_lookup {replies : Replies} {keys : List String} (hnodup : keys.Nodup)
    {fonts fonts' : FontMap} (h : (fetchInstruments replies keys fonts).2 = some fonts')
    (key : String) :
    fonts'.lookup key =
      if key ∈ keys then
        (instrumentRows (replies.text ("inst " ++ key))).map fun instruments =>
          { fonts.get key with instruments := instruments }
      else fonts.lookup key := by
  induction keys generalizing fonts with
  | nil =>
      obtain rfl := Option.some.inj h
      rfl
  | cons key' keys ih =>
      obtain ⟨hnot, hnodup⟩ := List.nodup_cons.1 hnodup
      rw [fetchInstruments] at h
      cases hrows : instrumentRows (replies.text ("inst " ++ key')) with
      | none =>
          rw [hrows] at h
          cases h
      | some instruments =>
          rw [hrows] at h
          rw [ih hnodup h]
          by_cases heq : key = key'
          · subst heq
            rw [if_neg hnot, if_pos List.mem_cons_self, AList.lookup_insert, hrows]
            rfl
          · rw [FontMap.get_insert_of_ne heq, AList.lookup_insert_ne heq]
            exact if_congr (by simp [heq]) rfl rfl

namespace Listing

/-- The rows of the list of fonts behind the header. -/
theorem completeRows_fonts (l : Listing) :
    (completeRows (l.replies.text "fonts")).tail = l.fonts.map ListedFont.line := by
  have hlines : ∀ row ∈ l.header :: l.fonts.map ListedFont.line, '\n' ∉ row.toList := by
    intro row hrow
    rcases List.mem_cons.1 hrow with rfl | hfont
    · exact l.header_line
    · obtain ⟨font, -, rfl⟩ := List.mem_map.1 hfont
      exact font.newline_notMem_line
  rw [text_fonts, completeRows_lines hlines, List.tail_cons]

/-- The instruments of a font are read in order. -/
theorem instrumentRows_inst (l : Listing) {font : ListedFont} (h : font ∈ l.fonts) :
    instrumentRows (l.replies.text ("inst " ++ font.id)) =
      some (font.instruments.map ListedInstrument.record) := by
  have hlines : ∀ row ∈ font.instruments.map ListedInstrument.line, '\n' ∉ row.toList := by
    intro row hrow
    obtain ⟨i, -, rfl⟩ := List.mem_map.1 hrow
    exact i.newline_notMem_line
  rw [instrumentRows_eq, l.text_inst h, completeRows_lines hlines, List.mapM_map]
  exact mapM_eq_map fun i _ => i.instrumentRow_line

/-- The reply to `fonts` always has a line break. -/
theorem newline_mem_fonts (l : Listing) : '\n' ∈ (l.replies.text "fonts").toList := by
  rw [text_fonts]
  simp [lines]

/-- The columns of the fonts, where no path is blank. -/
theorem mapM_columns (l : Listing) (h : ∀ font ∈ l.fonts, fields font.path ≠ []) :
    (completeRows (l.replies.text "fonts")).tail.mapM columns =
      some (l.fonts.map fun font => (font.id, font.word)) := by
  rw [completeRows_fonts, List.mapM_map]
  refine mapM_eq_map fun font hfont => ?_
  rw [Function.comp_apply, ListedFont.columns_line, if_neg (h font hfont)]

/-- A blank path has no second column. -/
theorem fetchFonts_eq_none (order : RangeOrder) (l : Listing) {font : ListedFont}
    (h : font ∈ l.fonts) (hblank : fields font.path = []) :
    (fetchFonts order l.replies).2 = none := by
  have hcolumns : (completeRows (l.replies.text "fonts")).tail.mapM columns = none := by
    rw [← Option.not_isSome_iff_eq_none, mapM_isSome, completeRows_fonts]
    intro hall
    have hfont := hall _ (List.mem_map_of_mem h)
    rw [ListedFont.columns_line, if_pos hblank] at hfont
    cases hfont
  rw [fetchFonts, fontRows_eq, if_pos l.newline_mem_fonts, hcolumns]
  rfl

/-- The map of the first loop has the fonts without their instruments. -/
theorem foldl_insertColumns_fonts (l : Listing) :
    let first := (l.fonts.map fun font => (font.id, font.word)).foldl FontMap.insertColumns ∅
    (∀ key, key ∈ first ↔ ∃ font ∈ l.fonts, font.id = key) ∧
      ∀ font ∈ l.fonts, first.lookup font.id = some ⟨font.id, base font.word, []⟩ := by
  have hnodup : ((l.fonts.map fun font => (font.id, font.word)).map Prod.fst).Nodup := by
    rw [List.map_map]
    exact l.nodup
  constructor
  · intro key
    rw [FontMap.mem_foldl_insertColumns]
    simp
  · intro font hfont
    exact FontMap.lookup_foldl_insertColumns hnodup
      (List.mem_map_of_mem (f := fun font => (font.id, font.word)) hfont) ∅

/-- The second loop visits each of these and reads its instruments. -/
theorem fetchInstruments_fonts (order : RangeOrder) (l : Listing) {first : FontMap}
    (hmem : ∀ key, key ∈ first ↔ ∃ font ∈ l.fonts, font.id = key)
    (hlookup : ∀ font ∈ l.fonts, first.lookup font.id = some ⟨font.id, base font.word, []⟩) :
    ∃ fonts, (fetchInstruments l.replies (order.visit first.keys) first).2 = some fonts ∧
      (∀ key, key ∈ fonts ↔ ∃ font ∈ l.fonts, font.id = key) ∧
      ∀ font ∈ l.fonts, fonts.lookup font.id =
        some ⟨font.id, base font.word, font.instruments.map ListedInstrument.record⟩ := by
  have hvisit : ∀ key, key ∈ order.visit first.keys ↔ ∃ font ∈ l.fonts, font.id = key := by
    intro key
    rw [(order.perm _).mem_iff, ← AList.mem_keys, hmem]
  have hreturns : (fetchInstruments l.replies (order.visit first.keys) first).2.isSome := by
    rw [fetchInstruments_isSome]
    intro key hkey
    obtain ⟨font, hfont, rfl⟩ := (hvisit key).1 hkey
    have hrows := congrArg Option.isSome (l.instrumentRows_inst hfont)
    rw [instrumentRows_eq, Option.isSome_some, mapM_isSome] at hrows
    exact fun row hrow => instrumentRow_isSome.1 (hrows row hrow)
  obtain ⟨fonts, hfonts⟩ := Option.isSome_iff_exists.1 hreturns
  have hlookup' := fetchInstruments_lookup ((order.perm _).nodup_iff.2 first.keys_nodup) hfonts
  have hrecord : ∀ font ∈ l.fonts, fonts.lookup font.id =
      some ⟨font.id, base font.word, font.instruments.map ListedInstrument.record⟩ := by
    intro font hfont
    rw [hlookup', if_pos ((hvisit _).2 ⟨font, hfont, rfl⟩), l.instrumentRows_inst hfont,
      FontMap.get, hlookup font hfont]
    rfl
  refine ⟨fonts, hfonts, fun key => ?_, hrecord⟩
  constructor
  · intro hkey
    by_cases hlisted : ∃ font ∈ l.fonts, font.id = key
    · exact hlisted
    · rw [← AList.lookup_isSome, hlookup', if_neg fun hin => hlisted ((hvisit key).1 hin),
        AList.lookup_isSome] at hkey
      exact absurd ((hmem key).1 hkey) hlisted
  · rintro ⟨font, hfont, rfl⟩
    rw [← AList.lookup_isSome, hrecord font hfont]
    rfl

/-- What `FetchFonts` reads where no path is blank. -/
theorem fetchFonts_eq_some (order : RangeOrder) (l : Listing)
    (h : ∀ font ∈ l.fonts, fields font.path ≠ []) :
    ∃ fonts, (fetchFonts order l.replies).2 = some fonts ∧
      (∀ key, key ∈ fonts ↔ ∃ font ∈ l.fonts, font.id = key) ∧
      ∀ font ∈ l.fonts, fonts.lookup font.id =
        some ⟨font.id, base font.word, font.instruments.map ListedInstrument.record⟩ := by
  obtain ⟨hmem, hlookup⟩ := l.foldl_insertColumns_fonts
  obtain ⟨fonts, hfonts, hkeys, hrecords⟩ := fetchInstruments_fonts order l hmem hlookup
  refine ⟨fonts, ?_, hkeys, hrecords⟩
  rw [fetchFonts, fontRows_eq, if_pos l.newline_mem_fonts, l.mapM_columns h, Option.map_some]
  exact hfonts

end Listing

/-- The option of an instrument is cut back into its bank and preset. -/
theorem ListedInstrument.select_record (i : ListedInstrument) (channel font : String)
    (s : PageState) :
    (postSetBankPresetHandler channel (fluidprogramForm font i.record.bp) s).1 =
      [i.record.command channel font] := by
  have hbank : slice i.record.bp 0 3 = some i.bank := by
    have hslice := slice_append "" i.bank ("-" ++ i.preset)
    rwa [i.bank_digits.1, String.empty_append, ← String.append_assoc] at hslice
  have hpreset : slice i.record.bp 4 7 = some i.preset := by
    have hslice := slice_append (i.bank ++ "-") i.preset ""
    rwa [String.length_append, i.bank_digits.1, i.preset_digits.1, String.append_empty] at hslice
  simp [postSetBankPresetHandler, fluidprogramForm, hbank, hpreset]
  rfl

/-- `FetchFonts` inverts the listing, and the options of the page are cut back into the bank and
preset, exactly when the first word of each path has the base name of the path. -/
theorem fetchFonts_inverts_iff (order : RangeOrder) (l : Listing) :
    (∃ fonts, (fetchFonts order l.replies).2 = some fonts ∧ l.IsRead fonts ∧
        ∀ font ∈ l.fonts, ∀ i ∈ (fonts.get font.id).instruments, ∀ channel s,
          (postSetBankPresetHandler channel (fluidprogramForm font.id i.bp) s).1 =
            [i.command channel font.id]) ↔
      ∀ font ∈ l.fonts, ∃ word rest, fields font.path = word :: rest ∧
        base word = base font.path := by
  constructor
  · rintro ⟨fonts, hfonts, hread, -⟩ font hfont
    have hwords : ∀ font ∈ l.fonts, fields font.path ≠ [] := by
      intro font hfont hblank
      rw [l.fetchFonts_eq_none order hfont hblank] at hfonts
      cases hfonts
    obtain ⟨fonts', hfonts', -, hrecords⟩ := l.fetchFonts_eq_some order hwords
    obtain rfl := Option.some.inj (hfonts.symm.trans hfonts')
    have hsame := (hread.records font hfont).symm.trans (hrecords font hfont)
    have hbase : base font.path = base font.word :=
      congrArg FontRecord.filename (Option.some.inj hsame)
    obtain ⟨word, rest, heq⟩ := List.exists_cons_of_ne_nil (hwords font hfont)
    refine ⟨word, rest, heq, ?_⟩
    rw [hbase, ListedFont.word, heq, List.headD_cons]
  · intro h
    have hwords : ∀ font ∈ l.fonts, fields font.path ≠ [] := by
      intro font hfont hblank
      obtain ⟨word, rest, heq, -⟩ := h font hfont
      rw [hblank] at heq
      cases heq
    obtain ⟨fonts, hfonts, hkeys, hrecords⟩ := l.fetchFonts_eq_some order hwords
    have hread : l.IsRead fonts := by
      refine ⟨hkeys, fun font hfont => ?_⟩
      obtain ⟨word, rest, heq, hbase⟩ := h font hfont
      rw [hrecords font hfont, ListedFont.word, heq, List.headD_cons, hbase]
      rfl
    refine ⟨fonts, hfonts, hread, fun font hfont i hi channel s => ?_⟩
    rw [FontMap.get, hread.records font hfont, Option.getD_some] at hi
    obtain ⟨listed, -, rfl⟩ := List.mem_map.1 hi
    exact listed.select_record channel font.id s

/-- A font whose name has a blank in it. -/
def blankFont : Listing where
  header := "ID  Name"
  fonts := [⟨"1", "/sf/My Font.sf2", [], by decide +kernel, by decide, by decide⟩]
  header_line := by decide
  nodup := by decide

/-- The name that is read ends in front of the blank. -/
theorem blankFont_cut :
    (fetchFonts .given blankFont.replies).2.map (fun fonts => (fonts.get "1").filename) =
        some "My" ∧
      base "/sf/My Font.sf2" = "My Font.sf2" := by
  decide +kernel

end Soundcan.Ui
