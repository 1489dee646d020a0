import Mathlib.Algebra.BigOperators.Group.List.Lemmas
import Mathlib.Data.Nat.Digits.Defs
import Mathlib.Order.Bounds.Defs
import Timetabling.Proofs.Layout.Solution
import Timetabling.Proofs.Report.Soft

/-! Grid texts that are read line by line and column by column. The columns of a block are as wide as
    its widest text takes bytes, but texts are filled up by characters. No character takes less than a
    byte, so every text fits into its column whatever alphabet it is written in; and where a day has a
    thousand periods at most, the name of a period fits into its four characters. So all lines of a
    block are equally long, and what a column of them shows is known from the place it stands at. -/

namespace Timetabling

open Instance Text

variable {I : Instance}

/-! ### Reading -/

/-- No identifier and no name of a teacher breaks a line. -/
structure Unbroken (I : Instance) : Prop where
  course : ∀ c : CourseIx I, '\n' ∉ (Instance.course c).id.toList
  teacher : ∀ c : CourseIx I, '\n' ∉ (Instance.course c).teacher.toList
  room : ∀ r : RoomIx I, '\n' ∉ (Instance.room r).id.toList
  curriculum : ∀ q : CurriculumIx I, '\n' ∉ (Instance.curriculum q).id.toList

/-- The characters are as many as the width, first those of the text and then blanks. -/
structure Filled (width : Nat) (text : String) (cs : List Char) : Prop where
  length_eq : cs.length = width
  exists_blanks : ∃ n, cs = text.toList ++ List.replicate n ' '

/-- The characters that a line has for a day. Four for the name of the line come first, and each day
    has as many as the width and three before them. -/
def columnAt (width day : Nat) (line : List Char) : List Char :=
  (line.drop (4 + day * (3 + width))).take (3 + width)

/-- For the day the line has a separator and then the text, filled up with blanks. -/
def Shows (width day : Nat) (line : List Char) (text : String) : Prop :=
  ∃ cell, Filled width text cell ∧ columnAt width day line = [' ', '|', ' '] ++ cell

/-- The course, the room and the teacher of a booking, with slashes between them. -/
def Booking.label (b : Booking I) : String :=
  (Instance.course b.course).id ++ "/" ++ (Instance.room b.room).id ++ "/" ++
    (Instance.course b.course).teacher

/-- Each curriculum has a block of lines in the grid text: its identifier, a heading, a line for each
    period and an empty line. The block has columns of one width, the heading has the days in them,
    and the lines of the periods have the bookings of the curriculum at their days and periods, with
    dashes where there are none. -/
structure Timetable.Tabulates (t : Timetable I) (M : Finset (Booking I))
    (width : CurriculumIx I → Nat) (heading : CurriculumIx I → List Char)
    (line : CurriculumIx I → Nat → List Char) : Prop where
  lines_eq : lines t.gridText.toList = (List.finRange I.curricula.size).flatMap (fun q =>
    (curriculum q).id.toList :: heading q :: ((List.range I.periods).map (line q) ++ [[]])) ++ [[]]
  width_isGreatest : ∀ q, IsGreatest ({n | ∃ day < I.days, ("Day " ++ day.repr).utf8ByteSize = n} ∪
    {n | ∃ b ∈ M, b.In q ∧ b.label.utf8ByteSize = n}) (width q)
  length_heading : ∀ q, (heading q).length = 4 + I.days * (3 + width q)
  length_line : ∀ q, ∀ period < I.periods, (line q period).length = (heading q).length
  name_heading : ∀ q, Filled 4 "" ((heading q).take 4)
  name_line : ∀ q, ∀ period < I.periods, Filled 4 ("P" ++ period.repr) ((line q period).take 4)
  heading_shows : ∀ q, ∀ day < I.days, Shows (width q) day (heading q) ("Day " ++ day.repr)
  line_shows_label : ∀ q, ∀ b ∈ M, b.In q → Shows (width q) b.day (line q b.period) b.label
  line_shows_dash_iff : ∀ q, ∀ day < I.days, ∀ period < I.periods,
    Shows (width q) day (line q period) "-" ↔ ¬∃ b ∈ M, b.In q ∧ b.day = day ∧ b.period = period

/-! ### Filling up -/

/-- A text has no more characters than bytes. -/
theorem length_le_utf8ByteSize (text : String) : text.length ≤ text.utf8ByteSize := by
  induction text using String.push_induction with
  | empty => exact Nat.zero_le _
  | push text c ih =>
    have hc := c.utf8Size_pos
    rw [String.length_push, String.utf8ByteSize_push]
    omega

theorem toList_padRight (width : Nat) (text : String) :
    (padRight width text).toList = text.toList ++ List.replicate (width - text.length) ' ' := by
  simp [padRight]

theorem filled_padRight {width : Nat} {text : String} (h : text.length ≤ width) :
    Filled width text (padRight width text).toList where
  length_eq := by
    rw [toList_padRight, List.length_append, List.length_replicate, String.length_toList]
    omega
  exists_blanks := ⟨_, toList_padRight width text⟩

/-- Pieces of one length, put together, are found again by their places. -/
theorem take_drop_flatten {α : Type} {k i : Nat} {pieces : List (List α)}
    (h : ∀ piece ∈ pieces, piece.length = k) (hi : i < pieces.length) :
    (pieces.flatten.drop (i * k)).take k = pieces[i] := by
  have hget := List.drop_take_succ_flatten_eq_getElem pieces i hi
  rw [List.map_eq_replicate_iff.2 h, List.take_replicate, List.take_replicate, List.sum_replicate,
    List.sum_replicate, Nat.min_eq_left hi.le, Nat.min_eq_left hi, List.drop_take] at hget
  simpa [Nat.succ_mul] using hget

namespace Timetable

/-! ### One line -/

section

variable {width : Nat} {name : String} {texts : List String}

/-- The characters of a line that a text takes, with the separator before it. -/
def piece (width : Nat) (text : String) : List Char := [' ', '|', ' '] ++ (padRight width text).toList

theorem toList_gridLine (width : Nat) (name : String) (texts : List String) :
    (gridLine width name texts).toList =
      (padRight 4 name).toList ++ (texts.map (piece width)).flatten := by
  rw [gridLine, String.toList_append, String.toList_join, List.flatMap_map, ← List.flatMap_def]
  refine congrArg _ (List.flatMap_congr fun text _ => ?_)
  rw [String.toList_append]
  rfl

theorem length_of_mem_pieces (hfit : ∀ text ∈ texts, text.length ≤ width) :
    ∀ p ∈ texts.map (piece width), p.length = 3 + width := by
  intro p hp
  obtain ⟨text, htext, rfl⟩ := List.mem_map.1 hp
  rw [piece, List.length_append, (filled_padRight (hfit text htext)).length_eq]
  rfl

theorem length_gridLine (hname : name.length ≤ 4) (hfit : ∀ text ∈ texts, text.length ≤ width) :
    (gridLine width name texts).toList.length = 4 + texts.length * (3 + width) := by
  rw [toList_gridLine, List.length_append, (filled_padRight hname).length_eq, List.length_flatten,
    List.map_eq_replicate_iff.2 (length_of_mem_pieces hfit), List.sum_replicate, List.length_map]
  rfl

theorem filled_take_gridLine (hname : name.length ≤ 4) :
    Filled 4 name ((gridLine width name texts).toList.take 4) := by
  have hfilled := filled_padRight hname
  rwa [toList_gridLine, List.take_left' hfilled.length_eq]

theorem shows_gridLine (hname : name.length ≤ 4) (hfit : ∀ text ∈ texts, text.length ≤ width)
    {day : Nat} (hday : day < texts.length) :
    Shows width day (gridLine width name texts).toList texts[day] := by
  refine ⟨_, filled_padRight (hfit _ (List.getElem_mem hday)), ?_⟩
  rw [columnAt, toList_gridLine, ← List.drop_drop, List.drop_left' (filled_padRight hname).length_eq,
    take_drop_flatten (length_of_mem_pieces hfit) (by simpa using hday), List.getElem_map]
  rfl

end

/-! ### Cells -/

variable {t : Timetable I} {M : Finset (Booking I)} {q : CurriculumIx I}

theorem cellOf_eq_label (b : Booking I) : cellOf b = b.label := by
  simp [cellOf, Booking.label, String.append_assoc]

theorem Represents.cell_eq_label (h : t.Represents M) (hI : I.Coherent) {b : Booking I} (hb : b ∈ M)
    (hq : b.In q) : t.cell q b.day b.period = b.label := by
  have hmem : ∀ {x}, x ∈ t.bookingsOfCurriculum q ↔ x ∈ M ∧ x.In q :=
    h.mem_bookingsOfCurriculum_iff_in hI
  rw [cell, ← cellOf_eq_label]
  split
  · rename_i x hfind
    -- the curriculum is not booked twice at the day and period
    obtain ⟨hx, hqx⟩ := hmem.1 (List.mem_of_find?_eq_some hfind)
    have hat := List.find?_some hfind
    simp only [Bool.and_eq_true, decide_eq_true_eq] at hat
    rw [h.exclusive.eq_of_membership hx hb (eq_of_dayOf_periodOf hat.1 hat.2)
      (hI.mem_courses_iff.1 hqx) (hI.mem_courses_iff.1 hq)]
  · rename_i hfind
    have hnone := List.find?_eq_none.1 hfind b (hmem.2 ⟨hb, hq⟩)
    simp at hnone

theorem Keeps.cell_eq_dash (h : t.Keeps M) (hI : I.Coherent) {day period : Nat}
    (hnone : ¬∃ b ∈ M, b.In q ∧ b.day = day ∧ b.period = period) : t.cell q day period = "-" := by
  have hfind : (t.bookingsOfCurriculum q).find? (fun b => b.day = day && b.period = period) = none := by
    refine List.find?_eq_none.2 fun b hb hat => hnone ?_
    obtain ⟨hb, hq⟩ := (h.mem_bookingsOfCurriculum_iff_in hI).1 hb
    simp only [Bool.and_eq_true, decide_eq_true_eq] at hat
    exact ⟨b, hb, hq, hat⟩
  rw [cell, hfind]

/-- A label is told from a dash by its slashes, also when both are filled up with blanks. -/
theorem not_shows_dash {width day : Nat} {line : List Char} {b : Booking I}
    (h : Shows width day line b.label) : ¬Shows width day line "-" := by
  rintro ⟨dash, ⟨-, n, rfl⟩, hdash⟩
  obtain ⟨cell, ⟨-, k, rfl⟩, hcell⟩ := h
  have hslash : '/' ∈ b.label.toList ++ List.replicate k ' ' := by simp [Booking.label]
  rw [List.append_cancel_left (hcell.symm.trans hdash)] at hslash
  simp at hslash

/-! ### Widths -/

/-- The texts in the columns of the curriculum with this number: the names of the days, then the cells. -/
def columnTexts (t : Timetable I) (n : Nat) : List String :=
  dayNames I ++ (List.range I.periods).flatMap (t.row n)

/-- The columns are as wide as the widest of their texts, and one character at least. -/
theorem max?_columnTexts (t : Timetable I) (n : Nat) :
    (1 :: (t.columnTexts n).map String.utf8ByteSize).max? = some (t.columnWidth n) := List.max?_cons'

theorem utf8ByteSize_le_columnWidth {n : Nat} {text : String} (h : text ∈ t.columnTexts n) :
    text.utf8ByteSize ≤ t.columnWidth n :=
  (List.max?_eq_some_iff.1 (t.max?_columnTexts n)).2 _
    (List.mem_cons_of_mem _ (List.mem_map_of_mem h))

theorem mem_dayNames {text : String} : text ∈ dayNames I ↔ ∃ day < I.days, "Day " ++ day.repr = text := by
  simp [dayNames]

theorem mem_row {n period : Nat} {text : String} :
    text ∈ t.row n period ↔ ∃ day < I.days, t.cell n day period = text := by
  simp [row]

theorem mem_columnTexts {n : Nat} {text : String} : text ∈ t.columnTexts n ↔
    (∃ day < I.days, "Day " ++ day.repr = text) ∨
      ∃ period < I.periods, ∃ day < I.days, t.cell n day period = text := by
  simp [columnTexts, mem_dayNames, mem_row]

theorem Represents.columnWidth_isGreatest (h : t.Represents M) (hI : I.Coherent) (q : CurriculumIx I) :
    IsGreatest ({n | ∃ day < I.days, ("Day " ++ day.repr).utf8ByteSize = n} ∪
      {n | ∃ b ∈ M, b.In q ∧ b.label.utf8ByteSize = n}) (t.columnWidth q) := by
  have hday : ∀ day < I.days, ("Day " ++ day.repr).utf8ByteSize ≤ t.columnWidth q := fun day hd =>
    utf8ByteSize_le_columnWidth (mem_columnTexts.2 (.inl ⟨day, hd, rfl⟩))
  have hlabel : ∀ b ∈ M, b.In q → b.label.utf8ByteSize ≤ t.columnWidth q := fun b hb hq =>
    utf8ByteSize_le_columnWidth (mem_columnTexts.2 (.inr ⟨b.period, periodOf_lt b.slot, b.day,
      dayOf_lt b.slot, h.cell_eq_label hI hb hq⟩))
  -- neither a dash nor the least width is as wide as the name of a day
  have hwide : 1 < t.columnWidth q := by
    refine Nat.lt_of_lt_of_le ?_ (hday 0 hI.days_pos)
    decide
  constructor
  · rcases List.mem_cons.1 (List.max?_eq_some_iff.1 (t.max?_columnTexts q)).1 with hone | hmem
    · omega
    · obtain ⟨text, htext, hsize⟩ := List.mem_map.1 hmem
      rcases mem_columnTexts.1 htext with ⟨day, hd, rfl⟩ | ⟨period, hp, day, hd, rfl⟩
      · exact .inl ⟨day, hd, hsize⟩
      · by_cases hb : ∃ b ∈ M, b.In q ∧ b.day = day ∧ b.period = period
        · obtain ⟨b, hb, hq, rfl, rfl⟩ := hb
          exact .inr ⟨b, hb, hq, h.cell_eq_label hI hb hq ▸ hsize⟩
        · rw [h.toKeeps.cell_eq_dash hI hb] at hsize
          exact absurd hsize (Nat.ne_of_lt hwide)
  · rintro n (⟨day, hd, rfl⟩ | ⟨b, hb, hq, rfl⟩)
    · exact hday day hd
    · exact hlabel b hb hq

/-! ### Lines of a block -/

theorem length_periodName_le {period : Nat} (h : period < 1000) : ("P" ++ period.repr).length ≤ 4 := by
  have hlen : period.repr.length ≤ 3 := (Nat.length_repr_le_iff (by decide)).2 h
  rw [String.length_append]
  exact Nat.add_le_add_left hlen 1

/-- The line of a period in the block of the curriculum with this number. -/
def periodLine (t : Timetable I) (n period : Nat) : String :=
  gridLine (t.columnWidth n) ("P" ++ period.repr) (t.row n period)

/-- The heading of that block. -/
def headingLine (t : Timetable I) (n : Nat) : String := gridLine (t.columnWidth n) "" (dayNames I)

theorem gridLines_eq (t : Timetable I) : t.gridLines = (List.finRange I.curricula.size).flatMap
    fun q => (curriculum q).id :: t.headingLine q ::
      ((List.range I.periods).map (t.periodLine q) ++ [""]) := by
  have hnumbered : I.curricula.toList.zipIdx =
      (List.finRange I.curricula.size).map fun q => (curriculum q, q.val) :=
    List.ext_getElem (by simp) fun n hn hn' => by simp [curriculum]
  rw [gridLines, hnumbered, List.flatMap_map]
  rfl

/-! ### Line feeds -/

theorem lineFeed_notMem_append_repr {text : String} (h : '\n' ∉ text.toList) (n : Nat) :
    '\n' ∉ (text ++ n.repr).toList := by
  have hnumeral : '\n' ∉ Nat.toDigits 10 n := (word_numeral n).not_mem (by decide)
  simp [h, hnumeral]

theorem lineFeed_notMem_padRight {width : Nat} {text : String} (h : '\n' ∉ text.toList) :
    '\n' ∉ (padRight width text).toList := by
  rw [toList_padRight]
  simp [h]

theorem lineFeed_notMem_gridLine {width : Nat} {name : String} {texts : List String}
    (hname : '\n' ∉ name.toList) (htexts : ∀ text ∈ texts, '\n' ∉ text.toList) :
    '\n' ∉ (gridLine width name texts).toList := by
  rw [toList_gridLine, List.mem_append, List.mem_flatten, not_or]
  refine ⟨lineFeed_notMem_padRight hname, ?_⟩
  rintro ⟨p, hp, hfeed⟩
  obtain ⟨text, htext, rfl⟩ := List.mem_map.1 hp
  rcases List.mem_append.1 hfeed with hsep | hpad
  · exact absurd hsep (by decide)
  · exact lineFeed_notMem_padRight (htexts text htext) hpad

theorem lineFeed_notMem_cell (hs : Unbroken I) (n day period : Nat) :
    '\n' ∉ (t.cell n day period).toList := by
  rw [cell]
  split
  · simp [cellOf_eq_label, Booking.label, hs.course, hs.room, hs.teacher]
  · decide

theorem lineFeed_notMem_gridLines (hs : Unbroken I) : ∀ l ∈ t.gridLines, '\n' ∉ l.toList := by
  rw [gridLines_eq]
  intro l hl
  obtain ⟨q, -, hl⟩ := List.mem_flatMap.1 hl
  rcases List.mem_cons.1 hl with rfl | hl
  · exact hs.curriculum q
  rcases List.mem_cons.1 hl with rfl | hl
  · refine lineFeed_notMem_gridLine (by decide) fun text htext => ?_
    obtain ⟨day, -, rfl⟩ := mem_dayNames.1 htext
    exact lineFeed_notMem_append_repr (by decide) day
  rcases List.mem_append.1 hl with hl | hl
  · obtain ⟨period, -, rfl⟩ := List.mem_map.1 hl
    refine lineFeed_notMem_gridLine (lineFeed_notMem_append_repr (by decide) period) ?_
    intro text htext
    obtain ⟨day, -, rfl⟩ := mem_row.1 htext
    exact lineFeed_notMem_cell hs q day period
  · simp [List.mem_singleton.1 hl]

theorem lines_toList_gridText (hs : Unbroken I) (t : Timetable I) :
    lines t.gridText.toList = (List.finRange I.curricula.size).flatMap (fun q =>
      (curriculum q).id.toList :: (t.headingLine q).toList ::
        ((List.range I.periods).map (fun period => (t.periodLine q period).toList) ++ [[]])) ++ [[]] := by
  rw [gridText, lines_toList_unlines (lineFeed_notMem_gridLines hs), gridLines_eq, List.map_flatMap]
  simp [Function.comp_def]

/-! ### Blocks -/

theorem length_le_columnWidth {n : Nat} {text : String} (h : text ∈ t.columnTexts n) :
    text.length ≤ t.columnWidth n :=
  (length_le_utf8ByteSize text).trans (utf8ByteSize_le_columnWidth h)

theorem length_le_columnWidth_of_mem_dayNames (t : Timetable I) (n : Nat) :
    ∀ text ∈ dayNames I, text.length ≤ t.columnWidth n := fun _ h =>
  length_le_columnWidth (mem_columnTexts.2 (.inl (mem_dayNames.1 h)))

theorem length_le_columnWidth_of_mem_row (t : Timetable I) (n : Nat) {period : Nat}
    (hp : period < I.periods) : ∀ text ∈ t.row n period, text.length ≤ t.columnWidth n := fun _ h =>
  length_le_columnWidth (mem_columnTexts.2 (.inr ⟨period, hp, mem_row.1 h⟩))

theorem length_headingLine (t : Timetable I) (n : Nat) :
    (t.headingLine n).toList.length = 4 + I.days * (3 + t.columnWidth n) := by
  rw [headingLine, length_gridLine (by decide) (t.length_le_columnWidth_of_mem_dayNames n), dayNames,
    List.length_map, List.length_range]

theorem shows_headingLine (t : Timetable I) (n : Nat) {day : Nat} (hd : day < I.days) :
    Shows (t.columnWidth n) day (t.headingLine n).toList ("Day " ++ day.repr) := by
  have hname : "".length ≤ 4 := by decide
  have hday : day < (dayNames I).length := by simpa [dayNames] using hd
  have h := shows_gridLine hname (t.length_le_columnWidth_of_mem_dayNames n) hday
  simpa [headingLine, dayNames] using h

section

variable {n period : Nat} (hle : I.periods ≤ 1000) (hp : period < I.periods)

include hle hp

theorem length_periodLine :
    (t.periodLine n period).toList.length = 4 + I.days * (3 + t.columnWidth n) := by
  rw [periodLine, length_gridLine (length_periodName_le (hp.trans_le hle))
    (t.length_le_columnWidth_of_mem_row n hp), row, List.length_map, List.length_range]

theorem shows_periodLine {day : Nat} (hd : day < I.days) :
    Shows (t.columnWidth n) day (t.periodLine n period).toList (t.cell n day period) := by
  have hday : day < (t.row n period).length := by simpa [row] using hd
  have h := shows_gridLine (length_periodName_le (hp.trans_le hle))
    (t.length_le_columnWidth_of_mem_row n hp) hday
  simpa [periodLine, row] using h

end

theorem Represents.tabulates (h : t.Represents M) (hI : I.Coherent) (hs : Unbroken I)
    (hle : I.periods ≤ 1000) : t.Tabulates M (fun q => t.columnWidth q)
      (fun q => (t.headingLine q).toList) fun q period => (t.periodLine q period).toList where
  lines_eq := lines_toList_gridText hs t
  width_isGreatest := h.columnWidth_isGreatest hI
  length_heading q := t.length_headingLine q
  length_line q period hperiod := by rw [length_periodLine hle hperiod, length_headingLine]
  name_heading q := filled_take_gridLine (by decide)
  name_line q period hperiod := filled_take_gridLine (length_periodName_le (hperiod.trans_le hle))
  heading_shows q day hday := t.shows_headingLine q hday
  line_shows_label q b hb hq := by
    rw [← h.cell_eq_label hI hb hq]
    exact shows_periodLine hle (periodOf_lt b.slot) (dayOf_lt b.slot)
  line_shows_dash_iff q day hday period hperiod := by
    constructor
    · rintro hdash ⟨b, hb, hq, rfl, rfl⟩
      have hlabel := h.cell_eq_label hI hb hq ▸ shows_periodLine (t := t) (n := q) hle hperiod hday
      exact not_shows_dash hlabel hdash
    · intro hnone
      rw [← h.toKeeps.cell_eq_dash hI hnone]
      exact shows_periodLine hle hperiod hday

/-- Where a day has a thousand periods at most and no name breaks a line, the grid text of a timetable
    that came about by changes is aligned, and tells of all its bookings and no others. -/
theorem exists_tabulates_ofEdits {r : Records} {I : Instance} (h : r.resolve = .ok I)
    (hs : Unbroken I) (hle : I.periods ≤ 1000) (es : List (Edit RoomMeeting)) :
    ∃ M : Finset (Booking I), (ofEdits es).Represents M ∧
      ∃ width heading line, (ofEdits es : Timetable I).Tabulates M width heading line := by
  have hI := Records.coherent_of_resolve h
  obtain ⟨M, hM⟩ := exists_represents hI es
  exact ⟨M, hM, _, _, _, hM.tabulates hI hs hle⟩

end Timetable

/-- Two curricula with a course in common and names beyond ASCII. -/
def Records.accents : Records where
  days := 2
  periods := 2
  courses := [⟨"géo", "Noël", 2, 1, 20, false, [], 0⟩, ⟨"art", "Zoë", 1, 1, 20, false, [], 0⟩]
  rooms := [⟨"Ω", 30, 0⟩]
  curricula := [⟨"été", ["géo"]⟩, ⟨"hiver", ["géo", "art"]⟩]

/-- What these records stand for. -/
def Instance.accents : Instance where
  name := ""
  days := 2
  periods := 2
  daily := ⟨0, 0⟩
  courses := #[⟨"géo", "Noël", 2, 1, 20, false, [0, 1], 0⟩, ⟨"art", "Zoë", 1, 1, 20, false, [1], 1⟩]
  rooms := #[⟨"Ω", 30, 0⟩]
  curricula := #[⟨"été", [0]⟩, ⟨"hiver", [0, 1]⟩]
  teachers := #["Noël", "Zoë"]
  unavailable := ⟨4, #[false, false, false, false, false, false, false, false]⟩
  forbidden := ⟨1, #[false, false]⟩

theorem Records.resolve_accents : Records.accents.resolve = .ok Instance.accents := by decide

namespace Timetable

theorem exists_tabulates_ofEdits_accents : Unbroken Instance.accents ∧ Instance.accents.periods ≤ 1000 ∧
    ∃ M : Finset (Booking Instance.accents),
      (ofEdits [.add ⟨0, 0, 1, 0⟩, .add ⟨1, 1, 0, 0⟩]).Represents M ∧ ∃ width heading line,
        (ofEdits [.add ⟨0, 0, 1, 0⟩, .add ⟨1, 1, 0, 0⟩]).Tabulates M width heading line := by
  have hs : Unbroken Instance.accents := ⟨by decide, by decide, by decide, by decide⟩
  have hle : Instance.accents.periods ≤ 1000 := by decide
  exact ⟨hs, hle, exists_tabulates_ofEdits Records.resolve_accents hs hle _⟩

/-- The widest cell has ten characters and takes thirteen bytes, so three blanks follow it. -/
example : (ofEdits [.add ⟨0, 0, 1, 0⟩, .add ⟨1, 1, 0, 0⟩] : Timetable Instance.accents).gridLines =
    ["été",
      "     | Day 0         | Day 1        ",
      "P0   | -             | -            ",
      "P1   | géo/Ω/Noël    | -            ",
      "",
      "hiver",
      "     | Day 0         | Day 1        ",
      "P0   | -             | art/Ω/Zoë    ",
      "P1   | géo/Ω/Noël    | -            ",
      ""] := rfl

end Timetable

end Timetabling
