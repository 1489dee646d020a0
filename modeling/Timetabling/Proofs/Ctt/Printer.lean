import Timetabling.Proofs.Ctt.Outline
import Timetabling.Proofs.Text.Numeral

/-! Records written in the `.ctt` layout, in either of its dialects: a header with the true numbers,
    then the sections with one record on a line, then `END.`. The classic dialect has neither daily
    bounds nor room constraints, and its courses and rooms leave out what may be left out. A line that
    is written is found again as the field, the title or the record that it stands for. -/

namespace Timetabling.Ctt

open Text

/-! ### Writing -/

/-- The dialects of the layout. -/
inductive Dialect where
  | classic
  | extended
  deriving DecidableEq, Repr

/-- A line of the header. -/
def fieldLine (f : String × List Char) : List Char := f.1.toList ++ ':' :: ' ' :: f.2

/-- A title and the lines of the records below it. -/
def sectionLines (s : Section) (records : List (List (List Char))) : List (List Char) :=
  s.heading :: records.map unwords

/-- The words of a curriculum. -/
def curriculumWords (q : CurriculumRecord) : List (List Char) :=
  q.id.toList :: numeral q.members.length :: q.members.map String.toList

/-- The words of an unavailability. -/
def unavailabilityWords (u : Unavailability) : List (List Char) :=
  [u.course.toList, numeral u.day, numeral u.period]

/-- The words of a room constraint. -/
def roomConstraintWords (k : RoomConstraint) : List (List Char) := [k.course.toList, k.room.toList]

namespace Dialect

/-- The words of a course; only the extended dialect tells whether lectures are double. -/
def courseWords (d : Dialect) (c : Course) : List (List Char) :=
  [c.id.toList, c.teacher.toList, numeral c.lectures, numeral c.minWorkingDays,
    numeral c.students] ++
    match d with
    | classic => []
    | extended => [numeral c.doubleLectures.toNat]

/-- The words of a room; only the extended dialect tells the site. -/
def roomWords (d : Dialect) (x : Room) : List (List Char) :=
  [x.id.toList, numeral x.capacity] ++
    match d with
    | classic => []
    | extended => [numeral x.site]

/-- The fields of the header and their values. -/
def fields (d : Dialect) (r : Records) : List (String × List Char) :=
  [("Name", r.name.toList), ("Courses", numeral r.courses.length),
    ("Rooms", numeral r.rooms.length), ("Days", numeral r.days),
    ("Periods_per_day", numeral r.periods), ("Curricula", numeral r.curricula.length)] ++
    match d with
    | classic => [("Constraints", numeral r.unavailabilities.length)]
    | extended =>
      [("Min_Max_Daily_Lectures", unwords [numeral r.daily.least, numeral r.daily.greatest]),
        ("UnavailabilityConstraints", numeral r.unavailabilities.length),
        ("RoomConstraints", numeral r.roomConstraints.length)]

/-- The sections that are written. -/
def parts : Dialect → List Section
  | classic => [.courses, .rooms, .curricula, .unavailabilities]
  | extended => Section.all

/-- The words of the records of a section. -/
def wordsOf (d : Dialect) (r : Records) : Section → List (List (List Char))
  | .courses => r.courses.map d.courseWords
  | .rooms => r.rooms.map d.roomWords
  | .curricula => r.curricula.map curriculumWords
  | .unavailabilities => r.unavailabilities.map unavailabilityWords
  | .roomConstraints => r.roomConstraints.map roomConstraintWords

/-- The text of records. -/
def print (d : Dialect) (r : Records) : List Char :=
  ['\n'].intercalate <|
    (d.fields r).map fieldLine ++
      [] :: (d.parts.flatMap (fun s => sectionLines s (d.wordsOf r s)) ++ [[], Body.endMark])

end Dialect

/-! ### The header -/

/-- The word of a field is a word without a colon. -/
theorem word_of_ofWord? {word : String} {k : Key} (h : Key.ofWord? word = some k) :
    Word word.toList ∧ ':' ∉ word.toList := by
  have hall : ∀ w ∈ Key.words, Word w.1.toList ∧ ':' ∉ w.1.toList := by decide
  obtain ⟨w, hw, -⟩ := Option.map_eq_some_iff.1 h
  obtain rfl : w.1 = word := by simpa using List.find?_some hw
  exact hall w (List.mem_of_find?_eq_some hw)

/-- A line of the header gives the value to the field. -/
theorem field?_trim_fieldLine {f : String × List Char} {k : Key} (h : Key.ofWord? f.1 = some k) :
    field? (trim (fieldLine f)) = some (k, trim f.2) := by
  obtain ⟨hword, hcolon⟩ := word_of_ofWord? h
  have hblank : Blank [' '] := by decide
  have htrim : trim (fieldLine f) = f.1.toList ++ ':' :: (' ' :: f.2).rdropWhile isBlank := by
    obtain ⟨a, cs, hcs⟩ := List.exists_cons_of_ne_nil hword.ne_nil
    rw [fieldLine, hcs]
    exact trim_append_cons (hword.not_blank a (by simp [hcs])) (by decide) cs _
  have hvalue : trim ((' ' :: f.2).rdropWhile isBlank) = trim f.2 := by
    rw [trim_rdropWhile]
    exact hblank.trim_append f.2
  rw [field?, htrim, cutAt?_append_cons hcolon, Option.bind_some]
  simp only [hword.trim_eq, String.ofList_toList, h, Option.map_some, hvalue]

/-! ### The blocks -/

/-- The words of a record: at least two. -/
structure IsRecord (ws : List (List Char)) : Prop where
  word : ∀ w ∈ ws, Word w
  two : 2 ≤ ws.length

/-- The line of a record neither titles a section nor closes the text. -/
theorem IsRecord.isInner {ws : List (List Char)} (h : IsRecord ws) : IsInner (trim (unwords ws)) := by
  have hne : ∀ w, words (unwords ws) ≠ [w] := by
    intro w hw
    rw [words_unwords h.word] at hw
    simpa [hw] using h.two
  refine ⟨?_, fun hend => hne _ (trim_eq_endMark_iff.1 hend)⟩
  rw [Option.eq_none_iff_forall_ne_some]
  exact fun s hs => hne _ (title?_trim_eq_some_iff.1 hs)

theorem IsRecord.not_blank {ws : List (List Char)} (h : IsRecord ws) : ¬Blank (unwords ws) := by
  rw [← words_eq_nil_iff, words_unwords h.word]
  rintro rfl
  simpa using h.two

/-- The lines of a section make a block with its records. -/
theorem exists_block (s : Section) {records : List (List (List Char))}
    (h : ∀ ws ∈ records, IsRecord ws) : ∃ b : Block, content (sectionLines s records) = b.lines ∧
      b.part = s ∧ b.body.map words = records := by
  refine ⟨⟨s, (records.map unwords).map trim, ?_⟩, ?_, rfl, ?_⟩
  · simpa using fun ws hws => (h ws hws).isInner
  · have hheading : ¬Blank s.heading := by
      rw [← trim_eq_nil_iff, (word_heading s).trim_eq]
      exact (word_heading s).ne_nil
    rw [sectionLines, content_cons hheading, (word_heading s).trim_eq, content_eq_map]
    · rfl
    · simpa using fun ws hws => (h ws hws).not_blank
  · have hwords : ∀ ws ∈ records, words (trim (unwords ws)) = ws := by
      intro ws hws
      rw [words_trim, words_unwords (h ws hws).word]
    rw [List.map_map, List.map_map]
    exact (List.map_congr_left hwords).trans (List.map_id' records)

theorem exists_blocks_of_sections (parts : List Section)
    {records : Section → List (List (List Char))} (h : ∀ s, ∀ ws ∈ records s, IsRecord ws) :
    ∃ bs : List Block,
      content (parts.flatMap fun s => sectionLines s (records s)) = bs.flatMap Block.lines ∧
        bs.map (fun b => (b.part, b.body.map words)) = parts.map fun s => (s, records s) := by
  induction parts with
  | nil => exact ⟨[], rfl, rfl⟩
  | cons s parts ih =>
    obtain ⟨b, hlines, rfl, hb⟩ := exists_block s (h s)
    obtain ⟨bs, hrest, hbs⟩ := ih
    refine ⟨b :: bs, ?_, by rw [List.map_cons, List.map_cons, hb, hbs]⟩
    rw [List.flatMap_cons, List.flatMap_cons, content_append, hlines, hrest]

end Timetabling.Ctt
