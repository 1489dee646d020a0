import Timetabling.Timetable

/-! Two plain texts of a timetable. The solution text has one line `course room day period` for each
    meeting, course by course. The grid text has a block for each curriculum, periods down and days
    across, with a cell `course/room/teacher` where a course of the curriculum is taught and `-`
    elsewhere. The columns of a block are as wide as its widest cell takes bytes in UTF-8, and cells
    are filled up with blanks to that number of characters. -/

namespace Timetabling

/-- The text filled up with blanks on the right to so many characters. -/
def padRight (width : Nat) (text : String) : String :=
  text ++ String.ofList (List.replicate (width - text.length) ' ')

/-- The lines as one text, each ended by a line feed. -/
def unlines (ls : List String) : String := String.join (ls.map fun l => l ++ "\n")

namespace Timetable

open Instance

variable {I : Instance}

/-! ### The solution text -/

/-- The line of a booking. -/
def solutionLine (b : Booking I) : String :=
  let fields := [(course b.course).id, (room b.room).id, b.day.repr, b.period.repr]
  String.intercalate " " fields

/-- The lines of all bookings, course by course. -/
def solutionLines (t : Timetable I) : List String :=
  (List.finRange I.courses.size).flatMap fun c => (t.bookingsOf c).map solutionLine

/-- The solution text. -/
def solutionText (t : Timetable I) : String := unlines t.solutionLines

/-! ### The grid text -/

/-- The text of a booking in a cell. -/
def cellOf (b : Booking I) : String :=
  String.intercalate "/" [(course b.course).id, (room b.room).id, (course b.course).teacher]

/-- The cell of a curriculum at a day and a period. -/
def cell (t : Timetable I) (q day period : Nat) : String :=
  match (t.bookingsOfCurriculum q).find? fun b => b.day = day && b.period = period with
  | some b => cellOf b
  | none => "-"

/-- The cells of a curriculum in one period, day by day. -/
def row (t : Timetable I) (q period : Nat) : List String :=
  (List.range I.days).map fun day => t.cell q day period

/-- The names of the days. -/
def dayNames (I : Instance) : List String := (List.range I.days).map fun day => "Day " ++ day.repr

/-- The width of the columns of a curriculum. -/
def columnWidth (t : Timetable I) (q : Nat) : Nat :=
  ((dayNames I ++ (List.range I.periods).flatMap (t.row q)).map String.utf8ByteSize).foldl max 1

/-- A line of the grid: what it is called, then its cells. -/
def gridLine (width : Nat) (name : String) (texts : List String) : String :=
  padRight 4 name ++ String.join (texts.map fun text => " | " ++ padRight width text)

/-- The block of a curriculum: its identifier, the names of the days, the periods, an empty line. -/
def block (t : Timetable I) (id : String) (q : Nat) : List String :=
  let width := t.columnWidth q
  [id, gridLine width "" (dayNames I)] ++
    (List.range I.periods).map (fun p => gridLine width ("P" ++ p.repr) (t.row q p)) ++ [""]

/-- The blocks of all curricula. -/
def gridLines (t : Timetable I) : List String :=
  I.curricula.toList.zipIdx.flatMap fun q => t.block q.1.id q.2

/-- The grid text. -/
def gridText (t : Timetable I) : String := unlines t.gridLines

end Timetable

end Timetabling
