import Timetabling.Instance.Records

/-! What can be wrong with the records of an instance. `Records.defects` lists every defective
    occurrence once, in the order grid, courses, rooms, curricula, unavailabilities, room
    constraints; records are sound when the list is empty. -/

namespace Timetabling

/-- A defect, by its cause. -/
inductive Defect where
  | emptyGrid (days periods : Nat)
  | repeatedCourse (id : String)
  | repeatedRoom (id : String)
  | repeatedCurriculum (id : String)
  | unknownMember (curriculum course : String)
  | unavailabilityOfUnknownCourse (course : String)
  | unavailabilityOffGrid (course : String) (day period : Nat)
  | constraintOfUnknownCourse (course : String)
  | constraintOnUnknownRoom (course room : String)
  deriving DecidableEq, Repr

/-- The kinds that defects fall into. -/
inductive DefectKind where
  | duplicateId
  | unknownCourse
  | unknownRoom
  | slotOutOfRange
  | emptyGrid
  deriving DecidableEq, Repr

namespace Defect

/-- The kind of the defect. -/
def kind : Defect → DefectKind
  | emptyGrid .. => .emptyGrid
  | repeatedCourse .. | repeatedRoom .. | repeatedCurriculum .. => .duplicateId
  | unknownMember .. | unavailabilityOfUnknownCourse .. | constraintOfUnknownCourse .. =>
    .unknownCourse
  | unavailabilityOffGrid .. => .slotOutOfRange
  | constraintOnUnknownRoom .. => .unknownRoom

/-- What is told about the defect. -/
def message : Defect → String
  | emptyGrid days periods => s!"Grid of {days} days x {periods} periods has no slots"
  | repeatedCourse id => s!"Duplicate course ID: {id}"
  | repeatedRoom id => s!"Duplicate room ID: {id}"
  | repeatedCurriculum id => s!"Duplicate curriculum ID: {id}"
  | unknownMember curriculum course =>
    s!"Curriculum '{curriculum}' references unknown course '{course}'"
  | unavailabilityOfUnknownCourse course =>
    s!"Unavailability references unknown course '{course}'"
  | unavailabilityOffGrid course day period =>
    s!"Unavailability of '{course}' at day {day} period {period} is off the grid"
  | constraintOfUnknownCourse course => s!"Room constraint references unknown course '{course}'"
  | constraintOnUnknownRoom course room =>
    s!"Room constraint of '{course}' references unknown room '{room}'"

/-- One line that tells all defects. -/
def summary (ds : List Defect) : String :=
  let count := ds.length
  let told := String.intercalate "; " (ds.map message)
  s!"invalid specification ({count} problems): {told}"

end Defect

namespace Records

/-- The entries of a list that occurred in it before, with multiplicity; those in `seen` count as
    having occurred. -/
def repeats (seen : List String) : List String → List String
  | [] => []
  | id :: ids => if id ∈ seen then id :: repeats seen ids else repeats (id :: seen) ids

/-- A grid has to have a slot. -/
def gridDefects (r : Records) : List Defect :=
  if r.days = 0 ∨ r.periods = 0 then [.emptyGrid r.days r.periods] else []

/-- The members of a curriculum that no course declares. -/
def memberDefects (r : Records) (q : CurriculumRecord) : List Defect :=
  (q.members.filter fun c => !r.hasCourse c).map (.unknownMember q.id)

/-- The defects of the curricula, record by record: first a repeated identifier, then the unknown
    members. The identifiers in `seen` have occurred before. -/
def curriculumDefects (r : Records) (seen : List String) : List CurriculumRecord → List Defect
  | [] => []
  | q :: qs =>
    (if q.id ∈ seen then [.repeatedCurriculum q.id] else []) ++ r.memberDefects q ++
      r.curriculumDefects (q.id :: seen) qs

/-- An unavailability has to name a course and a slot of the grid. -/
def unavailabilityDefects (r : Records) (u : Unavailability) : List Defect :=
  (if r.hasCourse u.course then [] else [.unavailabilityOfUnknownCourse u.course]) ++
    (if u.day < r.days ∧ u.period < r.periods then []
      else [.unavailabilityOffGrid u.course u.day u.period])

/-- A room constraint has to name a course and a room. -/
def constraintDefects (r : Records) (k : RoomConstraint) : List Defect :=
  (if r.hasCourse k.course then [] else [.constraintOfUnknownCourse k.course]) ++
    (if r.hasRoom k.room then [] else [.constraintOnUnknownRoom k.course k.room])

/-- Every defect of the records. -/
def defects (r : Records) : List Defect :=
  r.gridDefects ++
    (repeats [] (r.courses.map Course.id)).map .repeatedCourse ++
    (repeats [] (r.rooms.map Room.id)).map .repeatedRoom ++
    r.curriculumDefects [] r.curricula ++
    r.unavailabilities.flatMap r.unavailabilityDefects ++
    r.roomConstraints.flatMap r.constraintDefects

end Records

end Timetabling
