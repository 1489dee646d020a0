import Timetabling.Ctt.Body
import Timetabling.Instance.Resolve

/-! The reader of the `.ctt` layout: header, sections, then the records of each section in the order
    courses, rooms, curricula, unavailabilities, room constraints. A course may leave out its flag
    for double lectures and a room its site. A section of room constraints is required only where
    the header declares some. Identifiers that nothing declares are faults of their own line. -/

namespace Timetabling.Ctt

open Text

namespace Record

/-- The error of a fault in this record. -/
def fail {α : Type} (r : Record) (fault : Fault) : Except ReadError α := r.line.fail fault

/-- The value of a field that holds an unsigned number below the limit. -/
def number (r : Record) (limit : Nat) (what : String) (raw : List Char) : Except ReadError Nat :=
  match unsigned? limit raw with
  | some n => .ok n
  | none => r.fail (.notANumber what (String.ofList raw))

/-- A course from its five leading fields; the flag for double lectures has been read. -/
def courseWith (r : Record) (double : Bool) (id teacher lectures days students : List Char) :
    Except ReadError Course := do
  let lectures ← r.number UInt64.size "lectures" lectures
  let days ← r.number UInt64.size "minimum working days" days
  let students ← r.number UInt32.size "students" students
  return {
    id := String.ofList id
    teacher := String.ofList teacher
    lectures := lectures
    minWorkingDays := days
    students := students
    doubleLectures := double }

/-- The course that the record gives; the flag for double lectures is read before the numbers. -/
def course (r : Record) : Except ReadError Course :=
  match r.fields with
  | [id, teacher, lectures, days, students] => r.courseWith false id teacher lectures days students
  | [id, teacher, lectures, days, students, double] => do
    let double ← r.number UInt8.size "double lectures flag" double
    r.courseWith (double ≠ 0) id teacher lectures days students
  | fields => r.fail (.fieldCount .courses [5, 6] fields.length)

/-- The room that the record gives; the site is read before the capacity. -/
def room (r : Record) : Except ReadError Room :=
  match r.fields with
  | [id, capacity] => do return ⟨String.ofList id, ← r.number UInt32.size "capacity" capacity, 0⟩
  | [id, capacity, site] => do
    let site ← r.number UInt32.size "site" site
    return ⟨String.ofList id, ← r.number UInt32.size "capacity" capacity, site⟩
  | fields => r.fail (.fieldCount .rooms [2, 3] fields.length)

/-- The identifier, if some course has it. -/
def knownCourse (r : Record) (courses : List Course) (id : List Char) : Except ReadError String :=
  if courses.any fun c => c.id = String.ofList id then .ok (String.ofList id)
  else r.fail (.unknownCourse (String.ofList id))

/-- The identifier, if some room has it. -/
def knownRoom (r : Record) (rooms : List Room) (id : List Char) : Except ReadError String :=
  if rooms.any fun x => x.id = String.ofList id then .ok (String.ofList id)
  else r.fail (.unknownRoom (String.ofList id))

/-- The curriculum that the record gives: an identifier, a count and that many known courses. -/
def curriculum (r : Record) (courses : List Course) : Except ReadError CurriculumRecord :=
  match r.fields with
  | id :: count :: ids => do
    let count ← r.number UInt64.size "member count" count
    if count ≠ ids.length then r.fail (.memberCount count ids.length)
    else return ⟨String.ofList id, ← ids.mapM (r.knownCourse courses)⟩
  | _ => r.fail .noMemberCount

/-- The unavailability that the record gives: a known course, a day and a period. -/
def unavailability (r : Record) (courses : List Course) : Except ReadError Unavailability :=
  match r.fields with
  | [course, day, period] => do
    let course ← r.knownCourse courses course
    let day ← r.number UInt64.size "day" day
    let period ← r.number UInt64.size "period" period
    return ⟨course, day, period⟩
  | fields => r.fail (.fieldCount .unavailabilities [3] fields.length)

/-- The room constraint that the record gives: a known course and a known room. -/
def roomConstraint (r : Record) (courses : List Course) (rooms : List Room) :
    Except ReadError RoomConstraint :=
  match r.fields with
  | [course, room] => do
    let course ← r.knownCourse courses course
    let room ← r.knownRoom rooms room
    return ⟨course, room⟩
  | fields => r.fail (.fieldCount .roomConstraints [2] fields.length)

end Record

/-- The number of days or of periods, which the header has to declare. -/
def Header.grid (declared : Option Nat) (field : GridField) : Except ReadError Nat :=
  match declared with
  | some n => .ok n
  | none => .error (.missingField field)

/-- The records of a text, from its header and its sections. -/
def recordsOf (h : Header) (b : Body) : Except ReadError Records := do
  let days ← Header.grid h.days .days
  let periods ← Header.grid h.periods .periods
  let courses ← (← b.counted .courses true h.courses).mapM Record.course
  let rooms ← (← b.counted .rooms true h.rooms).mapM Record.room
  let curricula ← (← b.counted .curricula true h.curricula).mapM (·.curriculum courses)
  let unavailabilities ←
    (← b.counted .unavailabilities true h.unavailabilities).mapM (·.unavailability courses)
  let roomConstraints ←
    (← b.counted .roomConstraints (h.roomConstraints.any (0 < ·)) h.roomConstraints).mapM
      (·.roomConstraint courses rooms)
  return {
    name := h.name
    days := days
    periods := periods
    daily := h.daily.getD ⟨0, 0⟩
    courses := courses
    rooms := rooms
    curricula := curricula
    unavailabilities := unavailabilities
    roomConstraints := roomConstraints }

/-- The records that a text in the `.ctt` layout lists. -/
def readRecords (text : List Char) : Except ReadError Records := do
  let (header, rest) ← ({} : Header).read (Line.ofText text)
  let body ← Body.read none rest
  recordsOf header body

/-- The instance that a text in the `.ctt` layout describes. -/
def read (text : List Char) : Except ReadError Instance := do
  let records ← readRecords text
  records.resolve.mapError .defective

end Timetabling.Ctt
