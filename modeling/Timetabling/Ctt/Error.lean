import Timetabling.Instance.Defect

/-! Why a text is no instance in the `.ctt` layout: one line is malformed, a header field or a
    section is missing, a declared count is wrong, or the records have defects. -/

namespace Timetabling.Ctt

/-- The sections that list records. -/
inductive Section where
  | courses
  | rooms
  | curricula
  | unavailabilities
  | roomConstraints
  deriving DecidableEq, Repr

namespace Section

/-- The title of the section, without its colon. -/
def title : Section → String
  | courses => "COURSES"
  | rooms => "ROOMS"
  | curricula => "CURRICULA"
  | unavailabilities => "UNAVAILABILITY_CONSTRAINTS"
  | roomConstraints => "ROOM_CONSTRAINTS"

/-- What the records of the section are called where they are counted. -/
def plural : Section → String
  | courses => "courses"
  | rooms => "rooms"
  | curricula => "curricula"
  | unavailabilities => "unavailability constraints"
  | roomConstraints => "room constraints"

/-- What one record of the section is called. -/
def singular : Section → String
  | courses => "course"
  | rooms => "room"
  | curricula => "curriculum"
  | unavailabilities => "unavailability"
  | roomConstraints => "room constraint"

/-- The sections in the order in which their records are read. -/
def all : List Section := [courses, rooms, curricula, unavailabilities, roomConstraints]

/-- The section with this title. -/
def ofTitle? (text : List Char) : Option Section := all.find? fun s => s.title.toList = text

end Section

/-- What is wrong with one line. -/
inductive Fault where
  | noKey (text : String)
  | unknownKey (key : String)
  | notACount (key value : String)
  | notTwoCounts (key value : String)
  | outsideSections (text : String)
  | fieldCount (part : Section) (allowed : List Nat) (found : Nat)
  | notANumber (what raw : String)
  | noMemberCount
  | memberCount (declared listed : Nat)
  | unknownCourse (id : String)
  | unknownRoom (id : String)
  deriving DecidableEq, Repr

/-- What is told about a fault. -/
def Fault.message : Fault → String
  | noKey text => s!"expected 'Key: value', found '{text}'"
  | unknownKey key => s!"unknown header field '{key}'"
  | notACount key value => s!"'{key}' must be a non-negative integer, found '{value}'"
  | notTwoCounts key value => s!"'{key}' must be two integers, found '{value}'"
  | outsideSections text => s!"record outside any section: '{text}'"
  | fieldCount part allowed found =>
    let what := part.singular
    let counts := String.intercalate ", " (allowed.map Nat.repr)
    s!"{what} record needs [{counts}] fields, found {found}"
  | notANumber what raw => s!"{what} must be a non-negative integer, found '{raw}'"
  | noMemberCount => "curriculum record needs an ID and a member count"
  | memberCount declared listed =>
    s!"curriculum declares {declared} members but lists {listed}"
  | unknownCourse id => s!"unknown course '{id}'"
  | unknownRoom id => s!"unknown room '{id}'"

/-- The header fields without which there is no grid. -/
inductive GridField where
  | days
  | periods
  deriving DecidableEq, Repr

/-- The word that the field goes by. -/
def GridField.key : GridField → String
  | days => "Days"
  | periods => "Periods_per_day"

/-- Why a text cannot be read. Lines are counted from one. -/
inductive ReadError where
  | malformed (line : Nat) (fault : Fault)
  | missingField (field : GridField)
  | missingSection (part : Section)
  | wrongCount (part : Section) (declared found : Nat)
  | defective (defects : List Defect)
  deriving DecidableEq, Repr

/-- What is told about an error. -/
def ReadError.message : ReadError → String
  | malformed line fault =>
    let told := fault.message
    s!"line {line}: {told}"
  | missingField field =>
    let key := field.key
    s!"missing header field '{key}'"
  | missingSection part =>
    let title := part.title
    s!"missing section '{title}'"
  | wrongCount part declared found =>
    let counted := part.plural
    s!"header declares {declared} {counted} but {found} were listed"
  | defective defects => Defect.summary defects

end Timetabling.Ctt
