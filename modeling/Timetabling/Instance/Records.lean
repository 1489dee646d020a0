/-! The records of a timetabling instance as they are declared: courses, rooms, curricula, the grid
    of days and periods, and the two kinds of constraint. Records name courses and rooms by their
    identifiers; `Instance` is what they stand for once every name is resolved. -/

namespace Timetabling

/-- A course: who teaches it, how many lectures it wants and over how many days, and for how many
    students. `curricula` and `teacherNumber` are numbered when the records are resolved. -/
structure Course where
  id : String
  teacher : String
  lectures : Nat
  minWorkingDays : Nat
  students : Nat
  doubleLectures : Bool
  curricula : List Nat := []
  teacherNumber : Nat := 0
  deriving DecidableEq, Repr, Inhabited

/-- A room with its seats and the site it is on. -/
structure Room where
  id : String
  capacity : Nat
  site : Nat
  deriving DecidableEq, Repr, Inhabited

/-- The students beyond the capacity of the room; negative when seats stay free. -/
def Room.overflow (r : Room) (students : Nat) : Int := (students : Int) - r.capacity

/-- The least and the greatest number of lectures that a curriculum should have on a day. -/
structure DailyBounds where
  least : Nat
  greatest : Nat
  deriving DecidableEq, Repr

/-- A curriculum by the identifiers of its courses. -/
structure CurriculumRecord where
  id : String
  members : List String
  deriving DecidableEq, Repr

/-- A course that cannot be taught at one day and period. -/
structure Unavailability where
  course : String
  day : Nat
  period : Nat
  deriving DecidableEq, Repr

/-- A room that a course must not use. -/
structure RoomConstraint where
  course : String
  room : String
  deriving DecidableEq, Repr

/-- All records of one instance, each list in the order of declaration. -/
structure Records where
  name : String := ""
  days : Nat
  periods : Nat
  daily : DailyBounds := ⟨0, 0⟩
  courses : List Course := []
  rooms : List Room := []
  curricula : List CurriculumRecord := []
  unavailabilities : List Unavailability := []
  roomConstraints : List RoomConstraint := []
  deriving DecidableEq, Repr

namespace Records

/-- The number of the course with this identifier; the first one counts. -/
def courseNumber? (r : Records) (id : String) : Option Nat :=
  r.courses.findIdx? fun c => c.id = id

/-- The number of the room with this identifier; the first one counts. -/
def roomNumber? (r : Records) (id : String) : Option Nat :=
  r.rooms.findIdx? fun x => x.id = id

/-- Whether some course has this identifier. -/
def hasCourse (r : Records) (id : String) : Bool := r.courses.any fun c => c.id = id

/-- Whether some room has this identifier. -/
def hasRoom (r : Records) (id : String) : Bool := r.rooms.any fun x => x.id = id

theorem courseNumber?_isSome (r : Records) (id : String) :
    (r.courseNumber? id).isSome = r.hasCourse id := by
  simp [courseNumber?, hasCourse, List.findIdx?_isSome]

theorem roomNumber?_isSome (r : Records) (id : String) :
    (r.roomNumber? id).isSome = r.hasRoom id := by
  simp [roomNumber?, hasRoom, List.findIdx?_isSome]

end Records

end Timetabling
