import Timetabling.Instance.Records
import Timetabling.MarkTable
import Timetabling.Tally

/-! A timetabling instance: the grid of days and periods, the courses, rooms, curricula and teachers
    by number, and two tables of marks, one for the slots that a course cannot use and one for the
    rooms that it must not use. A slot is the pair of a day and a period, numbered
    `day * periods + period`. Courses, rooms, curricula and slots of an instance `I` are bounded
    numbers (`CourseIx I`, `RoomIx I`, `CurriculumIx I`, `Slot I`); look-ups ending in `?` turn plain
    numbers into them. -/

namespace Timetabling

/-- A curriculum by the numbers of its courses. -/
structure Curriculum where
  id : String
  courses : List Nat
  deriving DecidableEq, Repr, Inhabited

/-- An instance with every name resolved. -/
structure Instance where
  name : String
  days : Nat
  periods : Nat
  daily : DailyBounds
  courses : Array Course
  rooms : Array Room
  curricula : Array Curriculum
  teachers : Array String
  unavailable : MarkTable
  forbidden : MarkTable
  deriving DecidableEq, Repr

namespace Instance

variable (I : Instance)

/-- The number of slots of the grid. -/
def slotCount : Nat := I.days * I.periods

/-- The number of lectures of all courses together. -/
def lectureTotal : Nat := tally Course.lectures I.courses.toList

/-- The same number, added up in 64 bits. -/
def lectureCount : Nat := wrap I.lectureTotal

/-- The slot number of a day and a period, on the grid or not. -/
def slotNumber (day period : Nat) : Nat := day * I.periods + period

/-- The day of a slot number. -/
def dayNumber (slot : Nat) : Nat := slot / I.periods

/-- The period of a slot number. -/
def periodNumber (slot : Nat) : Nat := slot % I.periods

/-- Whether the course may be taught at the slot. -/
def isAvailable (course slot : Nat) : Bool := !I.unavailable.marked course slot

/-- Whether the course may use the room. -/
def isSuitable (course room : Nat) : Bool := !I.forbidden.marked course room

/-- The number of the course with this identifier. -/
def courseNumber? (id : String) : Option Nat := I.courses.findIdx? fun c => c.id = id

/-- The number of the room with this identifier. -/
def roomNumber? (id : String) : Option Nat := I.rooms.findIdx? fun r => r.id = id

end Instance

/-- The courses of an instance, by number. -/
abbrev CourseIx (I : Instance) := Fin I.courses.size

/-- The rooms of an instance, by number. -/
abbrev RoomIx (I : Instance) := Fin I.rooms.size

/-- The curricula of an instance, by number. -/
abbrev CurriculumIx (I : Instance) := Fin I.curricula.size

/-- The slots of an instance, day by day. -/
abbrev Slot (I : Instance) := Fin I.slotCount

namespace Instance

variable (I : Instance)

/-- The course with this number, if there is one. -/
def courseIx? (n : Nat) : Option (CourseIx I) :=
  if h : n < I.courses.size then some ⟨n, h⟩ else none

/-- The room with this number, if there is one. -/
def roomIx? (n : Nat) : Option (RoomIx I) := if h : n < I.rooms.size then some ⟨n, h⟩ else none

/-- The curriculum with this number, if there is one. -/
def curriculumIx? (n : Nat) : Option (CurriculumIx I) :=
  if h : n < I.curricula.size then some ⟨n, h⟩ else none

/-- The slot with this number, if there is one. -/
def slot? (n : Nat) : Option (Slot I) := if h : n < I.slotCount then some ⟨n, h⟩ else none

theorem slotNumber_lt {day period : Nat} (hd : day < I.days) (hp : period < I.periods) :
    I.slotNumber day period < I.slotCount :=
  calc day * I.periods + period < (day + 1) * I.periods := by rw [Nat.succ_mul]; omega
    _ ≤ I.days * I.periods := Nat.mul_le_mul_right _ hd

/-- The slot of a day and a period, if they are on the grid. -/
def slotAt? (day period : Nat) : Option (Slot I) :=
  if h : day < I.days ∧ period < I.periods then some ⟨_, I.slotNumber_lt h.1 h.2⟩ else none

variable {I}

/-- The day of a slot. -/
def dayOf (s : Slot I) : Nat := I.dayNumber s

/-- The period of a slot. -/
def periodOf (s : Slot I) : Nat := I.periodNumber s

/-- The course with this number. -/
def course (c : CourseIx I) : Course := I.courses[c]

/-- The room with this number. -/
def room (r : RoomIx I) : Room := I.rooms[r]

/-- The number of the teacher of a course. -/
def teacherOf (c : CourseIx I) : Nat := (course c).teacherNumber

/-- The curricula of a course, ascending. -/
def curriculaOf (c : CourseIx I) : List Nat := (course c).curricula

/-- The curricula of a course that exist, ascending. -/
def memberships (c : CourseIx I) : List (CurriculumIx I) :=
  (curriculaOf c).filterMap I.curriculumIx?

/-- Whether some curriculum holds both courses. -/
def shareCurriculum (a b : CourseIx I) : Bool := (curriculaOf a).any (curriculaOf b).contains

/-- Whether two courses must not be taught at the same time. -/
def conflict (a b : CourseIx I) : Bool := teacherOf a = teacherOf b || shareCurriculum a b

/-- The slots at which the course cannot be taught, counted. -/
def unavailableCount (c : CourseIx I) : Nat := I.unavailable.rowCount c

/-- The courses of a teacher, ascending. -/
def coursesOfTeacher (I : Instance) (teacher : Nat) : List (CourseIx I) :=
  (List.finRange I.courses.size).filter fun c => teacherOf c = teacher

/-- The rooms that the course may use, ascending. -/
def suitableRooms (c : CourseIx I) : List (RoomIx I) :=
  (List.finRange I.rooms.size).filter fun r => I.isSuitable c r

theorem lectureCount_of_lt (h : I.lectureTotal < UInt64.size) : I.lectureCount = I.lectureTotal :=
  wrap_of_lt h

/-- The one bounded number that a plain number stands for. -/
theorem bounded_eq_some_iff {n k : Nat} {i : Fin k} :
    (if h : n < k then some (⟨n, h⟩ : Fin k) else none) = some i ↔ i.val = n := by
  simp only [Option.dite_none_right_eq_some, Option.some.injEq, Fin.ext_iff]
  constructor
  · rintro ⟨_, h⟩
    exact h.symm
  · rintro rfl
    exact ⟨i.isLt, rfl⟩

theorem courseIx?_eq_some_iff {n : Nat} {c : CourseIx I} : I.courseIx? n = some c ↔ c.val = n :=
  bounded_eq_some_iff

theorem roomIx?_eq_some_iff {n : Nat} {r : RoomIx I} : I.roomIx? n = some r ↔ r.val = n :=
  bounded_eq_some_iff

theorem curriculumIx?_eq_some_iff {n : Nat} {q : CurriculumIx I} :
    I.curriculumIx? n = some q ↔ q.val = n :=
  bounded_eq_some_iff

@[simp]
theorem mem_memberships {c : CourseIx I} {q : CurriculumIx I} :
    q ∈ memberships c ↔ q.val ∈ curriculaOf c := by
  simp [memberships, curriculumIx?_eq_some_iff]

theorem dayOf_lt (s : Slot I) : dayOf s < I.days :=
  Nat.div_lt_of_lt_mul (Nat.mul_comm I.days I.periods ▸ s.isLt)

theorem periodOf_lt (s : Slot I) : periodOf s < I.periods :=
  Nat.mod_lt _ (Nat.pos_of_ne_zero fun h => by have := s.isLt; simp [slotCount, h] at this)

/-- A slot is where its day and its period meet. -/
theorem slotAt?_dayOf_periodOf (s : Slot I) : I.slotAt? (dayOf s) (periodOf s) = some s := by
  have h : I.slotNumber (dayOf s) (periodOf s) = s := Nat.div_add_mod' ..
  simp [slotAt?, dayOf_lt, periodOf_lt, h]

theorem slotAt?_eq_some_iff {day period : Nat} {s : Slot I} :
    I.slotAt? day period = some s ↔ day = dayOf s ∧ period = periodOf s := by
  constructor
  · intro h
    simp only [slotAt?, Option.dite_none_right_eq_some, Option.some.injEq] at h
    obtain ⟨⟨_, hp⟩, rfl⟩ := h
    have hpos : 0 < I.periods := by omega
    constructor
    · simp [dayOf, dayNumber, slotNumber, Nat.add_comm, Nat.add_mul_div_right _ _ hpos,
        Nat.div_eq_of_lt hp]
    · simp [periodOf, periodNumber, slotNumber, Nat.add_comm, Nat.add_mul_mod_self_right,
        Nat.mod_eq_of_lt hp]
  · rintro ⟨rfl, rfl⟩
    exact slotAt?_dayOf_periodOf s

end Instance

end Timetabling
