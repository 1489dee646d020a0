import Timetabling.Timetable

/-! Counts of the constraints that a timetable violates. The hard ones make it infeasible: lectures
    missing or to spare, a curriculum, a teacher or a room used twice, slots that are not available
    and rooms that are not suitable. The soft ones count students without a seat, working days short
    of the minimum, lectures of a curriculum that stand alone, and rooms beyond the first of a
    course. The counters have 64 bits. -/

namespace Timetabling

/-- The violations of each constraint, counted. -/
structure Report where
  missingLectures : Nat
  extraLectures : Nat
  curriculumConflicts : Nat
  teacherConflicts : Nat
  roomConflicts : Nat
  unavailableSlots : Nat
  unsuitableRooms : Nat
  roomCapacity : Nat
  minWorkingDays : Nat
  isolatedLectures : Nat
  roomStability : Nat
  deriving DecidableEq, Repr

namespace Report

/-- The number of hard violations. -/
def hardTotal (r : Report) : Nat :=
  r.missingLectures + r.extraLectures + r.curriculumConflicts + r.teacherConflicts +
    r.roomConflicts + r.unavailableSlots + r.unsuitableRooms

/-- The number of soft violations, unweighted. -/
def softTotal (r : Report) : Nat :=
  r.roomCapacity + r.minWorkingDays + r.isolatedLectures + r.roomStability

/-- The number of hard violations, added up in 64 bits. -/
def hard (r : Report) : Nat := wrap r.hardTotal

/-- The number of soft violations, added up in 64 bits. -/
def soft (r : Report) : Nat := wrap r.softTotal

/-- Whether the number of hard violations comes out as zero. -/
def isFeasible (r : Report) : Bool := r.hard = 0

/-- What 64-bit counters keep of the counts. Three of them add up numbers that the instance gives; the
    others count what the timetable holds, one by one. -/
def wrapped (r : Report) : Report :=
  { r with
    missingLectures := wrap r.missingLectures
    roomCapacity := wrap r.roomCapacity
    minWorkingDays := wrap r.minWorkingDays }

end Report

namespace Timetable

open Instance

variable {I : Instance}

/-- The members of a list beyond the first of each value, counted. -/
def repetitions (xs : List Nat) : Nat := xs.length - xs.eraseDups.length

/-- The sum of a count over the courses. -/
def overCourses (count : CourseIx I → Nat) : Nat :=
  tally count (List.finRange I.courses.size)

/-- The sum of a count over the slots. -/
def overSlots (count : Slot I → Nat) : Nat := tally count (List.finRange I.slotCount)

/-- The lectures that the course lacks. -/
def missingLectures (t : Timetable I) (c : CourseIx I) : Nat :=
  (course c).lectures - (t.bookingsOf c).length

/-- The lectures that the course has beyond those it wants. -/
def extraLectures (t : Timetable I) (c : CourseIx I) : Nat :=
  (t.bookingsOf c).length - (course c).lectures

/-- The days short of the minimum that the course wants. -/
def missingDays (t : Timetable I) (c : CourseIx I) : Nat :=
  (course c).minWorkingDays - ((t.bookingsOf c).map Booking.day).eraseDups.length

/-- The rooms of the course beyond its first. -/
def extraRooms (t : Timetable I) (c : CourseIx I) : Nat :=
  ((t.bookingsOf c).map fun b => b.room.val).eraseDups.length - 1

/-- The students of the course without a seat, over its meetings. -/
def missingSeats (t : Timetable I) (c : CourseIx I) : Nat :=
  tally (fun b => ((room b.room).overflow (course c).students).toNat) (t.bookingsOf c)

/-- The meetings of the course at slots where it is not available. -/
def unavailableSlots (t : Timetable I) (c : CourseIx I) : Nat :=
  (t.bookingsOf c).countP fun b => !I.isAvailable c b.slot

/-- The meetings of the course in rooms that it must not use. -/
def unsuitableRooms (t : Timetable I) (c : CourseIx I) : Nat :=
  (t.bookingsOf c).countP fun b => !I.isSuitable c b.room

/-- The meetings of each curriculum at the slot beyond the first. -/
def curriculumConflicts (t : Timetable I) (s : Slot I) : Nat :=
  tally (fun q => (t.bookingsAt s).countP (fun b => q.courses.contains b.course.val) - 1)
    I.curricula.toList

/-- Whether the curriculum is taught at the slot with this number. -/
def curriculumBusy (t : Timetable I) (q slot : Nat) : Bool :=
  (t.bookingsOfCurriculum q).any fun b => b.slot.val = slot

/-- Whether the curriculum is not taught in the slots right before and after the booking, as far as
    they are on its day. -/
def isolated (t : Timetable I) (q : Nat) (b : Booking I) : Bool :=
  !(0 < b.period && t.curriculumBusy q (b.slot - 1)) &&
    !(b.period + 1 < I.periods && t.curriculumBusy q (b.slot + 1))

/-- The violations of every constraint. -/
def violations (t : Timetable I) : Report where
  missingLectures := overCourses t.missingLectures
  extraLectures := overCourses t.extraLectures
  curriculumConflicts := overSlots t.curriculumConflicts
  teacherConflicts := overSlots fun s =>
    repetitions ((t.bookingsAt s).map fun b => teacherOf b.course)
  roomConflicts := overSlots fun s => repetitions ((t.bookingsAt s).map fun b => b.room.val)
  unavailableSlots := overCourses t.unavailableSlots
  unsuitableRooms := overCourses t.unsuitableRooms
  roomCapacity := overCourses t.missingSeats
  minWorkingDays := overCourses t.missingDays
  isolatedLectures :=
    tally (fun q => (t.bookingsOfCurriculum q).countP (t.isolated q)) (List.range I.curricula.size)
  roomStability := overCourses t.extraRooms

/-- No hard constraint is violated. -/
def Feasible (t : Timetable I) : Prop := t.violations.hardTotal = 0

instance (t : Timetable I) : Decidable t.Feasible := inferInstanceAs (Decidable (_ = _))

/-- The violations of every constraint, as the counters show them. -/
def report (t : Timetable I) : Report := t.violations.wrapped

end Timetable

end Timetabling
