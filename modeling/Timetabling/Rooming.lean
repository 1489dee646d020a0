import Timetabling.Allotment
import Timetabling.Timetable

/-! Rooms for a whole draft, slot by slot. A course fits a slot when the slot admits it and rooms
    can still be given to all courses there together with it. -/

namespace Timetabling

variable {I : Instance}

/-- A course that gets no room at its slot. -/
structure Shortage (I : Instance) where
  course : CourseIx I
  slot : Slot I
  deriving DecidableEq, Repr

/-- What is told about a shortage. -/
def Shortage.message (x : Shortage I) : String :=
  let c := x.course.val
  let s := x.slot.val
  s!"no suitable room left for course {c} at slot {s}"

namespace Draft

/-- Whether the slot admits the course and has rooms for all courses together with it. -/
def fits (d : Draft I) (c : CourseIx I) (s : Slot I) : Bool :=
  d.admits c s && allottable (insertAscending Fin.val c (d.coursesAt s))

/-- Whether the meeting exists and fits its slot. -/
def fitsMeeting (d : Draft I) (m : Meeting) : Bool :=
  (m.placement? I).any fun p => d.fits p.course p.slot

/-- Adds the courses of a slot, each in its room, to a timetable; a clash counts as a shortage. -/
def lodge (s : Slot I) (t : Timetable I) : List (CourseIx I × RoomIx I) →
    Except (Shortage I) (Timetable I)
  | [] => .ok t
  | (c, r) :: rest =>
    match t.place ⟨c, s, r⟩ with
    | .ok t => lodge s t rest
    | .error _ => .error ⟨c, s⟩

/-- Adds the courses that the draft has at the slot to a timetable, in the rooms allotted. -/
def lodgeSlot (d : Draft I) (t : Timetable I) (s : Slot I) : Except (Shortage I) (Timetable I) :=
  match allot (d.coursesAt s) with
  | .ok rs => lodge s t ((d.coursesAt s).zip rs)
  | .error c => .error ⟨c, s⟩

/-- The timetable with every placement of the draft in a room, or the first shortage. -/
def withRooms (d : Draft I) : Except (Shortage I) (Timetable I) :=
  (List.finRange I.slotCount).foldlM d.lodgeSlot .empty

end Draft

end Timetabling
