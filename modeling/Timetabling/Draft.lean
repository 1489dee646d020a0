import Timetabling.Ascending
import Timetabling.Cells
import Timetabling.Instance.Basic
import Timetabling.Takeover

/-! A draft places courses at slots and leaves the rooms open. A slot takes a course when the course
    is available there, fewer courses than rooms are there already, and none of them has the same
    teacher or a curriculum in common. The placements are kept three times, by curriculum, by slot
    and by course, and every change brings all three up to date. -/

namespace Timetabling

/-- A lecture of a course at a day and a period, by plain numbers that need not exist. -/
structure Meeting where
  course : Nat
  day : Nat
  period : Nat
  deriving DecidableEq, Repr

/-- A lecture of a course at a slot. -/
structure Placement (I : Instance) where
  course : CourseIx I
  slot : Slot I
  deriving DecidableEq, Repr

variable {I : Instance}

/-- The meeting that a placement is. -/
def Placement.meeting (p : Placement I) : Meeting :=
  ⟨p.course, Instance.dayOf p.slot, Instance.periodOf p.slot⟩

/-- The placement that a meeting stands for, if course, day and period exist. -/
def Meeting.placement? (I : Instance) (m : Meeting) : Option (Placement I) := do
  let c ← I.courseIx? m.course
  let s ← I.slotAt? m.day m.period
  return ⟨c, s⟩

/-- A placement has one meeting by plain numbers. -/
theorem Meeting.placement?_eq_some_iff {m : Meeting} {p : Placement I} :
    m.placement? I = some p ↔ p.meeting = m := by
  rcases m with ⟨c, day, period⟩
  rcases p with ⟨d, s⟩
  simp only [placement?, Placement.meeting, bind, pure, Option.bind_eq_some_iff,
    Instance.courseIx?_eq_some_iff, Instance.slotAt?_eq_some_iff, Option.some.injEq,
    Placement.mk.injEq, Meeting.mk.injEq]
  constructor
  · rintro ⟨_, rfl, _, ⟨rfl, rfl⟩, rfl, rfl⟩
    exact ⟨rfl, rfl, rfl⟩
  · rintro ⟨rfl, rfl, rfl⟩
    exact ⟨d, rfl, s, ⟨rfl, rfl⟩, rfl, rfl⟩

/-- The placements, by curriculum, by slot and by course. -/
structure Draft (I : Instance) where
  /-- The course of each curriculum at each slot. -/
  curricula : Grid I.curricula.size I.slotCount (Option (CourseIx I))
  /-- The courses at each slot, ascending. -/
  slots : Cells I.slotCount (List (CourseIx I))
  /-- The slots of each course, ascending. -/
  courses : Cells I.courses.size (List (Slot I))
  deriving DecidableEq, Repr

namespace Draft

open Instance

/-- The draft without placements. -/
def empty : Draft I := ⟨.fill none, .fill [], .fill []⟩

/-! ### Views -/

/-- The course of a curriculum at a slot. -/
def courseOf? (d : Draft I) (q : CurriculumIx I) (s : Slot I) : Option (CourseIx I) :=
  d.curricula.get q s

/-- The courses at a slot, ascending. -/
def coursesAt (d : Draft I) (s : Slot I) : List (CourseIx I) := d.slots.get s

/-- The slots of a course, ascending. -/
def slotsOf (d : Draft I) (c : CourseIx I) : List (Slot I) := d.courses.get c

/-- The placements of a course, chronologically. -/
def placementsOf (d : Draft I) (c : CourseIx I) : List (Placement I) :=
  (d.slotsOf c).map fun s => ⟨c, s⟩

/-- Every placement, slot by slot. -/
def placements (d : Draft I) : List (Placement I) :=
  (List.finRange I.slotCount).flatMap fun s => (d.coursesAt s).map fun c => ⟨c, s⟩

/-- The number of placements. -/
def size (d : Draft I) : Nat :=
  tally (fun c => (d.slotsOf c).length) (List.finRange I.courses.size)

/-- Whether a curriculum of the course is taught at the slot. -/
def curriculumTaken (d : Draft I) (c : CourseIx I) (s : Slot I) : Bool :=
  (memberships c).any fun q => (d.courseOf? q s).isSome

/-- Whether a course at the slot has the teacher of `c`. -/
def teacherTaken (d : Draft I) (c : CourseIx I) (s : Slot I) : Bool :=
  (d.coursesAt s).any fun b => teacherOf b = teacherOf c

/-- Whether the slot takes the course, rooms and their suitability aside. -/
def admits (d : Draft I) (c : CourseIx I) (s : Slot I) : Bool :=
  (d.coursesAt s).length < I.rooms.size && I.isAvailable c s && !d.curriculumTaken c s &&
    !d.teacherTaken c s

/-! ### Changes -/

/-- The draft with the course put at the slot, admitted or not. -/
def put (d : Draft I) (c : CourseIx I) (s : Slot I) : Draft I where
  curricula := d.curricula.modifyRows (memberships c) s fun _ => some c
  slots := d.slots.modify s (insertAscending Fin.val c)
  courses := d.courses.modify c (insertAscending Fin.val s)

/-- The draft with the course taken away from the slot. -/
def cut (d : Draft I) (c : CourseIx I) (s : Slot I) : Draft I where
  curricula := d.curricula.modifyRows (memberships c) s fun b => if b = some c then none else b
  slots := d.slots.modify s fun cs => cs.erase c
  courses := d.courses.modify c fun ss => ss.erase s

/-- The draft with the course at the slot, if the slot takes it. -/
def place? (d : Draft I) (c : CourseIx I) (s : Slot I) : Option (Draft I) :=
  if d.admits c s then some (d.put c s) else none

/-- The draft without the course at the slot, if it is there. -/
def lift? (d : Draft I) (c : CourseIx I) (s : Slot I) : Option (Draft I) :=
  if s ∈ d.slotsOf c then some (d.cut c s) else none

/-- The draft after an attempt to place the course. -/
def placed (d : Draft I) (c : CourseIx I) (s : Slot I) : Draft I := (d.place? c s).getD d

/-- The draft after an attempt to take the course away. -/
def lifted (d : Draft I) (c : CourseIx I) (s : Slot I) : Draft I := (d.lift? c s).getD d

/-- Puts the course at the slot in place of the one course there that conflicts with it, if any;
    more than one of them block it. When the slot does not take the course even so, the one that had
    to leave is put back. -/
def takeOver (d : Draft I) (c : CourseIx I) (s : Slot I) : Takeover (Draft I) (Placement I) :=
  if !I.isAvailable c s then .blocked d
  else match (d.coursesAt s).filter (conflict c) with
    | [] =>
      match d.place? c s with
      | some next => .inserted next
      | none => .blocked d
    | [old] =>
      let without := d.lifted old s
      match without.place? c s with
      | some next => .displaced ⟨old, s⟩ next
      | none => .blocked (without.put old s)
    | _ => .blocked d

/-! ### What the changes do to the three tables -/

theorem ext_views {d e : Draft I} (hq : ∀ q s, d.courseOf? q s = e.courseOf? q s)
    (hs : ∀ s, d.coursesAt s = e.coursesAt s) (hc : ∀ c, d.slotsOf c = e.slotsOf c) : d = e := by
  cases d with | mk dq ds dc =>
  cases e with | mk eq es ec =>
  rw [show dq = eq from Grid.ext_get hq, show ds = es from Cells.ext_get hs,
    show dc = ec from Cells.ext_get hc]

@[simp]
theorem courseOf?_empty (q : CurriculumIx I) (s : Slot I) :
    (empty : Draft I).courseOf? q s = none := by
  simp [empty, courseOf?]

@[simp]
theorem coursesAt_empty (s : Slot I) : (empty : Draft I).coursesAt s = [] := by
  simp [empty, coursesAt]

@[simp]
theorem slotsOf_empty (c : CourseIx I) : (empty : Draft I).slotsOf c = [] := by
  simp [empty, slotsOf]

theorem courseOf?_put (d : Draft I) (c : CourseIx I) (s s' : Slot I) (q : CurriculumIx I) :
    (d.put c s).courseOf? q s' =
      if q ∈ memberships c ∧ s' = s then some c else d.courseOf? q s' :=
  Grid.get_modifyRows _ _ _ _ _ fun _ => rfl

theorem coursesAt_put (d : Draft I) (c : CourseIx I) (s s' : Slot I) :
    (d.put c s).coursesAt s' =
      if s' = s then insertAscending Fin.val c (d.coursesAt s) else d.coursesAt s' := by
  simp [put, coursesAt, Cells.get_modify]

theorem slotsOf_put (d : Draft I) (c c' : CourseIx I) (s : Slot I) :
    (d.put c s).slotsOf c' =
      if c' = c then insertAscending Fin.val s (d.slotsOf c) else d.slotsOf c' := by
  simp [put, slotsOf, Cells.get_modify]

theorem courseOf?_cut (d : Draft I) (c : CourseIx I) (s s' : Slot I) (q : CurriculumIx I) :
    (d.cut c s).courseOf? q s' =
      if q ∈ memberships c ∧ s' = s ∧ d.courseOf? q s = some c then none
      else d.courseOf? q s' := by
  have h := Grid.get_modifyRows d.curricula (memberships c) q s s'
    (f := fun b => if b = some c then none else b) fun b => by split <;> simp_all
  simp only [cut, courseOf?, h]
  split <;> simp_all

theorem coursesAt_cut (d : Draft I) (c : CourseIx I) (s s' : Slot I) :
    (d.cut c s).coursesAt s' = if s' = s then (d.coursesAt s).erase c else d.coursesAt s' := by
  simp [cut, coursesAt, Cells.get_modify]

theorem slotsOf_cut (d : Draft I) (c c' : CourseIx I) (s : Slot I) :
    (d.cut c s).slotsOf c' = if c' = c then (d.slotsOf c).erase s else d.slotsOf c' := by
  simp [cut, slotsOf, Cells.get_modify]

theorem place?_eq_some_iff {d e : Draft I} {c : CourseIx I} {s : Slot I} :
    d.place? c s = some e ↔ d.admits c s = true ∧ d.put c s = e := by
  simp [place?]

theorem lift?_eq_some_iff {d e : Draft I} {c : CourseIx I} {s : Slot I} :
    d.lift? c s = some e ↔ s ∈ d.slotsOf c ∧ d.cut c s = e := by
  simp [lift?]

theorem mem_placements {d : Draft I} {p : Placement I} :
    p ∈ d.placements ↔ p.course ∈ d.coursesAt p.slot := by
  cases p with | mk c s =>
  simp only [placements, List.mem_flatMap, List.mem_finRange, true_and, List.mem_map,
    Placement.mk.injEq]
  constructor
  · rintro ⟨_, _, h, rfl, rfl⟩
    exact h
  · intro h
    exact ⟨s, c, h, rfl, rfl⟩

/-! ### Meetings by plain numbers -/

/-- The draft with the meeting, if it exists and its slot takes it. -/
def add? (d : Draft I) (m : Meeting) : Option (Draft I) :=
  (m.placement? I).bind fun p => d.place? p.course p.slot

/-- The draft without the meeting, if it is there. -/
def remove? (d : Draft I) (m : Meeting) : Option (Draft I) :=
  (m.placement? I).bind fun p => d.lift? p.course p.slot

/-- Puts the meeting in place of the one that conflicts with it, if any. -/
def replace (d : Draft I) (m : Meeting) : Takeover (Draft I) (Placement I) :=
  match m.placement? I with
  | some p => d.takeOver p.course p.slot
  | none => .blocked d

/-- Whether the meeting could be added. -/
def canAdd (d : Draft I) (m : Meeting) : Bool :=
  (m.placement? I).any fun p => d.admits p.course p.slot

/-- The placement of the meeting, if it is in the draft. -/
def find? (d : Draft I) (m : Meeting) : Option (Placement I) :=
  (m.placement? I).filter fun p => (d.slotsOf p.course).contains p.slot

/-- Whether the meeting is in the draft. -/
def contains (d : Draft I) (m : Meeting) : Bool := (d.find? m).isSome

/-- Whether a course with a curriculum in common sits at the day and period of the meeting. -/
def sameCurriculum (d : Draft I) (m : Meeting) : Bool :=
  (m.placement? I).any fun p => d.curriculumTaken p.course p.slot

/-- Whether a course of the same teacher sits at the day and period of the meeting. -/
def sameTeacher (d : Draft I) (m : Meeting) : Bool :=
  (m.placement? I).any fun p => d.teacherTaken p.course p.slot

end Draft

end Timetabling
