import Timetabling.Draft

/-! A timetable places courses at slots and in rooms. At one slot no curriculum, no teacher and no
    room is used twice; whether a course is available there and the room suitable is looked at by
    `admits` but not by `place`, so that a given timetable can be taken in as it is and then be
    judged. The bookings are kept four times, by curriculum, by room, by slot and by course, and every
    change brings all four up to date. -/

namespace Timetabling

/-- A lecture of a course at a day and a period in a room, by plain numbers that need not exist. -/
structure RoomMeeting where
  course : Nat
  day : Nat
  period : Nat
  room : Nat
  deriving DecidableEq, Repr

variable {I : Instance}

/-- A lecture of a course at a slot in a room. -/
structure Booking (I : Instance) where
  course : CourseIx I
  slot : Slot I
  room : RoomIx I
  deriving DecidableEq, Repr

namespace Booking

/-- The day of a booking. -/
def day (b : Booking I) : Nat := Instance.dayOf b.slot

/-- The period of a booking. -/
def period (b : Booking I) : Nat := Instance.periodOf b.slot

/-- The meeting that a booking is. -/
def meeting (b : Booking I) : RoomMeeting := ⟨b.course, b.day, b.period, b.room⟩

end Booking

/-- The booking that a meeting stands for, if course, day, period and room exist. -/
def RoomMeeting.booking? (I : Instance) (m : RoomMeeting) : Option (Booking I) := do
  let c ← I.courseIx? m.course
  let r ← I.roomIx? m.room
  let s ← I.slotAt? m.day m.period
  return ⟨c, s, r⟩

/-- A booking has one meeting by plain numbers. -/
theorem RoomMeeting.booking?_eq_some_iff {m : RoomMeeting} {b : Booking I} :
    m.booking? I = some b ↔ b.meeting = m := by
  rcases m with ⟨c, day, period, r⟩
  rcases b with ⟨d, s, x⟩
  simp only [booking?, Booking.meeting, Booking.day, Booking.period, bind, pure,
    Option.bind_eq_some_iff, Instance.courseIx?_eq_some_iff, Instance.roomIx?_eq_some_iff,
    Instance.slotAt?_eq_some_iff, Option.some.injEq, Booking.mk.injEq, RoomMeeting.mk.injEq]
  constructor
  · rintro ⟨_, rfl, _, rfl, _, ⟨rfl, rfl⟩, rfl, rfl, rfl⟩
    exact ⟨rfl, rfl, rfl, rfl⟩
  · rintro ⟨rfl, rfl, rfl, rfl⟩
    exact ⟨d, rfl, x, rfl, s, ⟨rfl, rfl⟩, rfl, rfl, rfl⟩

/-- Why a meeting cannot be added. -/
inductive Clash where
  | curriculum (course curriculum slot : Nat)
  | teacher (course slot : Nat)
  | room (room slot : Nat)
  | offGrid (course : Nat)
  deriving DecidableEq, Repr

/-- What is told about a clash. -/
def Clash.message : Clash → String
  | curriculum c q s => s!"course {c} clashes with curriculum {q} at slot {s}"
  | teacher c s => s!"teacher of course {c} already lectures at slot {s}"
  | room r s => s!"room {r} is already occupied at slot {s}"
  | offGrid c => s!"meeting of course {c} is outside the timetable grid"

/-- The bookings, by curriculum, by room, by slot and by course. -/
structure Timetable (I : Instance) where
  /-- The booking of each curriculum at each slot. -/
  curricula : Grid I.curricula.size I.slotCount (Option (Booking I))
  /-- Whether each room is in use at each slot. -/
  rooms : Grid I.rooms.size I.slotCount Bool
  /-- The bookings at each slot, ascending by course. -/
  slots : Cells I.slotCount (List (Booking I))
  /-- The bookings of each course, chronologically. -/
  courses : Cells I.courses.size (List (Booking I))
  deriving DecidableEq, Repr

namespace Timetable

open Instance

/-- The timetable without bookings. -/
def empty : Timetable I := ⟨.fill none, .fill false, .fill [], .fill []⟩

/-! ### Views -/

/-- The booking of a curriculum at a slot. -/
def bookingOf? (t : Timetable I) (q : CurriculumIx I) (s : Slot I) : Option (Booking I) :=
  t.curricula.get q s

/-- Whether the room is in use at the slot. -/
def roomTaken (t : Timetable I) (r : RoomIx I) (s : Slot I) : Bool := t.rooms.get r s

/-- The bookings at a slot, ascending by course. -/
def bookingsAt (t : Timetable I) (s : Slot I) : List (Booking I) := t.slots.get s

/-- The bookings of a course, chronologically. -/
def bookingsOf (t : Timetable I) (c : CourseIx I) : List (Booking I) := t.courses.get c

/-- Every booking, slot by slot. -/
def bookings (t : Timetable I) : List (Booking I) :=
  (List.finRange I.slotCount).flatMap t.bookingsAt

/-- The bookings of a teacher, course by course. -/
def bookingsOfTeacher (t : Timetable I) (teacher : Nat) : List (Booking I) :=
  (I.coursesOfTeacher teacher).flatMap t.bookingsOf

/-- The bookings of a curriculum, chronologically. -/
def bookingsIn (t : Timetable I) (q : CurriculumIx I) : List (Booking I) :=
  (List.finRange I.slotCount).filterMap (t.bookingOf? q)

/-- The bookings of the curriculum with this number, chronologically. -/
def bookingsOfCurriculum (t : Timetable I) (q : Nat) : List (Booking I) :=
  match I.curriculumIx? q with
  | some q => t.bookingsIn q
  | none => []

/-- The number of bookings. -/
def size (t : Timetable I) : Nat :=
  tally (fun c => (t.bookingsOf c).length) (List.finRange I.courses.size)

/-- The slots at which the room is in use, ascending. -/
def slotsOfRoom (t : Timetable I) (r : RoomIx I) : List (Slot I) :=
  (List.finRange I.slotCount).filter (t.roomTaken r)

/-- The first curriculum of the course that is taught at the slot. -/
def curriculumTaken? (t : Timetable I) (c : CourseIx I) (s : Slot I) : Option (CurriculumIx I) :=
  (memberships c).find? fun q => (t.bookingOf? q s).isSome

/-- Whether a course at the slot has the teacher of `c`. -/
def teacherTaken (t : Timetable I) (c : CourseIx I) (s : Slot I) : Bool :=
  (t.bookingsAt s).any fun b => teacherOf b.course = teacherOf c

/-- What keeps the booking out: a curriculum of its course, its teacher or its room is busy. -/
def clash? (t : Timetable I) (b : Booking I) : Option Clash :=
  match t.curriculumTaken? b.course b.slot with
  | some q => some (.curriculum b.course q b.slot)
  | none =>
    if t.teacherTaken b.course b.slot then some (.teacher b.course b.slot)
    else if t.roomTaken b.room b.slot then some (.room b.room b.slot)
    else none

/-- Whether the booking clashes with nothing, at an available slot and in a suitable room. -/
def admits (t : Timetable I) (b : Booking I) : Bool :=
  (t.clash? b).isNone && I.isAvailable b.course b.slot && I.isSuitable b.course b.room

/-! ### Changes -/

/-- The timetable with the booking put in, whatever it clashes with. -/
def put (t : Timetable I) (b : Booking I) : Timetable I where
  curricula := t.curricula.modifyRows (memberships b.course) b.slot fun _ => some b
  rooms := t.rooms.modify b.room b.slot fun _ => true
  slots := t.slots.modify b.slot (insertAscending (fun x => x.course) b)
  courses := t.courses.modify b.course (insertAscending (fun x => x.slot) b)

/-- The timetable with the booking taken away. -/
def cut (t : Timetable I) (b : Booking I) : Timetable I where
  curricula := t.curricula.modifyRows (memberships b.course) b.slot fun x =>
    if x = some b then none else x
  rooms := t.rooms.modify b.room b.slot fun _ => false
  slots := t.slots.modify b.slot fun bs => bs.erase b
  courses := t.courses.modify b.course fun bs => bs.erase b

/-- The timetable with the booking, unless it clashes. -/
def place (t : Timetable I) (b : Booking I) : Except Clash (Timetable I) :=
  match t.clash? b with
  | some e => .error e
  | none => .ok (t.put b)

/-- The timetable without the booking, if it is there. -/
def lift? (t : Timetable I) (b : Booking I) : Option (Timetable I) :=
  if b ∈ t.bookingsOf b.course then some (t.cut b) else none

/-- The timetable after an attempt to take the booking away. -/
def lifted (t : Timetable I) (b : Booking I) : Timetable I := (t.lift? b).getD t

/-- The bookings that stand in the way of one: at its slot with its room, its teacher or a
    curriculum in common. -/
def inTheWay (t : Timetable I) (b : Booking I) : List (Booking I) :=
  (t.bookingsAt b.slot).filter fun o => o.room = b.room || conflict b.course o.course

/-- Puts the booking in place of the one in its way, if any; more than one of them block it, and so
    does a slot or a room that is not for its course. In the latter case the one that had to leave
    is put back. -/
def takeOver (t : Timetable I) (b : Booking I) : Takeover (Timetable I) (Booking I) :=
  match t.inTheWay b with
  | [] => if t.admits b then .inserted (t.put b) else .blocked t
  | [old] =>
    let without := t.lifted old
    if without.admits b then .displaced old (without.put b) else .blocked (without.put old)
  | _ => .blocked t

/-! ### What the changes do to the four tables -/

theorem ext_views {t u : Timetable I} (hq : ∀ q s, t.bookingOf? q s = u.bookingOf? q s)
    (hr : ∀ r s, t.roomTaken r s = u.roomTaken r s) (hs : ∀ s, t.bookingsAt s = u.bookingsAt s)
    (hc : ∀ c, t.bookingsOf c = u.bookingsOf c) : t = u := by
  cases t with | mk tq tr ts tc =>
  cases u with | mk uq ur us uc =>
  rw [show tq = uq from Grid.ext_get hq, show tr = ur from Grid.ext_get hr,
    show ts = us from Cells.ext_get hs, show tc = uc from Cells.ext_get hc]

@[simp]
theorem bookingOf?_empty (q : CurriculumIx I) (s : Slot I) :
    (empty : Timetable I).bookingOf? q s = none := by
  simp [empty, bookingOf?]

@[simp]
theorem roomTaken_empty (r : RoomIx I) (s : Slot I) : (empty : Timetable I).roomTaken r s = false := by
  simp [empty, roomTaken]

@[simp]
theorem bookingsAt_empty (s : Slot I) : (empty : Timetable I).bookingsAt s = [] := by
  simp [empty, bookingsAt]

@[simp]
theorem bookingsOf_empty (c : CourseIx I) : (empty : Timetable I).bookingsOf c = [] := by
  simp [empty, bookingsOf]

theorem bookingOf?_put (t : Timetable I) (b : Booking I) (q : CurriculumIx I) (s : Slot I) :
    (t.put b).bookingOf? q s =
      if q ∈ memberships b.course ∧ s = b.slot then some b else t.bookingOf? q s :=
  Grid.get_modifyRows _ _ _ _ _ fun _ => rfl

theorem roomTaken_put (t : Timetable I) (b : Booking I) (r : RoomIx I) (s : Slot I) :
    (t.put b).roomTaken r s = if r = b.room ∧ s = b.slot then true else t.roomTaken r s :=
  Grid.get_modify ..

theorem bookingsAt_put (t : Timetable I) (b : Booking I) (s : Slot I) :
    (t.put b).bookingsAt s =
      if s = b.slot then insertAscending (fun x => x.course) b (t.bookingsAt b.slot)
      else t.bookingsAt s :=
  Cells.get_modify ..

theorem bookingsOf_put (t : Timetable I) (b : Booking I) (c : CourseIx I) :
    (t.put b).bookingsOf c =
      if c = b.course then insertAscending (fun x => x.slot) b (t.bookingsOf b.course)
      else t.bookingsOf c :=
  Cells.get_modify ..

theorem bookingOf?_cut (t : Timetable I) (b : Booking I) (q : CurriculumIx I) (s : Slot I) :
    (t.cut b).bookingOf? q s =
      if q ∈ memberships b.course ∧ s = b.slot ∧ t.bookingOf? q b.slot = some b then none
      else t.bookingOf? q s := by
  have h := Grid.get_modifyRows t.curricula (memberships b.course) q b.slot s
    (f := fun x => if x = some b then none else x) fun x => by split <;> simp_all
  simp only [cut, bookingOf?, h]
  split <;> simp_all

theorem roomTaken_cut (t : Timetable I) (b : Booking I) (r : RoomIx I) (s : Slot I) :
    (t.cut b).roomTaken r s = if r = b.room ∧ s = b.slot then false else t.roomTaken r s :=
  Grid.get_modify ..

theorem bookingsAt_cut (t : Timetable I) (b : Booking I) (s : Slot I) :
    (t.cut b).bookingsAt s = if s = b.slot then (t.bookingsAt b.slot).erase b else t.bookingsAt s :=
  Cells.get_modify ..

theorem bookingsOf_cut (t : Timetable I) (b : Booking I) (c : CourseIx I) :
    (t.cut b).bookingsOf c =
      if c = b.course then (t.bookingsOf b.course).erase b else t.bookingsOf c :=
  Cells.get_modify ..

theorem place_eq_ok_iff {t u : Timetable I} {b : Booking I} :
    t.place b = .ok u ↔ t.clash? b = none ∧ t.put b = u := by
  cases h : t.clash? b <;> simp [place, h]

theorem lift?_eq_some_iff {t u : Timetable I} {b : Booking I} :
    t.lift? b = some u ↔ b ∈ t.bookingsOf b.course ∧ t.cut b = u := by
  simp [lift?]

/-! ### Meetings by plain numbers -/

/-- The timetable with the meeting, or what keeps it out. -/
def add (t : Timetable I) (m : RoomMeeting) : Except Clash (Timetable I) :=
  match m.booking? I with
  | some b => t.place b
  | none => .error (.offGrid m.course)

/-- The timetable with the meetings added one after another. -/
def addAll (t : Timetable I) (ms : List RoomMeeting) : Except Clash (Timetable I) :=
  ms.foldlM add t

/-- The timetable without the meeting, if it is there in that room. -/
def remove? (t : Timetable I) (m : RoomMeeting) : Option (Timetable I) :=
  (m.booking? I).bind t.lift?

/-- Puts the meeting in place of the one in its way, if any. -/
def replace (t : Timetable I) (m : RoomMeeting) : Takeover (Timetable I) (Booking I) :=
  match m.booking? I with
  | some b => t.takeOver b
  | none => .blocked t

/-- Whether the meeting exists, clashes with nothing, and suits its slot and its room. -/
def admitsMeeting (t : Timetable I) (m : RoomMeeting) : Bool := (m.booking? I).any t.admits

/-- The booking of the meeting, in whichever room it takes place. -/
def find? (t : Timetable I) (m : Meeting) : Option (Booking I) :=
  (I.courseIx? m.course).bind fun c =>
    (t.bookingsOf c).find? fun b => b.day = m.day && b.period = m.period

/-- Whether the room is in use at the slot; never at a slot that does not exist. -/
def isRoomTaken (t : Timetable I) (r : RoomIx I) (slot : Nat) : Bool :=
  (I.slot? slot).any (t.roomTaken r)

/-- Whether a course with a curriculum in common sits at the day and period of the meeting: never
    off the grid, and nothing is known of a course that does not exist. -/
def sameCurriculum? (t : Timetable I) (m : Meeting) : Option Bool :=
  match I.slotAt? m.day m.period with
  | some s => (I.courseIx? m.course).map fun c => (t.curriculumTaken? c s).isSome
  | none => some false

/-- Whether a course of the same teacher sits at the day and period of the meeting: never off the
    grid, and nothing is known of a course that does not exist. -/
def sameTeacher? (t : Timetable I) (m : Meeting) : Option Bool :=
  match I.slotAt? m.day m.period with
  | some s => (I.courseIx? m.course).map fun c => t.teacherTaken c s
  | none => some false

/-! ### Without rooms -/

/-- The draft with the bookings of the timetable, taken in slot by slot; a booking that the draft
    does not admit is left out. -/
def withoutRooms (t : Timetable I) : Draft I :=
  t.bookings.foldl (fun d b => d.placed b.course b.slot) .empty

end Timetable

end Timetabling
