import Timetabling.Proofs.Instance.Coherence
import Timetabling.Timetable

/-! Drafts and timetables with every look-up checked. Courses, rooms and slots that a table stores are
    bounded by their types, but the curricula of a course are plain numbers, and a slot number is
    split by a division. Here each such number is looked up, and the operation fails where nothing is
    found. On a coherent instance nothing ever fails: the checked operations give what the operations
    give. -/

namespace Timetabling

open Instance

variable {I : Instance}

/-! ### Checks -/

/-- The difference, unless it is below zero. -/
def checkedSub (a b : Nat) : Option Nat := if b ≤ a then some (a - b) else none

/-- The number as one below the bound, which it has to be. -/
def checkedIx (bound n : Nat) : Option (Fin bound) := if h : n < bound then some ⟨n, h⟩ else none

/-- The members of a list from one position up to another, both within the list. -/
def checkedSlice {α : Type} (xs : List α) (start stop : Nat) : Option (List α) :=
  if start ≤ stop ∧ stop ≤ xs.length then some ((xs.drop start).take (stop - start)) else none

theorem checkedSub_eq {a b : Nat} (h : b ≤ a) : checkedSub a b = some (a - b) := if_pos h

theorem mapM_eq_some_map {α β : Type} {f : α → Option β} {g : α → β} {xs : List α}
    (h : ∀ x ∈ xs, f x = some (g x)) : xs.mapM f = some (xs.map g) := by
  induction xs with
  | nil => rfl
  | cons x xs ih =>
    have hrest := ih fun x' hx' => h x' (List.mem_cons_of_mem _ hx')
    simp [List.mapM_cons, h x (List.mem_cons_self ..), hrest]

/-- Look-ups that all succeed find what is left when failures are dropped. -/
theorem mapM_eq_some_filterMap {α β : Type} {f : α → Option β} {xs : List α}
    (h : ∀ x ∈ xs, (f x).isSome = true) : xs.mapM f = some (xs.filterMap f) := by
  induction xs with
  | nil => rfl
  | cons x xs ih =>
    obtain ⟨y, hy⟩ := Option.isSome_iff_exists.1 (h x (List.mem_cons_self ..))
    have hrest := ih fun x' hx' => h x' (List.mem_cons_of_mem _ hx')
    simp [List.mapM_cons, hy, hrest]

theorem findM?_eq_some_find? {α : Type} {f : α → Option Bool} {p : α → Bool}
    (h : ∀ a, f a = some (p a)) (xs : List α) : xs.findM? f = some (xs.find? p) := by
  induction xs with
  | nil => rfl
  | cons x xs ih => cases hx : p x <;> simp [List.findM?, h, hx, ih]

/-! ### Numbers of an instance -/

namespace Instance

/-- The day and the period of a slot number, unless a day has no periods. -/
def checkedSplit (I : Instance) (slot : Nat) : Option (Nat × Nat) :=
  if I.periods = 0 then none else some (I.dayNumber slot, I.periodNumber slot)

/-- The curricula of a course, all of which have to exist. -/
def checkedMemberships (c : CourseIx I) : Option (List (CurriculumIx I)) :=
  (curriculaOf c).mapM I.curriculumIx?

theorem Coherent.checkedSplit_eq (hI : I.Coherent) (s : Slot I) :
    I.checkedSplit s = some (dayOf s, periodOf s) :=
  if_neg (Nat.ne_of_gt hI.periods_pos)

theorem Coherent.checkedMemberships_eq (hI : I.Coherent) (c : CourseIx I) :
    checkedMemberships c = some (memberships c) :=
  mapM_eq_some_filterMap fun n hn => by simp [curriculumIx?, hI.lt_of_mem_curriculaOf hn]

end Instance

/-! ### Drafts -/

namespace Draft

def checkedCurriculumTaken (d : Draft I) (c : CourseIx I) (s : Slot I) : Option Bool := do
  return (← checkedMemberships c).any fun q => (d.courseOf? q s).isSome

def checkedAdmits (d : Draft I) (c : CourseIx I) (s : Slot I) : Option Bool := do
  let taken ← d.checkedCurriculumTaken c s
  return (d.coursesAt s).length < I.rooms.size && I.isAvailable c s && !taken &&
    !d.teacherTaken c s

def checkedPut (d : Draft I) (c : CourseIx I) (s : Slot I) : Option (Draft I) := do
  let qs ← checkedMemberships c
  return {
    curricula := d.curricula.modifyRows qs s fun _ => some c
    slots := d.slots.modify s (insertAscending Fin.val c)
    courses := d.courses.modify c (insertAscending Fin.val s) }

def checkedCut (d : Draft I) (c : CourseIx I) (s : Slot I) : Option (Draft I) := do
  let qs ← checkedMemberships c
  return {
    curricula := d.curricula.modifyRows qs s fun b => if b = some c then none else b
    slots := d.slots.modify s fun cs => cs.erase c
    courses := d.courses.modify c fun ss => ss.erase s }

def checkedPlace (d : Draft I) (c : CourseIx I) (s : Slot I) : Option (Option (Draft I)) := do
  if ← d.checkedAdmits c s then return some (← d.checkedPut c s) else return none

def checkedLift (d : Draft I) (c : CourseIx I) (s : Slot I) : Option (Option (Draft I)) := do
  if (d.slotsOf c).contains s then return some (← d.checkedCut c s) else return none

def checkedTakeOver (d : Draft I) (c : CourseIx I) (s : Slot I) :
    Option (Takeover (Draft I) (Placement I)) :=
  if !I.isAvailable c s then return .blocked d
  else match (d.coursesAt s).filter (conflict c) with
    | [] => do
      match ← d.checkedPlace c s with
      | some next => return .inserted next
      | none => return .blocked d
    | [old] => do
      let without := (← d.checkedLift old s).getD d
      match ← without.checkedPlace c s with
      | some next => return .displaced ⟨old, s⟩ next
      | none => return .blocked (← without.checkedPut old s)
    | _ => return .blocked d

/-- The draft after an attempt to add the meeting. -/
def checkedAdd (d : Draft I) (m : Meeting) : Option (Draft I) :=
  match m.placement? I with
  | some p => do return (← d.checkedPlace p.course p.slot).getD d
  | none => return d

/-- The draft after an attempt to remove the meeting. -/
def checkedRemove (d : Draft I) (m : Meeting) : Option (Draft I) :=
  match m.placement? I with
  | some p => do return (← d.checkedLift p.course p.slot).getD d
  | none => return d

def checkedReplace (d : Draft I) (m : Meeting) : Option (Takeover (Draft I) (Placement I)) :=
  match m.placement? I with
  | some p => d.checkedTakeOver p.course p.slot
  | none => return .blocked d

section

variable (hI : I.Coherent) (d : Draft I) (c : CourseIx I) (s : Slot I)

include hI

theorem checkedAdmits_eq : d.checkedAdmits c s = some (d.admits c s) := by
  simp [checkedAdmits, checkedCurriculumTaken, hI.checkedMemberships_eq, admits, curriculumTaken]

theorem checkedPut_eq : d.checkedPut c s = some (d.put c s) := by
  simp [checkedPut, hI.checkedMemberships_eq, put]

theorem checkedCut_eq : d.checkedCut c s = some (d.cut c s) := by
  simp [checkedCut, hI.checkedMemberships_eq, cut]

theorem checkedPlace_eq : d.checkedPlace c s = some (d.place? c s) := by
  simp only [checkedPlace, checkedAdmits_eq hI, checkedPut_eq hI, place?]
  cases d.admits c s <;> rfl

theorem checkedLift_eq : d.checkedLift c s = some (d.lift? c s) := by
  simp only [checkedLift, checkedCut_eq hI, lift?, List.contains_iff_mem]
  split <;> rfl

theorem checkedTakeOver_eq : d.checkedTakeOver c s = some (d.takeOver c s) := by
  rw [checkedTakeOver, takeOver]
  split
  · rfl
  generalize (d.coursesAt s).filter (conflict c) = blockers
  rcases blockers with _ | ⟨old, _ | ⟨_, _⟩⟩
  · cases hplace : d.place? c s <;> simp [checkedPlace_eq hI, hplace]
  · cases hplace : ((d.lift? old s).getD d).place? c s <;>
      simp [checkedLift_eq hI, checkedPlace_eq hI, checkedPut_eq hI, lifted, hplace]
  · rfl

theorem checkedAdd_eq (m : Meeting) : d.checkedAdd m = some ((d.add? m).getD d) := by
  cases hm : m.placement? I <;> simp [checkedAdd, add?, hm, checkedPlace_eq hI]

theorem checkedRemove_eq (m : Meeting) : d.checkedRemove m = some ((d.remove? m).getD d) := by
  cases hm : m.placement? I <;> simp [checkedRemove, remove?, hm, checkedLift_eq hI]

theorem checkedReplace_eq (m : Meeting) : d.checkedReplace m = some (d.replace m) := by
  cases hm : m.placement? I <;> simp [checkedReplace, replace, hm, checkedTakeOver_eq hI]

end

end Draft

/-! ### Timetables -/

namespace Timetable

/-- The bookings of the curriculum with this number, which has to exist. -/
def checkedBookingsOfCurriculum (t : Timetable I) (q : Nat) : Option (List (Booking I)) := do
  return t.bookingsIn (← I.curriculumIx? q)

def checkedClash (t : Timetable I) (b : Booking I) : Option (Option Clash) := do
  match (← checkedMemberships b.course).find? fun q => (t.bookingOf? q b.slot).isSome with
  | some q => return some (.curriculum b.course q b.slot)
  | none =>
    if t.teacherTaken b.course b.slot then return some (.teacher b.course b.slot)
    else if t.roomTaken b.room b.slot then return some (.room b.room b.slot)
    else return none

def checkedAdmits (t : Timetable I) (b : Booking I) : Option Bool := do
  let clash ← t.checkedClash b
  return clash.isNone && I.isAvailable b.course b.slot && I.isSuitable b.course b.room

def checkedPut (t : Timetable I) (b : Booking I) : Option (Timetable I) := do
  let qs ← checkedMemberships b.course
  return {
    curricula := t.curricula.modifyRows qs b.slot fun _ => some b
    rooms := t.rooms.modify b.room b.slot fun _ => true
    slots := t.slots.modify b.slot (insertAscending (fun x => x.course) b)
    courses := t.courses.modify b.course (insertAscending (fun x => x.slot) b) }

def checkedCut (t : Timetable I) (b : Booking I) : Option (Timetable I) := do
  let qs ← checkedMemberships b.course
  return {
    curricula := t.curricula.modifyRows qs b.slot fun x => if x = some b then none else x
    rooms := t.rooms.modify b.room b.slot fun _ => false
    slots := t.slots.modify b.slot fun bs => bs.erase b
    courses := t.courses.modify b.course fun bs => bs.erase b }

def checkedPlace (t : Timetable I) (b : Booking I) : Option (Except Clash (Timetable I)) := do
  match ← t.checkedClash b with
  | some e => return .error e
  | none => return .ok (← t.checkedPut b)

def checkedLift (t : Timetable I) (b : Booking I) : Option (Option (Timetable I)) := do
  if (t.bookingsOf b.course).contains b then return some (← t.checkedCut b) else return none

def checkedTakeOver (t : Timetable I) (b : Booking I) :
    Option (Takeover (Timetable I) (Booking I)) :=
  match t.inTheWay b with
  | [] => do
    if ← t.checkedAdmits b then return .inserted (← t.checkedPut b) else return .blocked t
  | [old] => do
    let without := (← t.checkedLift old).getD t
    if ← without.checkedAdmits b then return .displaced old (← without.checkedPut b)
    else return .blocked (← without.checkedPut old)
  | _ => return .blocked t

def checkedAdd (t : Timetable I) (m : RoomMeeting) : Option (Except Clash (Timetable I)) :=
  match m.booking? I with
  | some b => t.checkedPlace b
  | none => return .error (.offGrid m.course)

/-- The timetable after an attempt to remove the meeting. -/
def checkedRemove (t : Timetable I) (m : RoomMeeting) : Option (Timetable I) :=
  match m.booking? I with
  | some b => do return (← t.checkedLift b).getD t
  | none => return t

def checkedReplace (t : Timetable I) (m : RoomMeeting) :
    Option (Takeover (Timetable I) (Booking I)) :=
  match m.booking? I with
  | some b => t.checkedTakeOver b
  | none => return .blocked t

section

variable (hI : I.Coherent) (t : Timetable I) (b : Booking I)

include hI

omit hI in
theorem checkedBookingsOfCurriculum_eq {q : Nat} (h : q < I.curricula.size) :
    t.checkedBookingsOfCurriculum q = some (t.bookingsOfCurriculum q) := by
  simp [checkedBookingsOfCurriculum, bookingsOfCurriculum, curriculumIx?, h]

theorem checkedClash_eq : t.checkedClash b = some (t.clash? b) := by
  simp only [checkedClash, hI.checkedMemberships_eq, clash?, curriculumTaken?, Option.bind_eq_bind,
    Option.bind_some]
  generalize (memberships b.course).find? (fun q => (t.bookingOf? q b.slot).isSome) = taken
  cases taken with
  | some q => rfl
  | none =>
    by_cases hteacher : t.teacherTaken b.course b.slot = true
    · simp [hteacher]
    · by_cases hroom : t.roomTaken b.room b.slot = true <;> simp [hteacher, hroom]

theorem checkedAdmits_eq : t.checkedAdmits b = some (t.admits b) := by
  simp [checkedAdmits, checkedClash_eq hI, admits]

theorem checkedPut_eq : t.checkedPut b = some (t.put b) := by
  simp [checkedPut, hI.checkedMemberships_eq, put]

theorem checkedCut_eq : t.checkedCut b = some (t.cut b) := by
  simp [checkedCut, hI.checkedMemberships_eq, cut]

theorem checkedPlace_eq : t.checkedPlace b = some (t.place b) := by
  cases hclash : t.clash? b <;> simp [checkedPlace, checkedClash_eq hI, checkedPut_eq hI, place, hclash]

theorem checkedLift_eq : t.checkedLift b = some (t.lift? b) := by
  simp only [checkedLift, checkedCut_eq hI, lift?, List.contains_iff_mem]
  split <;> rfl

theorem checkedTakeOver_eq : t.checkedTakeOver b = some (t.takeOver b) := by
  rw [checkedTakeOver, takeOver]
  generalize t.inTheWay b = blockers
  rcases blockers with _ | ⟨old, _ | ⟨_, _⟩⟩
  · cases hadmits : t.admits b <;> simp [checkedAdmits_eq hI, checkedPut_eq hI, hadmits]
  · cases hadmits : ((t.lift? old).getD t).admits b <;>
      simp [checkedLift_eq hI, checkedAdmits_eq hI, checkedPut_eq hI, lifted, hadmits]
  · rfl

theorem checkedAdd_eq (m : RoomMeeting) : t.checkedAdd m = some (t.add m) := by
  cases hm : m.booking? I <;> simp [checkedAdd, add, hm, checkedPlace_eq hI]

theorem checkedRemove_eq (m : RoomMeeting) : t.checkedRemove m = some ((t.remove? m).getD t) := by
  cases hm : m.booking? I <;> simp [checkedRemove, remove?, hm, checkedLift_eq hI]

theorem checkedReplace_eq (m : RoomMeeting) : t.checkedReplace m = some (t.replace m) := by
  cases hm : m.booking? I <;> simp [checkedReplace, replace, hm, checkedTakeOver_eq hI]

end

end Timetable

end Timetabling
