import Timetabling.Proofs.Allotment.Rounds
import Timetabling.Proofs.Instance.Resolution
import Timetabling.Rooming

/-! Courses for which the rooms run out. A course that gets none has fewer suitable rooms than there are
    courses, for each of those rooms went to another course. So rooms are enough when each course has as
    many to choose from as there are courses, and where no room is kept from any course only the number
    of rooms matters. A draft looks at that number before it admits a course, so there a course that is
    admitted fits. -/

namespace Timetabling

open Instance

variable {I : Instance}

/-- When courses get rooms and when they do not, as far as it can be told from how many there are. -/
structure Scarcity (cs : List (CourseIx I)) : Prop where
  /-- A course that gets no room asked for one, and fewer rooms suit it than courses ask. -/
  short_of_error : ∀ c, allot cs = .error c → c ∈ cs ∧ (suitableRooms c).length < cs.length
  /-- Courses that can each use as many rooms as there are courses get rooms. -/
  exists_ok_of_le : (∀ c ∈ cs, cs.length ≤ (suitableRooms c).length) → ∃ rs, allot cs = .ok rs
  /-- Courses to which no different suitable rooms can be assigned at all get none. -/
  exists_error : (¬∃ rs, Assigned cs rs) → ∃ c, allot cs = .error c

/-- How it is where every course may use every room. -/
structure Unrestricted (I : Instance) : Prop where
  exists_ok_iff : ∀ cs : List (CourseIx I), (∃ rs, allot cs = .ok rs) ↔ cs.length ≤ I.rooms.size
  fitsMeeting_eq : ∀ (d : Draft I) (m : Meeting), d.fitsMeeting m = d.canAdd m

variable {cs : List (CourseIx I)} {rs : List (RoomIx I)} {c : CourseIx I} {s : Slot I}

/-! ### Rooms that are enough -/

theorem exists_allot_of_le (h : ∀ c ∈ cs, cs.length ≤ (suitableRooms c).length) :
    ∃ rs, allot cs = .ok rs := by
  cases hout : allot cs with
  | ok rs => exact ⟨rs, rfl⟩
  | error c =>
    obtain ⟨hc, hlt⟩ := lt_length_of_allot hout
    exact absurd (h c hc) (not_le.2 hlt)

theorem exists_error_of_not_assigned (h : ¬∃ rs, Assigned cs rs) : ∃ c, allot cs = .error c := by
  cases hout : allot cs with
  | ok rs => exact absurd ⟨rs, assigned_of_allot hout⟩ h
  | error c => exact ⟨c, rfl⟩

theorem scarcity (cs : List (CourseIx I)) : Scarcity cs where
  short_of_error _ := lt_length_of_allot
  exists_ok_of_le := exists_allot_of_le
  exists_error := exists_error_of_not_assigned

theorem allottable_iff : allottable cs = true ↔ ∃ rs, allot cs = .ok rs := by
  constructor
  · intro h
    cases hout : allot cs with
    | ok rs => exact ⟨rs, rfl⟩
    | error c => exact absurd h (not_allottable_of_allot hout)
  · rintro ⟨rs, hrs⟩
    exact allottable_of_allot hrs

/-! ### Where no room is kept from a course -/

/-- Different rooms are never more than there are. -/
theorem Assigned.length_le (h : Assigned cs rs) : cs.length ≤ I.rooms.size := by
  rw [h.suitable.length_eq, ← Fintype.card_fin I.rooms.size]
  exact h.nodup.length_le_card

theorem length_suitableRooms (h : ∀ r : RoomIx I, I.isSuitable c r = true) :
    (suitableRooms c).length = I.rooms.size := by
  have hall : suitableRooms c = List.finRange I.rooms.size :=
    List.filter_eq_self.2 fun r _ => h r
  rw [hall, List.length_finRange]

section

variable (h : ∀ (c : CourseIx I) (r : RoomIx I), I.isSuitable c r = true)

include h

theorem exists_allot_iff_length_le : (∃ rs, allot cs = .ok rs) ↔ cs.length ≤ I.rooms.size := by
  constructor
  · rintro ⟨rs, hrs⟩
    exact (assigned_of_allot hrs).length_le
  · intro hlen
    refine exists_allot_of_le fun c _ => ?_
    rwa [length_suitableRooms (h c)]

/-- A slot that admits a course has a room left for it besides those of the courses there. -/
theorem Draft.fits_eq_admits (d : Draft I) (c : CourseIx I) (s : Slot I) :
    d.fits c s = d.admits c s := by
  rw [fits, Bool.and_eq_left_iff_imp]
  intro ha
  rw [allottable_iff, exists_allot_iff_length_le h, length_insertAscending]
  simp only [admits, Bool.and_eq_true, decide_eq_true_eq] at ha
  exact ha.1.1.1

theorem unrestricted_of_isSuitable : Unrestricted I where
  exists_ok_iff _ := exists_allot_iff_length_le h
  fitsMeeting_eq d m := by simp only [Draft.fitsMeeting, Draft.canAdd, d.fits_eq_admits h]

end

/-- A room suits a course unless a record keeps it from the course. -/
theorem isSuitable_iff_of_resolve {r : Records} {I : Instance} (h : r.resolve = .ok I) (c : CourseIx I)
    (x : RoomIx I) :
    I.isSuitable c x = false ↔ ⟨(course c).id, (room x).id⟩ ∈ r.roomConstraints := by
  have hsound := (Records.valid_of_resolve h).toSound
  obtain ⟨_, _, _, -, -, hforbidden, rfl⟩ :=
    Records.link?_eq_some_iff.1 (Records.link?_eq_some_of_resolve h)
  exact Records.isSuitable_linked hsound hforbidden c x

/-- A course that gets no room is one of those that ask, and more of them ask than rooms suit it. So
    they all get rooms when each of them can use as many as they are, and they do not when different
    suitable rooms do not exist. Without room constraints they get rooms just when there are as many
    rooms as courses, and then a meeting fits a draft just when it can be added. -/
theorem scarcity_of_resolve {r : Records} {I : Instance} (h : r.resolve = .ok I) :
    (∀ cs : List (CourseIx I), Scarcity cs) ∧ (r.roomConstraints = [] → Unrestricted I) := by
  refine ⟨scarcity, ?_⟩
  intro hnone
  refine unrestricted_of_isSuitable fun c x => ?_
  by_contra hx
  have hmem := (isSuitable_iff_of_resolve h c x).1 (Bool.eq_false_of_not_eq_true hx)
  rw [hnone] at hmem
  cases hmem

/-- Three courses, two rooms and nothing that keeps a room from a course. -/
def Records.crowd : Records where
  days := 1
  periods := 1
  courses := [⟨"algebra", "noether", 1, 1, 10, false, [], 0⟩,
    ⟨"optics", "meitner", 1, 1, 20, false, [], 0⟩,
    ⟨"logic", "peter", 1, 1, 30, false, [], 0⟩]
  rooms := [⟨"hall", 20, 0⟩, ⟨"attic", 10, 0⟩]

/-- What the records of the crowd stand for. -/
def Instance.crowd : Instance where
  name := ""
  days := 1
  periods := 1
  daily := ⟨0, 0⟩
  courses := #[⟨"algebra", "noether", 1, 1, 10, false, [], 0⟩,
    ⟨"optics", "meitner", 1, 1, 20, false, [], 1⟩,
    ⟨"logic", "peter", 1, 1, 30, false, [], 2⟩]
  rooms := #[⟨"hall", 20, 0⟩, ⟨"attic", 10, 0⟩]
  curricula := #[]
  teachers := #["noether", "meitner", "peter"]
  unavailable := ⟨1, #[false, false, false]⟩
  forbidden := ⟨2, #[false, false, false, false, false, false]⟩

/-- The last of the three courses gets no room, any two of them do. -/
theorem scarcity_of_resolve_crowd :
    Records.crowd.resolve = .ok crowd ∧ Records.crowd.roomConstraints = [] ∧
    allot (List.finRange crowd.courses.size) = .error ⟨2, by decide⟩ ∧
    (suitableRooms (⟨2, by decide⟩ : CourseIx crowd)).length < 3 ∧
    (∀ a b : CourseIx crowd, ∃ rs, allot [a, b] = .ok rs) ∧
    ∀ (d : Draft crowd) (m : Meeting), d.fitsMeeting m = d.canAdd m := by
  obtain ⟨hscarce, hfree⟩ := scarcity_of_resolve (r := Records.crowd) (I := crowd) (by decide)
  refine ⟨by decide, rfl, by decide, ?_, ?_, (hfree rfl).fitsMeeting_eq⟩
  · exact ((hscarce (List.finRange crowd.courses.size)).short_of_error _ (by decide)).2
  · intro a b
    exact ((hfree rfl).exists_ok_iff [a, b]).2 (show 2 ≤ 2 from le_rfl)

end Timetabling
