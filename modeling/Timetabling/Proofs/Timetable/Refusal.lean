import Timetabling.Proofs.Timetable.History

/-! What a timetable says to a meeting. The tables are asked in a fixed order: whether the meeting
    exists, whether a curriculum of its course is taught at the slot, whether its teacher is busy,
    whether its room is in use. `Refusal` puts the answers in terms of the set of bookings, and each
    of them is right because each table tells of that set. -/

namespace Timetabling

open Instance

variable {I : Instance}

/-- Course, room, day and period of the meeting exist. -/
structure RoomMeeting.OnGrid (I : Instance) (m : RoomMeeting) : Prop where
  course_lt : m.course < I.courses.size
  room_lt : m.room < I.rooms.size
  day_lt : m.day < I.days
  period_lt : m.period < I.periods

namespace RoomMeeting.OnGrid

variable {m : RoomMeeting}

/-- The booking that a meeting on the grid is. -/
def booking (h : m.OnGrid I) : Booking I where
  course := ⟨m.course, h.course_lt⟩
  slot := ⟨I.slotNumber m.day m.period, I.slotNumber_lt h.day_lt h.period_lt⟩
  room := ⟨m.room, h.room_lt⟩

theorem booking?_eq (h : m.OnGrid I) : m.booking? I = some h.booking := by
  simp [booking?, booking, courseIx?, roomIx?, slotAt?, h.course_lt, h.room_lt, h.day_lt,
    h.period_lt]

end RoomMeeting.OnGrid

theorem Booking.onGrid_meeting (b : Booking I) : b.meeting.OnGrid I where
  course_lt := b.course.isLt
  room_lt := b.room.isLt
  day_lt := dayOf_lt b.slot
  period_lt := periodOf_lt b.slot

theorem RoomMeeting.booking?_eq_none_iff {m : RoomMeeting} : m.booking? I = none ↔ ¬m.OnGrid I := by
  constructor
  · intro hm h
    rw [h.booking?_eq] at hm
    cases hm
  · intro h
    cases hm : m.booking? I with
    | none => rfl
    | some b => exact absurd (booking?_eq_some_iff.1 hm ▸ b.onGrid_meeting) h

namespace Timetable

open Booking

/-- A course of the curriculum with this number is booked at the slot. -/
def Taught (M : Finset (Booking I)) (s : Slot I) (n : Nat) : Prop :=
  ∃ o ∈ M, o.slot = s ∧ n ∈ curriculaOf o.course

/-- The teacher of the course is booked at the slot. -/
def TeacherBusy (M : Finset (Booking I)) (s : Slot I) (c : CourseIx I) : Prop :=
  ∃ o ∈ M, o.slot = s ∧ teacherOf o.course = teacherOf c

/-- The room is booked at the slot. -/
def RoomBusy (M : Finset (Booking I)) (s : Slot I) (r : RoomIx I) : Prop :=
  ∃ o ∈ M, o.room = r ∧ o.slot = s

/-- What is told to a booking that the set keeps out. Only the first reason is told: a curriculum
    before the teacher, the teacher before the room, and of the curricula of the course the first one
    that is taught. -/
inductive Refusal (M : Finset (Booking I)) (b : Booking I) : Clash → Prop
  | curriculum {ns ns' : List Nat} {n : Nat} (hsplit : curriculaOf b.course = ns ++ n :: ns')
      (hbefore : ∀ k ∈ ns, ¬Taught M b.slot k) (htaught : Taught M b.slot n) :
      Refusal M b (.curriculum b.course n b.slot)
  | teacher (hfree : ∀ n ∈ curriculaOf b.course, ¬Taught M b.slot n)
      (hbusy : TeacherBusy M b.slot b.course) : Refusal M b (.teacher b.course b.slot)
  | room (hfree : ∀ n ∈ curriculaOf b.course, ¬Taught M b.slot n)
      (hteacher : ¬TeacherBusy M b.slot b.course) (hbusy : RoomBusy M b.slot b.room) :
      Refusal M b (.room b.room b.slot)

variable {t u : Timetable I} {M : Finset (Booking I)} {b : Booking I} {c : CourseIx I} {s : Slot I}

/-! ### What the tables say first -/

/-- The cell of the curriculum at the slot, by number. -/
theorem Keeps.any_bookingOf?_iff (h : t.Keeps M) (hI : I.Coherent) {n : Nat} :
    ((I.curriculumIx? n).any fun q => (t.bookingOf? q s).isSome) = true ↔ Taught M s n := by
  simp only [Option.any_eq_true, curriculumIx?_eq_some_iff, Option.isSome_iff_exists,
    h.bookingOf?_eq_some_iff, mem_memberships, Taught]
  constructor
  · rintro ⟨q, rfl, o, ho⟩
    exact ⟨o, ho⟩
  · -- a course belongs to no curriculum that does not exist
    rintro ⟨o, ho, hs, hn⟩
    exact ⟨⟨n, hI.lt_of_mem_curriculaOf hn⟩, rfl, o, ho, hs, hn⟩

theorem curriculumTaken?_eq_bind : t.curriculumTaken? c s = ((curriculaOf c).find? fun n =>
    (I.curriculumIx? n).any fun q => (t.bookingOf? q s).isSome).bind I.curriculumIx? :=
  List.find?_filterMap ..

/-- The curriculum that is found is the first one of the course that is taught. -/
theorem Keeps.curriculumTaken?_eq_some_iff (h : t.Keeps M) (hI : I.Coherent) {q : CurriculumIx I} :
    t.curriculumTaken? c s = some q ↔ Taught M s q ∧
      ∃ ns ns', curriculaOf c = ns ++ q.val :: ns' ∧ ∀ k ∈ ns, ¬Taught M s k := by
  simp only [curriculumTaken?_eq_bind, Option.bind_eq_some_iff, curriculumIx?_eq_some_iff,
    exists_eq_right', List.find?_eq_some_iff_append, h.any_bookingOf?_iff hI, Bool.not_eq_true',
    ← Bool.not_eq_true]

theorem Keeps.curriculumTaken?_eq_none_iff (h : t.Keeps M) (hI : I.Coherent) :
    t.curriculumTaken? c s = none ↔ ∀ n ∈ curriculaOf c, ¬Taught M s n := by
  rw [← Option.not_isSome_iff_eq_none, h.curriculumTaken?_isSome_iff hI]
  simp only [shareCurriculum, List.any_eq_true, List.contains_iff_mem, Taught]
  grind

/-- The order in which the tables are asked is the order of the reasons. -/
theorem Keeps.clash?_eq_some_iff (h : t.Keeps M) (hI : I.Coherent) {e : Clash} :
    t.clash? b = some e ↔ Refusal M b e := by
  constructor
  · intro he
    cases hq : t.curriculumTaken? b.course b.slot with
    | some q =>
      obtain ⟨htaught, ns, ns', hsplit, hbefore⟩ := (h.curriculumTaken?_eq_some_iff hI).1 hq
      simp only [clash?, hq, Option.some.injEq] at he
      exact he ▸ .curriculum hsplit hbefore htaught
    | none =>
      have hfree := (h.curriculumTaken?_eq_none_iff hI).1 hq
      simp only [clash?, hq] at he
      split at he
      · rename_i hteacher
        exact Option.some.inj he ▸ .teacher hfree (h.teacherTaken_iff.1 hteacher)
      · rename_i hteacher
        split at he
        · rename_i hroom
          exact Option.some.inj he ▸
            .room hfree (mt h.teacherTaken_iff.2 hteacher) (h.roomTaken_iff.1 hroom)
        · cases he
  · -- each reason denies those before it, so the tables that are asked first say nothing
    intro he
    cases he with
    | curriculum hsplit hbefore htaught =>
      obtain ⟨q, -, rfl⟩ := hI.exists_membership (hsplit ▸ List.mem_append_cons_self)
      have hq := (h.curriculumTaken?_eq_some_iff hI).2 ⟨htaught, _, _, hsplit, hbefore⟩
      simp [clash?, hq]
    | teacher hfree hbusy =>
      have hq := (h.curriculumTaken?_eq_none_iff hI).2 hfree
      simp [clash?, hq, h.teacherTaken_iff.2 hbusy]
    | room hfree hteacher hbusy =>
      have hq := (h.curriculumTaken?_eq_none_iff hI).2 hfree
      simp [clash?, hq, mt h.teacherTaken_iff.1 hteacher, h.roomTaken_iff.2 hbusy]

/-! ### Meetings -/

theorem place_eq_error_iff {e : Clash} : t.place b = .error e ↔ t.clash? b = some e := by
  cases h : t.clash? b <;> simp [place, h]

theorem add_eq_place {m : RoomMeeting} (h : m.OnGrid I) : t.add m = t.place h.booking := by
  simp [add, h.booking?_eq]

theorem add_eq_offGrid {m : RoomMeeting} (h : ¬m.OnGrid I) :
    t.add m = .error (.offGrid m.course) := by
  simp [add, RoomMeeting.booking?_eq_none_iff.2 h]

theorem remove?_eq_lift? {m : RoomMeeting} (h : m.OnGrid I) : t.remove? m = t.lift? h.booking := by
  simp [remove?, h.booking?_eq]

theorem Keeps.add_eq_error_iff (h : t.Keeps M) (hI : I.Coherent) {m : RoomMeeting} (hm : m.OnGrid I)
    {e : Clash} : t.add m = .error e ↔ Refusal M hm.booking e := by
  rw [add_eq_place hm, place_eq_error_iff, h.clash?_eq_some_iff hI]

/-- A booking is never told that it does not exist. -/
theorem not_refusal_offGrid {n : Nat} : ¬Refusal M b (.offGrid n) := nofun

/-- A booking that nothing keeps out finds its slot free. -/
theorem Keeps.free_of_not_refusal (h : t.Keeps M) (hI : I.Coherent) (hno : ∀ e, ¬Refusal M b e) :
    Free M b := by
  refine (h.clash?_eq_none_iff_free hI).1 (Option.eq_none_iff_forall_ne_some.2 ?_)
  intro e he
  exact hno e ((h.clash?_eq_some_iff hI).1 he)

/-- What the timetable does with the meeting follows from the set of bookings. -/
structure Decides (t : Timetable I) (M : Finset (Booking I)) (m : RoomMeeting) : Prop where
  offGrid_iff : t.add m = .error (.offGrid m.course) ↔ ¬m.OnGrid I
  /-- On the grid a meeting is kept out for the first reason there is. -/
  error_iff : ∀ (h : m.OnGrid I) (e : Clash), t.add m = .error e ↔ Refusal M h.booking e
  added : ∀ h : m.OnGrid I, (∀ e, ¬Refusal M h.booking e) →
    ∃ u, t.add m = .ok u ∧ u.Represents (insert h.booking M)
  unchanged : ∀ e, t.add m = .error e → t.edit (.add m) = t
  admits_iff : t.admitsMeeting m = true ↔ (∃ u, t.add m = .ok u) ∧
    I.isAvailable m.course (I.slotNumber m.day m.period) = true ∧
    I.isSuitable m.course m.room = true
  removed : ∀ h : m.OnGrid I, h.booking ∈ M →
    ∃ u, t.remove? m = some u ∧ u.Represents (M.erase h.booking)
  /-- A meeting whose course is there in another room is not taken away either. -/
  notRemoved : (∀ h : m.OnGrid I, h.booking ∉ M) → t.remove? m = none ∧ t.edit (.remove m) = t

theorem admitsMeeting_iff {m : RoomMeeting} : t.admitsMeeting m = true ↔
    (∃ u, t.add m = .ok u) ∧ I.isAvailable m.course (I.slotNumber m.day m.period) = true ∧
      I.isSuitable m.course m.room = true := by
  by_cases hm : m.OnGrid I
  · simp only [admitsMeeting, hm.booking?_eq, Option.any_some, admits, Bool.and_eq_true, and_assoc,
      add_eq_place hm, place_eq_ok_iff, exists_and_left, exists_eq', and_true,
      Option.isNone_iff_eq_none]
    -- the numbers of the meeting are those of its booking
    rfl
  · simp [admitsMeeting, RoomMeeting.booking?_eq_none_iff.2 hm, add_eq_offGrid hm]

theorem Keeps.remove?_eq_none (h : t.Keeps M) {m : RoomMeeting}
    (hm : ∀ hm : m.OnGrid I, hm.booking ∉ M) : t.remove? m = none := by
  by_cases hgrid : m.OnGrid I
  · simp [remove?_eq_lift? hgrid, lift?, h.mem_bookingsOf, hm hgrid]
  · simp [remove?, RoomMeeting.booking?_eq_none_iff.2 hgrid]

theorem Represents.decides (h : t.Represents M) (hI : I.Coherent) (m : RoomMeeting) :
    t.Decides M m where
  offGrid_iff := by
    constructor
    · intro he hm
      exact not_refusal_offGrid ((h.add_eq_error_iff hI hm).1 he)
    · exact add_eq_offGrid
  error_iff hm _ := h.add_eq_error_iff hI hm
  added hm hno := by
    have hfree := h.free_of_not_refusal hI hno
    refine ⟨t.put hm.booking, ?_, h.put hfree⟩
    rw [add_eq_place hm]
    exact place_eq_ok_iff.2 ⟨(h.clash?_eq_none_iff_free hI).2 hfree, rfl⟩
  unchanged e he := by simp [edit, he, Except.toOption]
  admits_iff := admitsMeeting_iff
  removed hm hb := by
    refine ⟨t.cut hm.booking, ?_, h.cut hb⟩
    rw [remove?_eq_lift? hm]
    exact lift?_eq_some_iff.2 ⟨h.mem_bookingsOf.2 ⟨hb, rfl⟩, rfl⟩
  notRemoved hm := by
    have hnone := h.remove?_eq_none hm
    exact ⟨hnone, by simp [edit, hnone]⟩

/-- A timetable that came about by changes represents a set of bookings, and what it does with any
    meeting, to add it, to admit it or to remove it, follows from that set. -/
theorem decides_ofEdits {r : Records} {I : Instance} (h : r.resolve = .ok I)
    (es : List (Edit RoomMeeting)) :
    ∃ M : Finset (Booking I), (ofEdits es).Represents M ∧ ∀ m, (ofEdits es).Decides M m := by
  have hI := Records.coherent_of_resolve h
  obtain ⟨M, hM⟩ := exists_represents hI es
  exact ⟨M, hM, hM.decides hI⟩

/-- Algebra in the hall keeps optics out of the attic at the same slot: they share a curriculum. -/
theorem decides_ofEdits_pair : ∃ M : Finset (Booking pair),
    (ofEdits [.add ⟨0, 1, 0, 0⟩]).Represents M ∧
      (∀ m, (ofEdits [.add ⟨0, 1, 0, 0⟩]).Decides M m) ∧
      ∃ h : RoomMeeting.OnGrid pair ⟨1, 1, 0, 1⟩, Refusal M h.booking (.curriculum 1 0 1) := by
  obtain ⟨M, hM, hdecides⟩ := decides_ofEdits Records.resolve_pair [.add ⟨0, 1, 0, 0⟩]
  have hgrid : RoomMeeting.OnGrid pair ⟨1, 1, 0, 1⟩ := ⟨by decide, by decide, by decide, by decide⟩
  have hadd : (ofEdits [.add ⟨0, 1, 0, 0⟩] : Timetable pair).add ⟨1, 1, 0, 1⟩ =
      .error (.curriculum 1 0 1) := by decide
  exact ⟨M, hM, hdecides, hgrid, ((hdecides _).error_iff hgrid _).1 hadd⟩

end Timetable

end Timetabling
