import Timetabling.Proofs.Draft.History
import Timetabling.Proofs.Timetable.Representation

/-! Timetables that come about by changes. Whatever is asked of a timetable that began empty, course,
    day, period and room existing or not, it represents a set of bookings, and all that can be asked
    about it is answered from that set. -/

namespace Timetabling

open Instance

variable {I : Instance}

/-- The order of courses and, for one course, of slots. -/
def Booking.Before (a b : Booking I) : Prop :=
  a.course < b.course ∨ a.course = b.course ∧ a.slot < b.slot

theorem Booking.placement_meeting_eq_iff {b : Booking I} {m : Meeting} :
    b.placement.meeting = m ↔ b.course = m.course ∧ b.day = m.day ∧ b.period = m.period := by
  cases m
  simp [placement, Placement.meeting, day, period]

theorem Instance.slotNumber_dayOf_periodOf (s : Slot I) : I.slotNumber (dayOf s) (periodOf s) = s :=
  Nat.div_add_mod' ..

/-- A slot is known by its day and its period. -/
theorem Instance.eq_of_dayOf_periodOf {s s' : Slot I} (hd : dayOf s = dayOf s')
    (hp : periodOf s = periodOf s') : s = s' := by
  have h := slotAt?_dayOf_periodOf s
  rw [hd, hp, slotAt?_dayOf_periodOf] at h
  exact (Option.some.inj h).symm

namespace Timetable

open Booking

/-- The timetable after a change was asked for, granted or not. -/
def edit (t : Timetable I) : Edit RoomMeeting → Timetable I
  | .add m => (t.add m).toOption.getD t
  | .remove m => (t.remove? m).getD t
  | .replace m => (t.replace m).outcome

/-- The timetable after changes of an empty one. -/
def ofEdits (es : List (Edit RoomMeeting)) : Timetable I := es.foldl edit empty

/-- What is told about the timetable is told of the set of bookings. -/
structure Answers (t : Timetable I) (M : Finset (Booking I)) : Prop where
  find?_eq_some_iff : ∀ {m b}, t.find? m = some b ↔ b ∈ M ∧ b.placement.meeting = m
  mem_bookingsOfTeacher : ∀ {n b}, b ∈ t.bookingsOfTeacher n ↔ b ∈ M ∧ teacherOf b.course = n
  bookingsOfTeacher_ordered : ∀ n, (t.bookingsOfTeacher n).Pairwise Booking.Before
  mem_bookingsOfCurriculum : ∀ {n b}, b ∈ t.bookingsOfCurriculum n ↔
    b ∈ M ∧ n ∈ curriculaOf b.course
  bookingsOfCurriculum_ordered : ∀ n, (t.bookingsOfCurriculum n).Pairwise fun a b => a.slot < b.slot
  size_eq : t.size = M.card
  mem_slotsOfRoom : ∀ {r s}, s ∈ t.slotsOfRoom r ↔ ∃ b ∈ M, b.room = r ∧ b.slot = s
  slotsOfRoom_ordered : ∀ r, (t.slotsOfRoom r).Pairwise (· < ·)
  sameCurriculum?_eq : ∀ (c : CourseIx I) (day period : Nat), t.sameCurriculum? ⟨c, day, period⟩ =
    some (decide (∃ b ∈ M, b.day = day ∧ b.period = period ∧ shareCurriculum c b.course = true))
  sameTeacher?_eq : ∀ (c : CourseIx I) (day period : Nat), t.sameTeacher? ⟨c, day, period⟩ =
    some (decide (∃ b ∈ M, b.day = day ∧ b.period = period ∧ teacherOf b.course = teacherOf c))

variable {t : Timetable I} {M : Finset (Booking I)}

/-! ### One change -/

theorem Represents.exists_add (h : t.Represents M) (hI : I.Coherent) (m : RoomMeeting) :
    ∃ N, ((t.add m).toOption.getD t).Represents N := by
  cases hm : m.booking? I with
  | none => exact ⟨M, by simpa [add, hm, Except.toOption] using h⟩
  | some b =>
    cases hc : t.clash? b with
    | some e => exact ⟨M, by simpa [add, hm, place, hc, Except.toOption] using h⟩
    | none =>
      have hfree := (h.clash?_eq_none_iff_free hI).1 hc
      exact ⟨_, by simpa [add, hm, place, hc, Except.toOption] using h.put hfree⟩

theorem Represents.exists_remove (h : t.Represents M) (m : RoomMeeting) :
    ∃ N, ((t.remove? m).getD t).Represents N := by
  cases hm : m.booking? I with
  | none => exact ⟨M, by simpa [remove?, hm] using h⟩
  | some b =>
    have hremove : (t.remove? m).getD t = t.lifted b := by simp [remove?, hm, lifted]
    by_cases hb : b ∈ M
    · exact ⟨_, by rw [hremove, h.lifted_eq_cut hb]; exact h.cut hb⟩
    · exact ⟨M, by rw [hremove, h.lifted_eq_self hb]; exact h⟩

theorem Represents.exists_takeOver (h : t.Represents M) (hI : I.Coherent) (b : Booking I) :
    ∃ N, (t.takeOver b).outcome.Represents N := by
  rcases h.takeOver_cases hI b with ⟨hnone, -, he⟩ | ⟨old, hone, -, he⟩ | ⟨-, he⟩ <;> rw [he]
  · exact ⟨_, h.put (free_iff_hindrances.2 hnone)⟩
  · exact ⟨_, (h.cut (mem_of_hindrances_eq hone)).put (free_erase_of_hindrances hone)⟩
  · exact ⟨M, h⟩

theorem Represents.exists_edit (h : t.Represents M) (hI : I.Coherent) (e : Edit RoomMeeting) :
    ∃ N, (t.edit e).Represents N := by
  cases e with
  | add m => exact h.exists_add hI m
  | remove m => exact h.exists_remove m
  | replace m =>
    simp only [edit, replace]
    cases m.booking? I with
    | none => exact ⟨M, h⟩
    | some b => exact h.exists_takeOver hI b

theorem exists_represents (hI : I.Coherent) (es : List (Edit RoomMeeting)) :
    ∃ M : Finset (Booking I), (ofEdits es).Represents M := by
  induction es using List.reverseRecOn with
  | nil => exact ⟨∅, represents_empty⟩
  | append_singleton es e ih =>
    obtain ⟨M, hM⟩ := ih
    simpa [ofEdits, List.foldl_append] using hM.exists_edit hI e

/-! ### What is answered -/

theorem Represents.find?_eq_some_iff (h : t.Represents M) {m : Meeting} {b : Booking I} :
    t.find? m = some b ↔ b ∈ M ∧ b.placement.meeting = m := by
  simp only [find?, Option.bind_eq_some_iff, courseIx?_eq_some_iff, placement_meeting_eq_iff]
  constructor
  · rintro ⟨c, hc, hfind⟩
    have hmem := h.mem_bookingsOf.1 (List.mem_of_find?_eq_some hfind)
    have hat := List.find?_some hfind
    simp only [Bool.and_eq_true, decide_eq_true_eq] at hat
    exact ⟨hmem.1, by rw [hmem.2, hc], hat⟩
  · rintro ⟨hb, hc, hd, hp⟩
    refine ⟨b.course, hc, ?_⟩
    cases hfind : (t.bookingsOf b.course).find? fun x => x.day = m.day && x.period = m.period with
    | none =>
      have hnone := List.find?_eq_none.1 hfind b (h.mem_bookingsOf.2 ⟨hb, rfl⟩)
      simp [hd, hp] at hnone
    | some x =>
      -- the course is not booked twice at the day and period
      have hmem := h.mem_bookingsOf.1 (List.mem_of_find?_eq_some hfind)
      have hat := List.find?_some hfind
      simp only [Bool.and_eq_true, decide_eq_true_eq] at hat
      have hs : x.slot = b.slot :=
        eq_of_dayOf_periodOf (hat.1.trans hd.symm) (hat.2.trans hp.symm)
      rw [h.exclusive.eq_of_course hmem.1 hb hs hmem.2]

theorem Keeps.mem_bookingsOfCurriculum (h : t.Keeps M) (hI : I.Coherent) {n : Nat}
    {b : Booking I} : b ∈ t.bookingsOfCurriculum n ↔ b ∈ M ∧ n ∈ curriculaOf b.course := by
  by_cases hn : n < I.curricula.size
  · have hq : I.curriculumIx? n = some ⟨n, hn⟩ := curriculumIx?_eq_some_iff.2 rfl
    simp [bookingsOfCurriculum, hq, bookingsIn, h.bookingOf?_eq_some_iff]
  · have hq : I.curriculumIx? n = none := dif_neg hn
    simp only [bookingsOfCurriculum, hq, List.not_mem_nil, false_iff, not_and]
    exact fun _ hmem => hn (hI.lt_of_mem_curriculaOf hmem)

theorem Keeps.bookingsOfCurriculum_ordered (h : t.Keeps M) (n : Nat) :
    (t.bookingsOfCurriculum n).Pairwise fun a b => a.slot < b.slot := by
  unfold bookingsOfCurriculum
  split
  · refine List.pairwise_filterMap.2 ((List.pairwise_lt_finRange _).imp ?_)
    intro s s' hlt a ha b hb
    rw [(h.bookingOf?_eq_some_iff.1 ha).2.1, (h.bookingOf?_eq_some_iff.1 hb).2.1]
    exact hlt
  · exact .nil

theorem Keeps.bookingsOfTeacher_ordered (h : t.Keeps M) (n : Nat) :
    (t.bookingsOfTeacher n).Pairwise Booking.Before := by
  refine List.pairwise_flatMap.2 ⟨?_, ?_⟩
  · intro c _
    refine (h.ascending_bookingsOf c).imp_of_mem fun ha hb hlt => .inr ⟨?_, hlt⟩
    rw [(h.mem_bookingsOf.1 ha).2, (h.mem_bookingsOf.1 hb).2]
  · refine ((List.pairwise_lt_finRange _).filter _).imp fun hlt a ha b hb => .inl ?_
    rw [(h.mem_bookingsOf.1 ha).2, (h.mem_bookingsOf.1 hb).2]
    exact hlt

/-- A question about a day and a period is one about a slot, and off the grid there is no booking. -/
theorem exists_mem_at_iff {p : Booking I → Prop} {day period : Nat} :
    (∃ b ∈ M, b.day = day ∧ b.period = period ∧ p b) ↔
      ∃ s, I.slotAt? day period = some s ∧ ∃ b ∈ M, b.slot = s ∧ p b := by
  constructor
  · rintro ⟨b, hb, hd, hp, h⟩
    exact ⟨b.slot, slotAt?_eq_some_iff.2 ⟨hd.symm, hp.symm⟩, b, hb, rfl, h⟩
  · rintro ⟨s, hs, b, hb, rfl, h⟩
    obtain ⟨hd, hp⟩ := slotAt?_eq_some_iff.1 hs
    exact ⟨b, hb, hd.symm, hp.symm, h⟩

/-- A probe of slots that finds the right bookings finds them by day and period. -/
theorem probe_eq {p : Booking I → Prop} [DecidablePred p] {f : Slot I → Bool}
    (hf : ∀ s, f s = true ↔ ∃ b ∈ M, b.slot = s ∧ p b) (day period : Nat) :
    (I.slotAt? day period).any f = decide (∃ b ∈ M, b.day = day ∧ b.period = period ∧ p b) := by
  rw [Bool.eq_iff_iff, decide_eq_true_iff, Option.any_eq_true, exists_mem_at_iff]
  exact exists_congr fun s => and_congr_right fun _ => hf s

theorem sameCurriculum?_eq_some (c : CourseIx I) (day period : Nat) :
    t.sameCurriculum? ⟨c, day, period⟩ =
      some ((I.slotAt? day period).any fun s => (t.curriculumTaken? c s).isSome) := by
  have hc : I.courseIx? c = some c := courseIx?_eq_some_iff.2 rfl
  cases hs : I.slotAt? day period <;> simp [sameCurriculum?, hs, hc]

theorem sameTeacher?_eq_some (c : CourseIx I) (day period : Nat) :
    t.sameTeacher? ⟨c, day, period⟩ =
      some ((I.slotAt? day period).any fun s => t.teacherTaken c s) := by
  have hc : I.courseIx? c = some c := courseIx?_eq_some_iff.2 rfl
  cases hs : I.slotAt? day period <;> simp [sameTeacher?, hs, hc]

theorem Represents.answers (h : t.Represents M) (hI : I.Coherent) : t.Answers M where
  find?_eq_some_iff := h.find?_eq_some_iff
  mem_bookingsOfTeacher {n b} := by
    simp only [bookingsOfTeacher, coursesOfTeacher, List.mem_flatMap, List.mem_filter,
      List.mem_finRange, true_and, decide_eq_true_eq, h.mem_bookingsOf]
    constructor
    · rintro ⟨c, hc, hb, rfl⟩
      exact ⟨hb, hc⟩
    · rintro ⟨hb, hn⟩
      exact ⟨b.course, hn, hb, rfl⟩
  bookingsOfTeacher_ordered := h.bookingsOfTeacher_ordered
  mem_bookingsOfCurriculum := h.mem_bookingsOfCurriculum hI
  bookingsOfCurriculum_ordered := h.bookingsOfCurriculum_ordered
  size_eq := h.size_eq
  mem_slotsOfRoom := by simp [slotsOfRoom, h.roomTaken_iff]
  slotsOfRoom_ordered r := (List.pairwise_lt_finRange _).filter _
  sameCurriculum?_eq c day period := by
    rw [sameCurriculum?_eq_some, probe_eq fun _ => h.curriculumTaken?_isSome_iff hI]
  sameTeacher?_eq c day period := by
    rw [sameTeacher?_eq_some, probe_eq fun _ => h.teacherTaken_iff]

/-- A timetable that came about by changes represents a set of bookings, and tells of it. -/
theorem exists_bookings_ofEdits {r : Records} {I : Instance} (h : r.resolve = .ok I)
    (es : List (Edit RoomMeeting)) :
    ∃ M : Finset (Booking I), (ofEdits es).Represents M ∧ (ofEdits es).Answers M := by
  have hI := Records.coherent_of_resolve h
  obtain ⟨M, hM⟩ := exists_represents hI es
  exact ⟨M, hM, hM.answers hI⟩

/-- The second course takes the place of the first, and the last change finds nothing to remove. -/
theorem exists_bookings_ofEdits_pair : ∃ M : Finset (Booking pair),
    M = {⟨⟨1, by decide⟩, ⟨1, by decide⟩, ⟨1, by decide⟩⟩} ∧
      (ofEdits [.add ⟨0, 1, 0, 0⟩, .replace ⟨1, 1, 0, 1⟩, .remove ⟨9, 0, 0, 0⟩]).Represents M ∧
      (ofEdits [.add ⟨0, 1, 0, 0⟩, .replace ⟨1, 1, 0, 1⟩, .remove ⟨9, 0, 0, 0⟩]).Answers M := by
  obtain ⟨M, hM, hanswers⟩ := exists_bookings_ofEdits Records.resolve_pair
    [.add ⟨0, 1, 0, 0⟩, .replace ⟨1, 1, 0, 1⟩, .remove ⟨9, 0, 0, 0⟩]
  have hbookings : (ofEdits [.add ⟨0, 1, 0, 0⟩, .replace ⟨1, 1, 0, 1⟩, .remove ⟨9, 0, 0, 0⟩] :
      Timetable pair).bookings = [⟨⟨1, by decide⟩, ⟨1, by decide⟩, ⟨1, by decide⟩⟩] := by decide
  refine ⟨M, Finset.ext fun b => ?_, hM, hanswers⟩
  rw [← hM.mem_bookings, hbookings, List.mem_singleton, Finset.mem_singleton]

end Timetable

end Timetabling
