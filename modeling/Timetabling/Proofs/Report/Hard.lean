import Mathlib.Algebra.Order.BigOperators.Group.Finset
import Timetabling.Proofs.Report
import Timetabling.Proofs.Timetable.History

/-! The hard counts of a report, for every timetable that came about by changes. Conflicts are never
    found, since the tables that the report looks at tell of the same bookings as those that kept a
    clash out. The lectures that are wanted and those to spare balance the bookings and the lectures
    that lack, and the other two counts are numbers of bookings. Only the lectures that lack can be too
    many for 64 bits: where they are, the balance holds of what is kept of both sides, and the
    timetable is found feasible when the violations are a multiple of `2 ^ 64`. -/

namespace Timetabling

open Instance

variable {I : Instance}

/-! ### Sums that balance -/

theorem tally_map {α β : Type} (count : β → Nat) (f : α → β) (xs : List α) :
    tally count (xs.map f) = tally (fun x => count (f x)) xs := by
  induction xs with
  | nil => rfl
  | cons x xs ih => rw [List.map_cons, tally_cons, tally_cons, ih]

/-- One sum and what the other exceeds it by, entry by entry, are as much as the other way round. -/
theorem tally_add_tally_sub {α : Type} (f g : α → Nat) (xs : List α) :
    tally f xs + tally (fun x => g x - f x) xs = tally g xs + tally (fun x => f x - g x) xs := by
  induction xs with
  | nil => rfl
  | cons x xs ih =>
    simp only [tally_cons]
    omega

theorem Instance.lectureTotal_eq (I : Instance) :
    I.lectureTotal = tally wanted (List.finRange I.courses.size) := by
  have hcourses : I.courses.toList = (List.finRange I.courses.size).map course :=
    (List.map_getElem_finRange I.courses.toList).symm
  rw [lectureTotal, hcourses, tally_map]
  rfl

namespace Timetable

open Booking

variable {t : Timetable I} {M : Finset (Booking I)}

/-! ### Counts of bookings -/

theorem lectureTotal_add_extraLectures (t : Timetable I) :
    I.lectureTotal + overCourses t.extraLectures = t.size + overCourses t.missingLectures := by
  rw [I.lectureTotal_eq]
  exact tally_add_tally_sub wanted t.lectures (List.finRange I.courses.size)

/-- What 64 bits keep of the two sides is the same. -/
theorem wrap_lectureCount_add_extraLectures (t : Timetable I) :
    wrap (I.lectureCount + t.report.extraLectures) = wrap (t.size + t.report.missingLectures) := by
  have htotal := congrArg wrap t.lectureTotal_add_extraLectures
  simpa only [lectureCount, wrap_wrap_add, report, Report.wrapped, wrap_add_wrap, violations] using htotal

theorem extraLectures_le_size (t : Timetable I) : overCourses t.extraLectures ≤ t.size := by
  rw [overCourses, size, tally_finRange, tally_finRange]
  exact Finset.sum_le_sum fun c _ => Nat.sub_le ..

/-- Counting course by course what fails a test counts all bookings that fail it. -/
theorem Keeps.overCourses_countP (h : t.Keeps M) (p : CourseIx I → Booking I → Bool) :
    overCourses (fun c => (t.bookingsOf c).countP fun b => !p c b) =
      (M.filter fun b => p b.course b = false).card := by
  have hcourse : ∀ c, (t.bookingsOf c).countP (fun b => !p c b) =
      ((M.filter fun b => p b.course b = false).filter fun b => b.course = c).card := by
    intro c
    rw [List.countP_eq_length_filter]
    symm
    refine card_eq_length_of_mem_iff Function.injective_id
      ((h.ascending_bookingsOf c).nodup.filter _) ?_
    intro b
    simp only [Finset.mem_filter, List.map_id, List.mem_filter, h.mem_bookingsOf,
      Bool.not_eq_true']
    constructor
    · rintro ⟨⟨hb, hp⟩, rfl⟩
      exact ⟨⟨hb, rfl⟩, hp⟩
    · rintro ⟨⟨hb, rfl⟩, hp⟩
      exact ⟨⟨hb, hp⟩, rfl⟩
  rw [overCourses, tally_finRange]
  simp only [hcourse]
  exact (Finset.card_eq_sum_card_fiberwise fun b _ => Finset.mem_univ b.course).symm

/-- No more lectures lack than are wanted, and a booking can be to spare, at a wrong slot and in a wrong
    room. -/
theorem Represents.hardTotal_le (h : t.Represents M) (hI : I.Coherent) :
    t.violations.hardTotal ≤ I.lectureTotal + 3 * t.size := by
  have hbalance := t.lectureTotal_add_extraLectures
  have hextra := t.extraLectures_le_size
  have hsize := h.toKeeps.size_eq
  have hslots : overCourses t.unavailableSlots ≤ M.card :=
    (h.overCourses_countP fun c b => I.isAvailable c b.slot).trans_le (Finset.card_filter_le ..)
  have hrooms : overCourses t.unsuitableRooms ≤ M.card :=
    (h.overCourses_countP fun c b => I.isSuitable c b.room).trans_le (Finset.card_filter_le ..)
  rw [h.hardTotal_violations hI]
  omega

/-- What a report says of the hard constraints, in terms of the bookings. -/
structure HardCounts (t : Timetable I) (M : Finset (Booking I)) : Prop where
  curriculumConflicts : t.report.curriculumConflicts = 0
  teacherConflicts : t.report.teacherConflicts = 0
  roomConflicts : t.report.roomConflicts = 0
  wrap_lectures :
    wrap (I.lectureCount + t.report.extraLectures) = wrap (t.size + t.report.missingLectures)
  lectures : I.lectureTotal < UInt64.size →
    I.lectureCount + t.report.extraLectures = t.size + t.report.missingLectures
  unavailableSlots : t.report.unavailableSlots =
    (M.filter fun b => I.isAvailable b.course b.slot = false).card
  unsuitableRooms : t.report.unsuitableRooms =
    (M.filter fun b => I.isSuitable b.course b.room = false).card
  feasible_iff : t.Feasible ↔ (∀ c, count M c = (course c).lectures) ∧ ∀ b ∈ M, b.Suited
  wrap_hard : t.report.hard = wrap t.violations.hardTotal
  isFeasible_of_feasible : t.Feasible → t.report.isFeasible = true
  isFeasible_iff : I.lectureTotal + 3 * t.size < UInt64.size →
    (t.report.isFeasible = true ↔ (∀ c, count M c = (course c).lectures) ∧ ∀ b ∈ M, b.Suited)

theorem Represents.hardCounts (h : t.Represents M) (hI : I.Coherent) : t.HardCounts M := by
  have hfeasible : t.Feasible ↔ (∀ c, count M c = (course c).lectures) ∧ ∀ b ∈ M, b.Suited := by
    rw [h.feasible_iff hI]
    simp only [Timetable.lectures, h.length_bookingsOf, wanted]
  exact {
    curriculumConflicts := overSlots_eq_zero (h.curriculumConflicts_eq_zero hI)
    teacherConflicts := overSlots_eq_zero fun s => repetitions_of_nodup (h.nodup_teachers s)
    roomConflicts := overSlots_eq_zero fun s => repetitions_of_nodup (h.nodup_rooms s)
    wrap_lectures := t.wrap_lectureCount_add_extraLectures
    lectures := by
      intro hlt
      have hbalance := t.lectureTotal_add_extraLectures
      have hextra := t.extraLectures_le_size
      have hfits : overCourses t.missingLectures < UInt64.size := by omega
      have hmissing : t.report.missingLectures = overCourses t.missingLectures := wrap_of_lt hfits
      rw [lectureCount_of_lt hlt, hmissing]
      exact hbalance
    unavailableSlots := h.overCourses_countP fun c b => I.isAvailable c b.slot
    unsuitableRooms := h.overCourses_countP fun c b => I.isSuitable c b.room
    feasible_iff := hfeasible
    wrap_hard := t.hard_report
    isFeasible_of_feasible := Feasible.isFeasible
    isFeasible_iff := by
      intro hlt
      have htotal := h.hardTotal_le hI
      rw [isFeasible_iff_feasible (by omega), hfeasible] }

end Timetable

end Timetabling
