import Timetabling.Proofs.Rooming
import Timetabling.Report

/-! What a report says of a timetable that represents a set of bookings. It never counts a curriculum,
    a teacher or a room twice. The timetable is feasible just when every course has the lectures that it
    wants, at available slots and in suitable rooms, and the report says so as long as the violations
    can be counted in 64 bits. -/

namespace Timetabling

open Instance

variable {I : Instance}

/-! ### Counts that vanish -/

/-- Of elements that exclude each other at most one is counted. -/
theorem countP_le_one {α : Type} {p : α → Bool} {xs : List α}
    (h : xs.Pairwise fun a b => p a = true → p b = false) : xs.countP p ≤ 1 := by
  induction xs with
  | nil => exact Nat.zero_le _
  | cons x xs ih =>
    obtain ⟨hx, hxs⟩ := List.pairwise_cons.1 h
    cases hp : p x with
    | false =>
      rw [List.countP_cons_of_neg (by simp [hp])]
      exact ih hxs
    | true =>
      rw [List.countP_cons_of_pos hp, List.countP_eq_zero.2 fun y hy => by simp [hx y hy hp]]

theorem eraseDups_of_nodup {xs : List Nat} (h : xs.Nodup) : xs.eraseDups = xs := by
  induction xs with
  | nil => rfl
  | cons x xs ih =>
    obtain ⟨hx, hxs⟩ := List.nodup_cons.1 h
    have hfilter : (xs.filter fun b => !b == x) = xs :=
      List.filter_eq_self.2 fun b hb => by
        have hne : b ≠ x := fun e => hx (e ▸ hb)
        simp [hne]
    rw [List.eraseDups_cons, hfilter, ih hxs]

namespace Timetable

open Booking

variable {t : Timetable I} {M : Finset (Booking I)}

theorem repetitions_of_nodup {xs : List Nat} (h : xs.Nodup) : repetitions xs = 0 := by
  rw [repetitions, eraseDups_of_nodup h, Nat.sub_self]

/-! ### Conflicts -/

theorem Represents.pairwise_apart (h : t.Represents M) (s : Slot I) :
    (t.bookingsAt s).Pairwise Apart :=
  (h.ascending_bookingsAt s).nodup.pairwise_of_forall_ne fun a ha b hb hne => by
    obtain ⟨ha, hsa⟩ := h.mem_bookingsAt.1 ha
    obtain ⟨hb, hsb⟩ := h.mem_bookingsAt.1 hb
    exact h.exclusive a ha b hb (hsa.trans hsb.symm) hne

theorem Represents.curriculumConflicts_eq_zero (h : t.Represents M) (hI : I.Coherent)
    (s : Slot I) : t.curriculumConflicts s = 0 := by
  refine tally_eq_zero_iff.2 fun q hq => Nat.sub_eq_zero_of_le (countP_le_one ?_)
  obtain ⟨i, hi, rfl⟩ := Array.mem_iff_getElem.1 (Array.mem_toList_iff.1 hq)
  have hmem : ∀ b : Booking I, I.curricula[i].courses.contains b.course.val = true ↔
      (⟨i, hi⟩ : CurriculumIx I) ∈ memberships b.course := fun b => by
    rw [List.contains_iff_mem]
    exact hI.mem_courses_iff (c := b.course) (q := ⟨i, hi⟩)
  refine (h.pairwise_apart s).imp fun {a b} hab ha => Bool.eq_false_of_not_eq_true ?_
  intro hb
  exact notMem_memberships hab.2 ((hmem a).1 ha) ((hmem b).1 hb)

theorem Represents.nodup_teachers (h : t.Represents M) (s : Slot I) :
    ((t.bookingsAt s).map fun b => teacherOf b.course).Nodup :=
  List.pairwise_map.2 ((h.pairwise_apart s).imp fun hab => (conflict_eq_false_iff.1 hab.2).1)

theorem Represents.nodup_rooms (h : t.Represents M) (s : Slot I) :
    ((t.bookingsAt s).map fun b => b.room.val).Nodup :=
  List.pairwise_map.2 ((h.pairwise_apart s).imp fun hab e => hab.1 (Fin.ext e))

/-! ### Feasibility -/

theorem overCourses_eq_zero_iff {count : CourseIx I → Nat} :
    overCourses count = 0 ↔ ∀ c, count c = 0 := by
  simp [overCourses, tally_eq_zero_iff]

theorem overSlots_eq_zero {count : Slot I → Nat} (h : ∀ s, count s = 0) : overSlots count = 0 :=
  tally_eq_zero_iff.2 fun s _ => h s

/-- Course by course no booking fails a test just when none of all does. -/
theorem Keeps.countP_eq_zero_iff (h : t.Keeps M) {p : CourseIx I → Booking I → Bool} :
    (∀ c, (t.bookingsOf c).countP (fun b => !p c b) = 0) ↔ ∀ b ∈ M, p b.course b = true := by
  simp only [List.countP_eq_zero, h.mem_bookingsOf, Bool.not_eq_true', Bool.not_eq_false]
  constructor
  · intro hall b hb
    exact hall b.course b ⟨hb, rfl⟩
  · rintro hall c b ⟨hb, rfl⟩
    exact hall b hb

theorem Keeps.unavailableSlots_eq_zero_iff (h : t.Keeps M) :
    (∀ c, t.unavailableSlots c = 0) ↔ ∀ b ∈ M, I.isAvailable b.course b.slot = true :=
  h.countP_eq_zero_iff (p := fun c b => I.isAvailable c b.slot)

theorem Keeps.unsuitableRooms_eq_zero_iff (h : t.Keeps M) :
    (∀ c, t.unsuitableRooms c = 0) ↔ ∀ b ∈ M, I.isSuitable b.course b.room = true :=
  h.countP_eq_zero_iff (p := fun c b => I.isSuitable c b.room)

/-- Only lectures missing or to spare, slots and rooms can make the timetable infeasible. -/
theorem Represents.hardTotal_violations (h : t.Represents M) (hI : I.Coherent) :
    t.violations.hardTotal = overCourses t.missingLectures + overCourses t.extraLectures +
      overCourses t.unavailableSlots + overCourses t.unsuitableRooms := by
  simp only [Report.hardTotal, violations, overSlots_eq_zero (h.curriculumConflicts_eq_zero hI),
    overSlots_eq_zero fun s => repetitions_of_nodup (h.nodup_teachers s),
    overSlots_eq_zero fun s => repetitions_of_nodup (h.nodup_rooms s), Nat.add_zero]

theorem Represents.feasible_iff (h : t.Represents M) (hI : I.Coherent) :
    t.Feasible ↔ (∀ c, t.lectures c = wanted c) ∧ ∀ b ∈ M, b.Suited := by
  have hlectures : (∀ c, t.lectures c = wanted c) ↔
      (∀ c, t.missingLectures c = 0) ∧ ∀ c, t.extraLectures c = 0 := by
    rw [← forall_and]
    refine forall_congr' ?_
    intro c
    simp only [lectures, wanted, missingLectures, extraLectures]
    omega
  simp only [Feasible, h.hardTotal_violations hI, Nat.add_eq_zero_iff, overCourses_eq_zero_iff,
    h.unavailableSlots_eq_zero_iff, h.unsuitableRooms_eq_zero_iff, hlectures, Suited, forall_and,
    and_assoc]

/-- A timetable with all lectures that are wanted is feasible. -/
theorem Covers.feasible (h : t.Covers wanted) (hI : I.Coherent) : t.Feasible := by
  obtain ⟨⟨M, hM, hsuited⟩, hlectures⟩ := h
  exact (hM.feasible_iff hI).2 ⟨hlectures, hsuited⟩

/-! ### In 64 bits -/

/-- The hard violations that are reported are what 64 bits keep of all of them. -/
theorem hard_report (t : Timetable I) : t.report.hard = wrap t.violations.hardTotal := by
  simp only [report, Report.hard, Report.hardTotal, Report.wrapped, Nat.add_assoc, wrap_wrap_add]

theorem isFeasible_report_iff (t : Timetable I) :
    t.report.isFeasible = true ↔ wrap t.violations.hardTotal = 0 := by
  rw [Report.isFeasible, decide_eq_true_iff, hard_report]

theorem Feasible.isFeasible (h : t.Feasible) : t.report.isFeasible = true :=
  t.isFeasible_report_iff.2 (congrArg wrap h)

theorem isFeasible_iff_feasible (hlt : t.violations.hardTotal < UInt64.size) :
    t.report.isFeasible = true ↔ t.Feasible := by
  rw [isFeasible_report_iff, wrap_of_lt hlt, Feasible]

end Timetable

end Timetabling
