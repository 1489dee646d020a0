import Timetabling.Proofs.Instance.Resolution
import Timetabling.Proofs.Report.Hard

/-! The soft counts of a report, for every timetable that came about by changes. Whether a lecture of a
    curriculum stands alone is looked up by slot numbers, which run on from one day to the next; the
    tests of the period keep the look-ups within the day, so that they say the same as days and periods
    do. The other counts are sums over the courses or over the bookings, and of the sums of days and of
    students the report shows what 64 bits keep. -/

namespace Timetabling

open Instance

variable {I : Instance}

theorem length_eraseDups_eq_card (xs : List Nat) : xs.eraseDups.length = xs.toFinset.card := by
  have h := firstMentions_eraseDups xs
  rw [← List.toFinset_card_of_nodup h.nodup]
  exact congrArg Finset.card (Finset.ext fun a => by simp [h.mem_iff])

/-! ### Neighbouring slots -/

namespace Instance

variable {s s' : Slot I}

/-- The slot before, by day and period and by number. -/
theorem before_iff : dayOf s' = dayOf s ∧ periodOf s' + 1 = periodOf s ↔
    0 < periodOf s ∧ s'.val = s.val - 1 := by
  have hs : dayOf s * I.periods + periodOf s = s := slotNumber_dayOf_periodOf s
  have hs' : dayOf s' * I.periods + periodOf s' = s' := slotNumber_dayOf_periodOf s'
  constructor
  · rintro ⟨hd, hp⟩
    rw [hd] at hs'
    omega
  · rintro ⟨hpos, hnext⟩
    have hplace : dayOf s' * I.periods + periodOf s' = dayOf s * I.periods + (periodOf s - 1) := by
      omega
    have hlt := periodOf_lt s
    obtain ⟨hd, hp⟩ := MarkTable.place_inj (periodOf_lt s') (by omega) hplace
    exact ⟨hd, by omega⟩

/-- The slot after, by day and period and by number. -/
theorem after_iff : dayOf s' = dayOf s ∧ periodOf s' = periodOf s + 1 ↔
    periodOf s + 1 < I.periods ∧ s'.val = s.val + 1 := by
  have hs : dayOf s * I.periods + periodOf s = s := slotNumber_dayOf_periodOf s
  have hs' : dayOf s' * I.periods + periodOf s' = s' := slotNumber_dayOf_periodOf s'
  constructor
  · rintro ⟨hd, hp⟩
    have hlt := periodOf_lt s'
    rw [hd] at hs'
    omega
  · rintro ⟨hlt, hnext⟩
    have hplace : dayOf s' * I.periods + periodOf s' = dayOf s * I.periods + (periodOf s + 1) := by
      omega
    exact MarkTable.place_inj (periodOf_lt s') hlt hplace

end Instance

/-! ### Lectures that stand alone -/

namespace Booking

/-- The curriculum lists the course of the booking. -/
def In (b : Booking I) (q : CurriculumIx I) : Prop := b.course.val ∈ (curriculum q).courses

/-- The set has no lecture of the curriculum on the day of the booking in the period before or after. -/
def Alone (M : Finset (Booking I)) (q : CurriculumIx I) (b : Booking I) : Prop :=
  ¬∃ o ∈ M, o.In q ∧ o.day = b.day ∧ (o.period + 1 = b.period ∨ o.period = b.period + 1)

instance (b : Booking I) (q : CurriculumIx I) : Decidable (b.In q) :=
  inferInstanceAs (Decidable (_ ∈ _))

instance (M : Finset (Booking I)) (q : CurriculumIx I) (b : Booking I) : Decidable (Alone M q b) :=
  inferInstanceAs (Decidable (¬∃ o ∈ M, _))

end Booking

namespace Timetable

open Booking

variable {t : Timetable I} {M : Finset (Booking I)}

theorem Keeps.mem_bookingsOfCurriculum_iff_in (h : t.Keeps M) (hI : I.Coherent) {q : CurriculumIx I}
    {b : Booking I} : b ∈ t.bookingsOfCurriculum q ↔ b ∈ M ∧ b.In q := by
  rw [h.mem_bookingsOfCurriculum hI, ← mem_memberships, ← hI.mem_courses_iff]
  rfl

theorem Keeps.curriculumBusy_iff (h : t.Keeps M) (hI : I.Coherent) {q : CurriculumIx I} {n : Nat} :
    t.curriculumBusy q n = true ↔ ∃ o ∈ M, o.In q ∧ o.slot.val = n := by
  simp only [curriculumBusy, List.any_eq_true, h.mem_bookingsOfCurriculum_iff_in hI,
    decide_eq_true_eq, and_assoc]

/-- The two look-ups by slot number find a neighbour just when there is one on the day. -/
theorem Keeps.isolated_iff_alone (h : t.Keeps M) (hI : I.Coherent) (q : CurriculumIx I)
    (b : Booking I) : t.isolated q b = true ↔ Alone M q b := by
  have hbefore : (0 < b.period ∧ t.curriculumBusy q (b.slot - 1) = true) ↔
      ∃ o ∈ M, o.In q ∧ o.day = b.day ∧ o.period + 1 = b.period := by
    rw [h.curriculumBusy_iff hI, ← exists_and_left]
    refine exists_congr fun o => ?_
    have hslot : o.day = b.day ∧ o.period + 1 = b.period ↔
      0 < b.period ∧ o.slot.val = b.slot.val - 1 := before_iff
    rw [hslot]
    tauto
  have hafter : (b.period + 1 < I.periods ∧ t.curriculumBusy q (b.slot + 1) = true) ↔
      ∃ o ∈ M, o.In q ∧ o.day = b.day ∧ o.period = b.period + 1 := by
    rw [h.curriculumBusy_iff hI, ← exists_and_left]
    refine exists_congr fun o => ?_
    have hslot : o.day = b.day ∧ o.period = b.period + 1 ↔
      b.period + 1 < I.periods ∧ o.slot.val = b.slot.val + 1 := after_iff
    rw [hslot]
    tauto
  simp only [isolated, Bool.and_eq_true, Bool.not_eq_true', ← Bool.not_eq_true, decide_eq_true_eq,
    hbefore, hafter, Alone, and_or_left, exists_or, not_or]

/-- Curriculum by curriculum the lectures that stand alone are counted as pairs. -/
theorem Keeps.tally_isolated (h : t.Keeps M) (hI : I.Coherent) :
    tally (fun q => (t.bookingsOfCurriculum q).countP (t.isolated q)) (List.range I.curricula.size) =
      ((Finset.univ ×ˢ M).filter fun x : CurriculumIx I × Booking I =>
        x.2.In x.1 ∧ Alone M x.1 x.2).card := by
  rw [← List.map_coe_finRange_eq_range, tally_map, tally_finRange,
    Finset.card_eq_sum_card_fiberwise fun x _ => Finset.mem_univ x.1]
  refine Finset.sum_congr rfl fun q _ => ?_
  rw [List.countP_eq_length_filter]
  symm
  have hnodup : (t.bookingsOfCurriculum q).Nodup :=
    (h.bookingsOfCurriculum_ordered q).imp fun hlt e => absurd hlt (by simp [e])
  refine card_eq_length_of_mem_iff (Prod.mk_right_injective q) (hnodup.filter _) ?_
  rintro ⟨q', b⟩
  simp only [Finset.mem_filter, Finset.mem_product, Finset.mem_univ, true_and, List.mem_map,
    List.mem_filter, h.mem_bookingsOfCurriculum_iff_in hI, h.isolated_iff_alone hI, Prod.mk.injEq]
  constructor
  · rintro ⟨⟨hb, hq, halone⟩, rfl⟩
    exact ⟨b, ⟨⟨hb, hq⟩, halone⟩, rfl, rfl⟩
  · rintro ⟨_, ⟨⟨hb, hq⟩, halone⟩, rfl, rfl⟩
    exact ⟨⟨hb, hq, halone⟩, rfl⟩

/-! ### Days, rooms and seats -/

theorem Keeps.toFinset_bookingsOf (h : t.Keeps M) (c : CourseIx I) :
    (t.bookingsOf c).toFinset = M.filter fun b => b.course = c :=
  Finset.ext fun b => by rw [List.mem_toFinset, h.mem_bookingsOf, Finset.mem_filter]

/-- What a course has of something, such as days, is counted once for all its bookings that have it. -/
theorem Keeps.length_eraseDups_map (h : t.Keeps M) (c : CourseIx I) (f : Booking I → Nat) :
    ((t.bookingsOf c).map f).eraseDups.length = ((M.filter fun b => b.course = c).image f).card := by
  rw [length_eraseDups_eq_card]
  refine congrArg Finset.card (Finset.ext fun n => ?_)
  simp only [List.mem_toFinset, List.mem_map, h.mem_bookingsOf, Finset.mem_image, Finset.mem_filter]

theorem Keeps.missingDays_eq (h : t.Keeps M) (c : CourseIx I) : t.missingDays c =
    (course c).minWorkingDays - ((M.filter fun b => b.course = c).image Booking.day).card := by
  rw [missingDays, h.length_eraseDups_map]

theorem Keeps.extraRooms_eq (h : t.Keeps M) (c : CourseIx I) : t.extraRooms c =
    ((M.filter fun b => b.course = c).image Booking.room).card - 1 := by
  rw [extraRooms, h.length_eraseDups_map, ← Finset.card_image_of_injective _ Fin.val_injective,
    Finset.image_image]
  rfl

theorem Keeps.missingSeats_eq (h : t.Keeps M) (c : CourseIx I) : t.missingSeats c =
    ∑ b ∈ M with b.course = c, ((course b.course).students - (room b.room).capacity) := by
  rw [missingSeats, tally_eq_sum_map, ← List.sum_toFinset _ (h.ascending_bookingsOf c).nodup,
    h.toFinset_bookingsOf]
  refine Finset.sum_congr rfl fun b hb => ?_
  rw [← (Finset.mem_filter.1 hb).2, Room.overflow, Int.toNat_sub]

/-! ### The counts -/

/-- The days short of the minimum that the set leaves, over all courses. -/
def daysShort (M : Finset (Booking I)) : Nat := ∑ c : CourseIx I,
  ((course c).minWorkingDays - ((M.filter fun b => b.course = c).image Booking.day).card)

/-- The students without a seat, over all bookings of the set. -/
def seatsShort (M : Finset (Booking I)) : Nat :=
  ∑ b ∈ M, ((course b.course).students - (room b.room).capacity)

theorem daysShort_le (M : Finset (Booking I)) :
    daysShort M ≤ ∑ c : CourseIx I, (course c).minWorkingDays :=
  Finset.sum_le_sum fun _ _ => Nat.sub_le ..

theorem seatsShort_le (M : Finset (Booking I)) :
    seatsShort M ≤ ∑ b ∈ M, (course b.course).students :=
  Finset.sum_le_sum fun _ _ => Nat.sub_le ..

/-- What a report says of the soft constraints, in terms of the bookings. -/
structure SoftCounts (t : Timetable I) (M : Finset (Booking I)) : Prop where
  isolatedLectures : t.report.isolatedLectures =
    ((Finset.univ ×ˢ M).filter fun x : CurriculumIx I × Booking I =>
      x.2.In x.1 ∧ Alone M x.1 x.2).card
  wrap_minWorkingDays : t.report.minWorkingDays = wrap (daysShort M)
  minWorkingDays : ∑ c : CourseIx I, (course c).minWorkingDays < UInt64.size →
    t.report.minWorkingDays = daysShort M
  roomStability : t.report.roomStability = ∑ c : CourseIx I,
    (((M.filter fun b => b.course = c).image Booking.room).card - 1)
  wrap_roomCapacity : t.report.roomCapacity = wrap (seatsShort M)
  roomCapacity : ∑ b ∈ M, (course b.course).students < UInt64.size →
    t.report.roomCapacity = seatsShort M

theorem Keeps.minWorkingDays_violations (h : t.Keeps M) :
    t.violations.minWorkingDays = daysShort M := by
  simp only [violations, overCourses, tally_finRange, h.missingDays_eq, daysShort]

theorem Keeps.roomCapacity_violations (h : t.Keeps M) :
    t.violations.roomCapacity = seatsShort M := by
  simp only [violations, overCourses, tally_finRange, h.missingSeats_eq]
  exact Finset.sum_fiberwise ..

theorem Keeps.softCounts (h : t.Keeps M) (hI : I.Coherent) : t.SoftCounts M := by
  have hdays : t.report.minWorkingDays = wrap (daysShort M) :=
    congrArg wrap h.minWorkingDays_violations
  have hseats : t.report.roomCapacity = wrap (seatsShort M) :=
    congrArg wrap h.roomCapacity_violations
  exact {
    isolatedLectures := h.tally_isolated hI
    wrap_minWorkingDays := hdays
    minWorkingDays := fun hlt => hdays.trans (wrap_of_lt ((daysShort_le M).trans_lt hlt))
    roomStability := by
      simp only [report, Report.wrapped, violations, overCourses, tally_finRange, h.extraRooms_eq]
    wrap_roomCapacity := hseats
    roomCapacity := fun hlt => hseats.trans (wrap_of_lt ((seatsShort_le M).trans_lt hlt)) }

/-- With one period a day both lectures stand alone, though their slots follow one another. -/
example : (ofEdits [.add ⟨0, 0, 0, 1⟩, .add ⟨1, 1, 0, 0⟩] : Timetable pair).report.isolatedLectures = 2 ∧
    (ofEdits [.add ⟨0, 0, 0, 1⟩, .add ⟨1, 1, 0, 0⟩] : Timetable pair).report.roomCapacity = 10 := by
  decide

end Timetable

end Timetabling
