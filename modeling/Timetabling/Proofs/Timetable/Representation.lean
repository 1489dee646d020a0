import Timetabling.Proofs.Draft.Representation
import Timetabling.Timetable

/-! The four tables of a timetable tell of one set of bookings. `Keeps` says so of a timetable and a
    set, `Exclusive` says that no two bookings of the set get in each other's way, and `Represents` is
    both together. Putting a booking in adds a member to the set. Cutting one away clears a mark of its
    room and a cell of each of its curricula, and that removes just one member because the set is
    exclusive. -/

namespace Timetabling

open Instance

variable {I : Instance}

namespace Booking

/-- The booking without its room. -/
def placement (b : Booking I) : Placement I := ⟨b.course, b.slot⟩

/-- Two bookings that may be at one slot: in two rooms, of two teachers, of no common curriculum. -/
def Apart (a b : Booking I) : Prop := a.room ≠ b.room ∧ conflict a.course b.course = false

/-- No member of the set stands in the way of the booking. -/
def Free (M : Finset (Booking I)) (b : Booking I) : Prop := ∀ o ∈ M, o.slot = b.slot → b.Apart o

/-- The members of the set in the way of the booking: at its slot, and in its room, of its teacher or
    with a curriculum in common. -/
def hindrances (M : Finset (Booking I)) (b : Booking I) : Finset (Booking I) :=
  M.filter fun o => o.slot = b.slot ∧ (o.room = b.room ∨
    teacherOf o.course = teacherOf b.course ∨ shareCurriculum b.course o.course = true)

/-- No two members of the set get in each other's way. -/
def Exclusive (M : Finset (Booking I)) : Prop :=
  ∀ a ∈ M, ∀ b ∈ M, a.slot = b.slot → a ≠ b → a.Apart b

/-- The course may be taught at the slot and in the room. -/
def Suited (b : Booking I) : Prop :=
  I.isAvailable b.course b.slot = true ∧ I.isSuitable b.course b.room = true

/-- The number of bookings that the set has for the course. -/
def count (M : Finset (Booking I)) (c : CourseIx I) : Nat := (M.filter fun b => b.course = c).card

variable {M N : Finset (Booking I)} {a b : Booking I}

theorem Apart.symm (h : a.Apart b) : b.Apart a := ⟨h.1.symm, by rw [conflict_comm, h.2]⟩

theorem Apart.course_ne (h : a.Apart b) : a.course ≠ b.course := fun e => by
  have hconf := h.2
  rw [e, conflict_self] at hconf
  cases hconf

theorem Free.notMem (h : Free M b) : b ∉ M := fun hb => (h b hb rfl).1 rfl

theorem mem_hindrances {o : Booking I} :
    o ∈ hindrances M b ↔ o ∈ M ∧ o.slot = b.slot ∧ ¬b.Apart o := by
  simp only [hindrances, Finset.mem_filter, Apart, not_and_or, not_not, Bool.not_eq_false,
    conflict_eq_true_iff, eq_comm (a := o.room), eq_comm (a := teacherOf o.course)]

theorem free_iff_hindrances : Free M b ↔ hindrances M b = ∅ := by
  simp only [Finset.eq_empty_iff_forall_notMem, mem_hindrances, not_and, not_not, Free]

theorem mem_of_hindrances_eq {old : Booking I} (hone : hindrances M b = {old}) : old ∈ M :=
  (mem_hindrances.1 (hone ▸ Finset.mem_singleton_self old)).1

/-- Once the only booking in the way has left, nothing is. -/
theorem free_erase_of_hindrances {old : Booking I} (hone : hindrances M b = {old}) :
    Free (M.erase old) b := by
  intro o ho hs
  obtain ⟨hne, ho⟩ := Finset.mem_erase.1 ho
  by_contra hapart
  have hmem := mem_hindrances.2 ⟨ho, hs, hapart⟩
  rw [hone, Finset.mem_singleton] at hmem
  exact hne hmem

theorem exclusive_empty : Exclusive (∅ : Finset (Booking I)) := by simp [Exclusive]

theorem Exclusive.mono (h : Exclusive M) (hN : N ⊆ M) : Exclusive N :=
  fun a ha b hb => h a (hN ha) b (hN hb)

theorem Exclusive.insert (h : Exclusive M) (hfree : Free M b) : Exclusive (insert b M) := by
  intro x hx y hy hs hne
  rw [Finset.mem_insert] at hx hy
  rcases hx with rfl | hx
  · rcases hy with rfl | hy
    · exact absurd rfl hne
    · exact hfree y hy hs.symm
  · rcases hy with rfl | hy
    · exact (hfree x hx hs).symm
    · exact h x hx y hy hs hne

/-- At one slot an exclusive set has no course twice. -/
theorem Exclusive.eq_of_course (h : Exclusive M) (ha : a ∈ M) (hb : b ∈ M) (hs : a.slot = b.slot)
    (hc : a.course = b.course) : a = b := by
  by_contra hne
  exact (h a ha b hb hs hne).course_ne hc

/-- At one slot an exclusive set has no room twice. -/
theorem Exclusive.eq_of_room (h : Exclusive M) (ha : a ∈ M) (hb : b ∈ M) (hs : a.slot = b.slot)
    (hr : a.room = b.room) : a = b := by
  by_contra hne
  exact (h a ha b hb hs hne).1 hr

/-- At one slot an exclusive set has no curriculum twice. -/
theorem Exclusive.eq_of_membership (h : Exclusive M) (ha : a ∈ M) (hb : b ∈ M)
    (hs : a.slot = b.slot) {q : CurriculumIx I} (hqa : q ∈ memberships a.course)
    (hqb : q ∈ memberships b.course) : a = b := by
  by_contra hne
  exact notMem_memberships (h a ha b hb hs hne).2 hqa hqb

end Booking

namespace Timetable

open Booking

/-- The timetable keeps the bookings in the set and no others, in all of its tables. -/
structure Keeps (t : Timetable I) (M : Finset (Booking I)) : Prop where
  mem_bookingsAt : ∀ {b s}, b ∈ t.bookingsAt s ↔ b ∈ M ∧ b.slot = s
  ascending_bookingsAt : ∀ s, Ascending (fun b => b.course) (t.bookingsAt s)
  mem_bookingsOf : ∀ {b c}, b ∈ t.bookingsOf c ↔ b ∈ M ∧ b.course = c
  ascending_bookingsOf : ∀ c, Ascending (fun b => b.slot) (t.bookingsOf c)
  roomTaken_iff : ∀ {r s}, t.roomTaken r s = true ↔ ∃ b ∈ M, b.room = r ∧ b.slot = s
  bookingOf?_eq_some_iff : ∀ {q s b}, t.bookingOf? q s = some b ↔
    b ∈ M ∧ b.slot = s ∧ q ∈ memberships b.course

/-- The timetable keeps the bookings in the set, and none of them gets in the way of another. -/
structure Represents (t : Timetable I) (M : Finset (Booking I)) : Prop extends Keeps t M where
  exclusive : Exclusive M

variable {t u : Timetable I} {M : Finset (Booking I)} {b : Booking I}

/-! ### What the tables say -/

/-- The set determines the timetable, whatever happened to it before. -/
theorem Keeps.unique (ht : t.Keeps M) (hu : u.Keeps M) : t = u := by
  apply ext_views
  · intro q s
    ext b
    rw [ht.bookingOf?_eq_some_iff, hu.bookingOf?_eq_some_iff]
  · intro r s
    rw [Bool.eq_iff_iff, ht.roomTaken_iff, hu.roomTaken_iff]
  · intro s
    refine (ht.ascending_bookingsAt s).eq_of_mem_iff (hu.ascending_bookingsAt s) ?_
    intro b
    rw [ht.mem_bookingsAt, hu.mem_bookingsAt]
  · intro c
    refine (ht.ascending_bookingsOf c).eq_of_mem_iff (hu.ascending_bookingsOf c) ?_
    intro b
    rw [ht.mem_bookingsOf, hu.mem_bookingsOf]

theorem Keeps.mem_bookings (h : t.Keeps M) : b ∈ t.bookings ↔ b ∈ M := by
  simp [bookings, h.mem_bookingsAt]

theorem Keeps.nodup_bookings (h : t.Keeps M) : t.bookings.Nodup := by
  refine List.nodup_flatMap.2 ⟨fun s _ => (h.ascending_bookingsAt s).nodup, ?_⟩
  refine (List.nodup_finRange _).imp fun hne b hb hb' => hne ?_
  rw [← (h.mem_bookingsAt.1 hb).2, ← (h.mem_bookingsAt.1 hb').2]

theorem Keeps.length_bookingsOf (h : t.Keeps M) (c : CourseIx I) :
    (t.bookingsOf c).length = count M c := by
  symm
  apply card_eq_length_of_mem_iff Function.injective_id (h.ascending_bookingsOf c).nodup
  simp [h.mem_bookingsOf]

theorem Keeps.size_eq (h : t.Keeps M) : t.size = M.card := by
  simp only [size, tally_finRange, h.length_bookingsOf, count]
  exact (Finset.card_eq_sum_card_fiberwise fun b _ => Finset.mem_univ b.course).symm

theorem Keeps.teacherTaken_iff (h : t.Keeps M) {c : CourseIx I} {s : Slot I} :
    t.teacherTaken c s = true ↔ ∃ b ∈ M, b.slot = s ∧ teacherOf b.course = teacherOf c := by
  simp [teacherTaken, h.mem_bookingsAt, and_assoc]

theorem Keeps.curriculumTaken?_isSome_iff (h : t.Keeps M) (hI : I.Coherent) {c : CourseIx I}
    {s : Slot I} : (t.curriculumTaken? c s).isSome = true ↔
      ∃ b ∈ M, b.slot = s ∧ shareCurriculum c b.course = true := by
  simp only [curriculumTaken?, List.find?_isSome]
  simp only [Option.isSome_iff_exists, h.bookingOf?_eq_some_iff, hI.shareCurriculum_iff]
  constructor
  · rintro ⟨q, hc, b, hb, hs, hq⟩
    exact ⟨b, hb, hs, q, hc, hq⟩
  · rintro ⟨b, hb, hs, q, hc, hq⟩
    exact ⟨q, hc, b, hb, hs, hq⟩

theorem clash?_eq_none_iff : t.clash? b = none ↔ (t.curriculumTaken? b.course b.slot).isSome = false ∧
    t.teacherTaken b.course b.slot = false ∧ t.roomTaken b.room b.slot = false := by
  cases hq : t.curriculumTaken? b.course b.slot with
  | none =>
    cases ht : t.teacherTaken b.course b.slot <;> simp [clash?, hq, ht]
  | some q => simp [clash?, hq]

theorem Keeps.clash?_eq_none_iff_free (h : t.Keeps M) (hI : I.Coherent) :
    t.clash? b = none ↔ Free M b := by
  simp only [clash?_eq_none_iff, ← Bool.not_eq_true, h.curriculumTaken?_isSome_iff hI,
    h.teacherTaken_iff, h.roomTaken_iff, Free, Apart, conflict_eq_true_iff, not_exists, not_and,
    not_or]
  constructor
  · rintro ⟨hq, ht, hr⟩ o ho hs
    exact ⟨fun e => hr o ho e.symm hs, fun e => ht o ho hs e.symm, hq o ho hs⟩
  · intro hfree
    exact ⟨fun o ho hs => (hfree o ho hs).2.2, fun o ho hs e => (hfree o ho hs).2.1 e.symm,
      fun o ho e hs => (hfree o ho hs).1 e.symm⟩

theorem Keeps.admits_iff (h : t.Keeps M) (hI : I.Coherent) :
    t.admits b = true ↔ Free M b ∧ b.Suited := by
  simp [admits, Suited, h.clash?_eq_none_iff_free hI, and_assoc]

theorem Keeps.mem_inTheWay (h : t.Keeps M) {o : Booking I} :
    o ∈ t.inTheWay b ↔ o ∈ hindrances M b := by
  simp only [inTheWay, List.mem_filter, h.mem_bookingsAt, and_assoc, mem_hindrances, Apart, not_and_or,
    not_not, Bool.or_eq_true, decide_eq_true_eq, Bool.not_eq_false, eq_comm (a := o.room)]

theorem Keeps.nodup_inTheWay (h : t.Keeps M) (b : Booking I) : (t.inTheWay b).Nodup :=
  (h.ascending_bookingsAt b.slot).nodup.filter _

/-! ### What the changes do to the set -/

theorem represents_empty : (empty : Timetable I).Represents ∅ := by
  refine ⟨?_, exclusive_empty⟩
  constructor <;> simp [Ascending]

theorem Keeps.put (h : t.Keeps M) (hfree : Free M b) : (t.put b).Keeps (insert b M) where
  mem_bookingsAt {x s} := by
    rw [bookingsAt_put]
    split <;> grind [h.mem_bookingsAt, mem_insertAscending]
  ascending_bookingsAt s := by
    rw [bookingsAt_put]
    split
    · refine (h.ascending_bookingsAt _).insertAscending ?_
      intro o ho e
      obtain ⟨ho, hs⟩ := h.mem_bookingsAt.1 ho
      exact (hfree o ho hs).course_ne (Fin.ext e).symm
    · exact h.ascending_bookingsAt s
  mem_bookingsOf {x c} := by
    rw [bookingsOf_put]
    split <;> grind [h.mem_bookingsOf, mem_insertAscending]
  ascending_bookingsOf c := by
    rw [bookingsOf_put]
    split
    · refine (h.ascending_bookingsOf _).insertAscending ?_
      intro o ho e
      obtain ⟨ho, hc⟩ := h.mem_bookingsOf.1 ho
      exact (hfree o ho (Fin.ext e)).course_ne hc.symm
    · exact h.ascending_bookingsOf c
  roomTaken_iff {r s} := by
    rw [roomTaken_put]
    split <;> grind [h.roomTaken_iff]
  bookingOf?_eq_some_iff {q s x} := by
    rw [bookingOf?_put]
    by_cases hq : q ∈ memberships b.course ∧ s = b.slot
    · obtain ⟨hq, rfl⟩ := hq
      rw [if_pos ⟨hq, rfl⟩, Option.some.injEq, Finset.mem_insert]
      constructor
      · rintro rfl
        exact ⟨.inl rfl, rfl, hq⟩
      · -- another booking of the curriculum at the slot would stand in the way
        rintro ⟨rfl | hx, hs, hqx⟩
        · rfl
        · exact absurd hqx (notMem_memberships (hfree x hx hs).2 hq)
    · rw [if_neg hq, h.bookingOf?_eq_some_iff, Finset.mem_insert]
      constructor
      · rintro ⟨hx, hs, hqx⟩
        exact ⟨.inr hx, hs, hqx⟩
      · rintro ⟨rfl | hx, hs, hqx⟩
        · exact absurd ⟨hqx, hs.symm⟩ hq
        · exact ⟨hx, hs, hqx⟩

theorem Represents.put (h : t.Represents M) (hfree : Free M b) :
    (t.put b).Represents (insert b M) :=
  ⟨h.toKeeps.put hfree, h.exclusive.insert hfree⟩

theorem Represents.cut (h : t.Represents M) (hb : b ∈ M) : (t.cut b).Represents (M.erase b) where
  mem_bookingsAt {x s} := by
    rw [bookingsAt_cut]
    split <;> grind [h.mem_bookingsAt, (h.ascending_bookingsAt b.slot).nodup.mem_erase_iff]
  ascending_bookingsAt s := by
    rw [bookingsAt_cut]
    split
    · exact (h.ascending_bookingsAt _).erase b
    · exact h.ascending_bookingsAt s
  mem_bookingsOf {x c} := by
    rw [bookingsOf_cut]
    split <;> grind [h.mem_bookingsOf, (h.ascending_bookingsOf b.course).nodup.mem_erase_iff]
  ascending_bookingsOf c := by
    rw [bookingsOf_cut]
    split
    · exact (h.ascending_bookingsOf _).erase b
    · exact h.ascending_bookingsOf c
  roomTaken_iff {r s} := by
    rw [roomTaken_cut]
    by_cases hrs : r = b.room ∧ s = b.slot
    · obtain ⟨rfl, rfl⟩ := hrs
      -- nobody else used the room, so the cleared mark is right
      rw [if_pos ⟨rfl, rfl⟩]
      refine iff_of_false nofun ?_
      rintro ⟨o, ho, hr, hs⟩
      obtain ⟨hne, ho⟩ := Finset.mem_erase.1 ho
      exact hne (h.exclusive.eq_of_room ho hb hs hr)
    · rw [if_neg hrs, h.roomTaken_iff]
      constructor
      · rintro ⟨o, ho, rfl, rfl⟩
        exact ⟨o, Finset.mem_erase.2 ⟨fun e => hrs (by rw [e]; exact ⟨rfl, rfl⟩), ho⟩, rfl, rfl⟩
      · rintro ⟨o, ho, rfl, rfl⟩
        exact ⟨o, Finset.mem_of_mem_erase ho, rfl, rfl⟩
  bookingOf?_eq_some_iff {q s x} := by
    rw [bookingOf?_cut]
    by_cases hq : q ∈ memberships b.course ∧ s = b.slot ∧ t.bookingOf? q b.slot = some b
    · obtain ⟨hq, rfl, hcell⟩ := hq
      rw [if_pos ⟨hq, rfl, hcell⟩]
      refine iff_of_false nofun ?_
      rintro ⟨hx, hs, hqx⟩
      obtain ⟨hne, hx⟩ := Finset.mem_erase.1 hx
      exact hne (h.exclusive.eq_of_membership hx hb hs hqx hq)
    · rw [if_neg hq, h.bookingOf?_eq_some_iff, Finset.mem_erase]
      constructor
      · rintro ⟨hx, hs, hqx⟩
        refine ⟨⟨?_, hx⟩, hs, hqx⟩
        rintro rfl
        exact hq ⟨hqx, hs.symm, h.bookingOf?_eq_some_iff.2 ⟨hx, rfl, hqx⟩⟩
      · rintro ⟨⟨-, hx⟩, hs, hqx⟩
        exact ⟨hx, hs, hqx⟩
  exclusive := h.exclusive.mono (Finset.erase_subset ..)

theorem Keeps.lifted_eq_cut (h : t.Keeps M) (hb : b ∈ M) : t.lifted b = t.cut b := by
  simp [lifted, lift?, h.mem_bookingsOf, hb]

theorem Keeps.lifted_eq_self (h : t.Keeps M) (hb : b ∉ M) : t.lifted b = t := by
  simp [lifted, lift?, h.mem_bookingsOf, hb]

/-- Putting back what was cut away restores every table. -/
theorem Represents.put_cut (h : t.Represents M) (hb : b ∈ M) : (t.cut b).put b = t := by
  have hfree : Free (M.erase b) b := fun o ho hs => by
    obtain ⟨hne, ho⟩ := Finset.mem_erase.1 ho
    exact h.exclusive b hb o ho hs.symm hne.symm
  have hput := ((h.cut hb).put hfree).toKeeps
  rw [Finset.insert_erase hb] at hput
  exact hput.unique h.toKeeps

/-- A takeover puts the booking in where it is admitted, exchanges it for the one booking in its
    way, or leaves the timetable as it was. -/
theorem Represents.takeOver_cases (h : t.Represents M) (hI : I.Coherent) (b : Booking I) :
    (hindrances M b = ∅ ∧ b.Suited ∧ t.takeOver b = .inserted (t.put b)) ∨
    (∃ old, hindrances M b = {old} ∧ b.Suited ∧
      t.takeOver b = .displaced old ((t.cut old).put b)) ∨
    ((b.Suited → 1 < (hindrances M b).card) ∧ t.takeOver b = .blocked t) := by
  rcases listing_cases (h.nodup_inTheWay b) fun o => h.mem_inTheWay.symm with
    ⟨hnone, hB⟩ | ⟨old, hone, hB⟩ | ⟨hmany, x, y, zs, hB⟩
  · have hadmits : t.admits b = true ↔ b.Suited := by
      rw [h.admits_iff hI, free_iff_hindrances, and_iff_right hnone]
    by_cases hsuited : b.Suited
    · exact .inl ⟨hnone, hsuited, by simp [takeOver, hB, hadmits.2 hsuited]⟩
    · exact .inr (.inr ⟨fun hs => absurd hs hsuited, by simp [takeOver, hB, mt hadmits.1 hsuited]⟩)
  · have hold := mem_of_hindrances_eq hone
    have hadmits : (t.cut old).admits b = true ↔ b.Suited := by
      rw [(h.cut hold).admits_iff hI, and_iff_right (free_erase_of_hindrances hone)]
    by_cases hsuited : b.Suited
    · refine .inr (.inl ⟨old, hone, hsuited, ?_⟩)
      simp [takeOver, hB, h.lifted_eq_cut hold, hadmits.2 hsuited]
    · -- the slot or the room is not for the course, so the old booking is put back
      refine .inr (.inr ⟨fun hs => absurd hs hsuited, ?_⟩)
      simp [takeOver, hB, h.lifted_eq_cut hold, mt hadmits.1 hsuited, h.put_cut hold]
  · exact .inr (.inr ⟨fun _ => hmany, by simp [takeOver, hB]⟩)

end Timetable

end Timetabling
