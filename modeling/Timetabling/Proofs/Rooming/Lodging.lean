import Timetabling.Proofs.Draft.Guarded

/-! What a draft gets when it gets rooms. Slot by slot its courses are lodged in the rooms allotted to
    them, and none of them ever meets a clash: at one slot a draft has no two courses that conflict, the
    rooms allotted there are different, and what was lodged before is at other slots. So rooms fail only
    where they cannot be allotted, and the first such slot is told. -/

namespace Timetabling

open Instance

variable {I : Instance}

namespace Draft

open Booking

/-- The bookings of these courses at the slot in these rooms, course by course. -/
def lodgings (s : Slot I) (cs : List (CourseIx I)) (rs : List (RoomIx I)) : List (Booking I) :=
  (cs.zip rs).map fun cr => ⟨cr.1, s, cr.2⟩

/-- Rooms are being given out to the draft: the timetable so far, and the courses still to be lodged at
    the slot, each in its room. -/
inductive Lodging (d : Draft I) : Timetable I → Slot I → List (CourseIx I × RoomIx I) → Prop
  | start {t : Timetable I} {s : Slot I} {rs : List (RoomIx I)}
      (before : ((List.finRange I.slotCount).take s).foldlM d.lodgeSlot .empty = .ok t)
      (rooms : allot (d.coursesAt s) = .ok rs) : Lodging d t s ((d.coursesAt s).zip rs)
  | next {t u : Timetable I} {s : Slot I} {c : CourseIx I} {r : RoomIx I}
      {crs : List (CourseIx I × RoomIx I)} (before : Lodging d t s ((c, r) :: crs))
      (placed : t.place ⟨c, s, r⟩ = .ok u) : Lodging d u s crs

/-- The timetable has the placements of the draft and no others, each in the room allotted to it. -/
structure Accommodates (t : Timetable I) (d : Draft I) : Prop where
  map_placement_bookings : t.bookings.map placement = d.placements
  bookingsAt_eq : ∀ s, ∃ rs, allot (d.coursesAt s) = .ok rs ∧
    t.bookingsAt s = lodgings s (d.coursesAt s) rs
  /-- All tables tell of these bookings, and none of them gets in the way of another. -/
  represents : t.Represents t.bookings.toFinset
  suited : ∀ b ∈ t.bookings, b.Suited

/-- What comes of giving out rooms to the draft. -/
structure GetsRooms (d : Draft I) : Prop where
  exists_ok_iff : (∃ t, d.withRooms = .ok t) ↔
    ∀ s, d.coursesAt s ≠ [] → allottable (d.coursesAt s) = true
  accommodates : ∀ t, d.withRooms = .ok t → Accommodates t d
  error_iff : ∀ c s, d.withRooms = .error ⟨c, s⟩ ↔
    allot (d.coursesAt s) = .error c ∧ ∀ x < s, allottable (d.coursesAt x) = true
  /-- Whatever is lodged on the way finds its place. -/
  place_eq : ∀ t s c r crs, d.Lodging t s ((c, r) :: crs) →
    t.place ⟨c, s, r⟩ = .ok (t.put ⟨c, s, r⟩)

variable {d : Draft I} {t : Timetable I} {P : Finset (Placement I)} {M : Finset (Booking I)}
  {s x : Slot I} {cs : List (CourseIx I)} {rs : List (RoomIx I)} {c : CourseIx I} {r : RoomIx I}
  {crs : List (CourseIx I × RoomIx I)} {b : Booking I}

/-! ### The bookings of a slot -/

theorem mem_lodgings : b ∈ lodgings s cs rs ↔ b.slot = s ∧ (b.course, b.room) ∈ cs.zip rs := by
  rw [lodgings, List.mem_map]
  constructor
  · rintro ⟨⟨c, r⟩, hcr, rfl⟩
    exact ⟨rfl, hcr⟩
  · rintro ⟨rfl, hcr⟩
    exact ⟨_, hcr, rfl⟩

theorem map_course_lodgings (h : cs.length = rs.length) :
    (lodgings s cs rs).map Booking.course = cs := by
  rw [lodgings, List.map_map]
  exact List.map_fst_zip h.le

theorem map_placement_lodgings (h : cs.length = rs.length) :
    (lodgings s cs rs).map placement = cs.map fun c => ⟨c, s⟩ := by
  conv_rhs => rw [← map_course_lodgings (s := s) h, List.map_map]
  refine List.map_congr_left fun b hb => ?_
  rw [placement, (mem_lodgings.1 hb).1]
  rfl

/-- At its slots an allotted set of bookings lists the courses of the draft in their rooms. -/
theorem AllottedAt.bookingsAt_eq {ss : List (Slot I)} (h : d.AllottedAt ss M) (hd : d.Represents P)
    (ht : t.Represents M) (hs : s ∈ ss) (hrs : allot (d.coursesAt s) = .ok rs) :
    t.bookingsAt s = lodgings s (d.coursesAt s) rs := by
  have hlen := (suitable_of_allot hrs).length_eq
  have hascending : Ascending (fun b : Booking I => b.course) (lodgings s (d.coursesAt s) rs) := by
    have hcourses := hd.ascending_coursesAt s
    rwa [← map_course_lodgings (s := s) hlen, Ascending, List.pairwise_map] at hcourses
  refine (ht.ascending_bookingsAt s).eq_of_mem_iff hascending ?_
  intro b
  rw [ht.mem_bookingsAt, h.mem_iff, mem_lodgings]
  constructor
  · rintro ⟨⟨-, rs', hrs', hb⟩, rfl⟩
    obtain rfl := Except.ok.inj (hrs.symm.trans hrs')
    exact ⟨rfl, hb⟩
  · rintro ⟨rfl, hb⟩
    exact ⟨⟨hs, rs, hrs, hb⟩, rfl⟩

/-! ### No clash on the way -/

theorem lt_of_mem_take_finRange (h : x ∈ (List.finRange I.slotCount).take s) : x < s := by
  obtain ⟨i, hi, rfl⟩ := List.mem_take_iff_getElem.1 h
  rw [List.getElem_finRange]
  exact Fin.lt_def.2 (lt_of_lt_of_le hi (min_le_left ..))

/-- On the way the courses that are still to be lodged can be lodged. -/
theorem Lodging.exists_lodgeable (h : d.Lodging t s crs) (hd : d.Represents P) (hI : I.Coherent) :
    ∃ M, t.Represents M ∧ Lodgeable M s crs := by
  induction h with
  | start hbefore hrooms =>
    obtain ⟨M, hM, hallotted⟩ := allottedAt_foldlM hI hbefore
    refine ⟨M, hM, hd.lodgeable hrooms ?_⟩
    intro b hb
    exact (lt_of_mem_take_finRange (hallotted.mem_iff.1 hb).1).ne
  | next _ hplaced ih =>
    obtain ⟨M, hM, hlodgeable⟩ := ih
    rw [hlodgeable.place_eq hI hM] at hplaced
    obtain rfl := Except.ok.inj hplaced
    exact ⟨_, hM.put (hlodgeable.free _ (List.mem_cons_self ..)), hlodgeable.next⟩

/-! ### What comes of it -/

theorem Represents.accommodates (h : d.Represents P) (hI : I.Coherent) (hok : d.withRooms = .ok t) :
    Accommodates t d := by
  obtain ⟨M, hM, hallotted⟩ := allottedAt_foldlM hI hok
  have hslot : ∀ s, ∃ rs, allot (d.coursesAt s) = .ok rs ∧
      t.bookingsAt s = lodgings s (d.coursesAt s) rs := fun s => by
    obtain ⟨rs, hrs⟩ := hallotted.exists_allot s (List.mem_finRange s)
    exact ⟨rs, hrs, hallotted.bookingsAt_eq h hM (List.mem_finRange s) hrs⟩
  have hset : t.bookings.toFinset = M := Finset.ext fun b => by
    rw [List.mem_toFinset, hM.mem_bookings]
  refine ⟨?_, hslot, hset.symm ▸ hM, ?_⟩
  · rw [Timetable.bookings, List.map_flatMap, placements]
    refine List.flatMap_congr fun s _ => ?_
    obtain ⟨rs, hrs, hbookings⟩ := hslot s
    rw [hbookings, map_placement_lodgings (suitable_of_allot hrs).length_eq]
  · intro b hb
    obtain ⟨N, hN, -, hsuited⟩ := h.withRooms hI hok
    exact hsuited b (hN.mem_bookings.1 hb)

theorem Represents.withRooms_eq_error_iff (h : d.Represents P) (hI : I.Coherent) :
    d.withRooms = .error ⟨c, s⟩ ↔
      allot (d.coursesAt s) = .error c ∧ ∀ x < s, allottable (d.coursesAt x) = true := by
  rcases h.withRooms_cases hI with ⟨t, ht, hall⟩ | ⟨c', s', herror, hc', hall⟩
  · refine iff_of_false (by simp [ht]) ?_
    rintro ⟨hc, -⟩
    exact not_allottable_of_allot hc (hall s)
  · rw [herror, Except.error.injEq, Shortage.mk.injEq]
    constructor
    · rintro ⟨rfl, rfl⟩
      exact ⟨hc', hall⟩
    · rintro ⟨hc, hbefore⟩
      rcases lt_trichotomy s' s with hlt | rfl | hlt
      · exact absurd (hbefore s' hlt) (not_allottable_of_allot hc')
      · exact ⟨Except.error.inj (hc'.symm.trans hc), rfl⟩
      · exact absurd (hall s hlt) (not_allottable_of_allot hc)

/-- Slots without courses need no rooms. -/
theorem forall_allottable_iff : (∀ s, allottable (d.coursesAt s) = true) ↔
    ∀ s, d.coursesAt s ≠ [] → allottable (d.coursesAt s) = true := by
  refine forall_congr' fun s => ⟨fun hs _ => hs, fun hs => ?_⟩
  by_cases hnil : d.coursesAt s = []
  · rw [hnil]
    rfl
  · exact hs hnil

/-- A draft that came about by changes gets rooms just when they can be allotted at every slot where it
    has courses. Then its timetable has the placements of the draft, in the rooms allotted, all suitable
    and available, and nothing is booked twice. Otherwise the first slot is told where the rooms fail,
    and the course that gets none. To lodge a course never fails. -/
theorem getsRooms_ofEdits {r : Records} {I : Instance} (h : r.resolve = .ok I)
    (es : List (Edit Meeting)) : (ofEdits es : Draft I).GetsRooms := by
  have hI := Records.coherent_of_resolve h
  obtain ⟨P, hP⟩ := exists_represents hI es
  refine ⟨(hP.exists_withRooms_iff hI).trans forall_allottable_iff, fun _ => hP.accommodates hI,
    fun _ _ => hP.withRooms_eq_error_iff hI, ?_⟩
  intro t s c r crs hlodging
  obtain ⟨M, hM, hlodgeable⟩ := hlodging.exists_lodgeable hP hI
  exact hlodgeable.place_eq hI hM

/-- The five courses get rooms together, but no longer when the first one has left. -/
theorem getsRooms_ofEdits_quintet : Records.quintet.resolve = .ok quintet ∧
    (∃ t, (ofEdits [.add ⟨0, 0, 0⟩, .add ⟨1, 0, 0⟩, .add ⟨2, 0, 0⟩, .add ⟨3, 0, 0⟩, .add ⟨4, 0, 0⟩] :
      Draft quintet).withRooms = .ok t) ∧
    (ofEdits [.add ⟨0, 0, 0⟩, .add ⟨1, 0, 0⟩, .add ⟨2, 0, 0⟩, .add ⟨3, 0, 0⟩, .add ⟨4, 0, 0⟩,
      .remove ⟨0, 0, 0⟩] : Draft quintet).withRooms = .error ⟨⟨4, by decide⟩, ⟨0, by decide⟩⟩ := by
  have hresolve : Records.quintet.resolve = .ok quintet := by decide
  refine ⟨hresolve, ?_, ?_⟩
  · refine (getsRooms_ofEdits hresolve _).exists_ok_iff.2 ?_
    decide
  · refine ((getsRooms_ofEdits hresolve _).error_iff _ _).2 ?_
    decide

end Draft

end Timetabling
