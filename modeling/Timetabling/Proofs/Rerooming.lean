import Timetabling.Proofs.Search
import Timetabling.Proofs.Timetable.History

/-! Timetables that give up their rooms and get rooms anew. A timetable may hold bookings at slots where
    their courses are not available, and those are lost on the way. A feasible timetable keeps all its
    placements when it gets rooms again, but it need not get them, since no room that was given out is
    taken back. What came out of a draft comes back as it was. -/

namespace Timetabling

open Instance Draw

variable {I : Instance}

namespace Timetable

open Booking

variable {t : Timetable I} {M : Finset (Booking I)}

/-! ### What is left without the rooms -/

/-- A booking is found in what is left just when it is found and its course is available. -/
theorem Represents.contains_withoutRooms_iff (h : t.Represents M) (hI : I.Coherent) {m : Meeting} :
    t.withoutRooms.contains m = true ↔
      ∃ b, t.find? m = some b ∧ I.isAvailable b.course b.slot = true := by
  have hd := (h.withoutRooms_available hI).toKeeps.answers hI
  simp only [Draft.contains, Option.isSome_iff_exists, hd.find?_eq_some_iff, h.find?_eq_some_iff,
    availablePlacements, Finset.mem_image, Finset.mem_filter]
  constructor
  · rintro ⟨_, ⟨b, ⟨hb, hav⟩, rfl⟩, hm⟩
    exact ⟨b, ⟨hb, hm⟩, hav⟩
  · rintro ⟨b, ⟨hb, hm⟩, hav⟩
    exact ⟨b.placement, ⟨b, ⟨hb, hav⟩, rfl⟩, hm⟩

/-- After the bookings before it, a booking is taken in just when its course is available. -/
theorem Represents.isSome_place? (h : t.Represents M) (hI : I.Coherent) {xs ys : List (Booking I)}
    {b : Booking I} (hb : t.bookings = xs ++ b :: ys) :
    ((Draft.ofBookings xs).place? b.course b.slot).isSome = I.isAvailable b.course b.slot := by
  have hmem : ∀ x ∈ xs ++ b :: ys, x ∈ M := fun x hx => h.mem_bookings.1 (hb ▸ hx)
  obtain ⟨hxs, -, hdisj⟩ := List.nodup_append.1 (hb ▸ h.nodup_bookings)
  have hsub : ∀ x ∈ xs, x ∈ M := fun x hx => hmem x (List.mem_append_left _ hx)
  have hnew : b ∉ xs.toFinset := fun hx =>
    hdisj b (List.mem_toFinset.1 hx) b (List.mem_cons_self ..) rfl
  have hadmits := admits_of_represents_available hI h.exclusive
    (represents_ofBookings hI h.exclusive hxs hsub) (fun x hx => hsub x (List.mem_toFinset.1 hx))
    (hmem b (by simp)) hnew
  rw [← hadmits, Draft.place?]
  cases (Draft.ofBookings xs).admits b.course b.slot <;> rfl

/-- Without its rooms a timetable has a meeting just when it had it in some room and the course is
    available there. Of the bookings that the draft is asked to take in, one after another, it turns
    down just those whose course is not. -/
theorem contains_withoutRooms_ofEdits {r : Records} {I : Instance} (h : r.resolve = .ok I)
    (es : List (Edit RoomMeeting)) :
    (∀ m : Meeting, (ofEdits es : Timetable I).withoutRooms.contains m = true ↔
      ∃ b, (ofEdits es : Timetable I).find? m = some b ∧ I.isAvailable b.course b.slot = true) ∧
    ∀ xs b ys, (ofEdits es : Timetable I).bookings = xs ++ b :: ys →
      ((Draft.ofBookings xs).place? b.course b.slot).isSome = I.isAvailable b.course b.slot := by
  have hI := Records.coherent_of_resolve h
  obtain ⟨M, hM⟩ := exists_represents hI es
  exact ⟨fun m => hM.contains_withoutRooms_iff hI, fun xs b ys hb => hM.isSome_place? hI hb⟩

theorem contains_withoutRooms_ofEdits_pair :
    (ofEdits [.add ⟨0, 0, 0, 0⟩, .add ⟨1, 1, 0, 1⟩] : Timetable pair).withoutRooms.contains
      ⟨1, 1, 0⟩ = true :=
  ((contains_withoutRooms_ofEdits Records.resolve_pair _).1 ⟨1, 1, 0⟩).2
    ⟨⟨⟨1, by decide⟩, ⟨1, by decide⟩, ⟨1, by decide⟩⟩, by decide, by decide⟩

/-- A booking at a slot where its course is not available is in the timetable and not in what is left:
    the draft does not take it in. -/
theorem withoutRooms_drops_booking_pair : Records.pair.resolve = .ok pair ∧
    ∃ (es : List (Edit RoomMeeting)) (b : Booking pair),
      (ofEdits es : Timetable pair).bookings = [b] ∧
      (ofEdits es : Timetable pair).find? b.placement.meeting = some b ∧
      (Draft.empty : Draft pair).place? b.course b.slot = none ∧
      (ofEdits es : Timetable pair).withoutRooms.contains b.placement.meeting = false :=
  ⟨Records.resolve_pair, [.add ⟨1, 0, 0, 0⟩], ⟨⟨1, by decide⟩, ⟨0, by decide⟩, ⟨0, by decide⟩⟩,
    by decide, by decide, by decide, by decide⟩

/-! ### Rooms anew -/

/-- How a timetable fares when it gives up its rooms and gets rooms anew. -/
structure Rerooms (t : Timetable I) : Prop where
  exists_iff : (∃ u, t.withoutRooms.withRooms = .ok u) ↔
    ∀ s, allottable ((t.bookingsAt s).map Booking.course) = true
  exists_of_le_card : (∀ s, ∀ a ∈ t.bookingsAt s, ∀ b ∈ t.bookingsAt s, a ≠ b →
    (t.bookingsAt s).length ≤ (roomsOfEither a.course b.course).card) →
      ∃ u, t.withoutRooms.withRooms = .ok u
  exists_of_length_le_two : (∀ s, (t.bookingsAt s).length ≤ 2) →
    ∃ u, t.withoutRooms.withRooms = .ok u
  placements_eq : ∀ {u}, t.withoutRooms.withRooms = .ok u →
    u.bookings.map placement = t.bookings.map placement
  feasible : ∀ {u}, t.withoutRooms.withRooms = .ok u → u.Feasible
  first_shortage : ∀ {c s}, t.withoutRooms.withRooms = .error ⟨c, s⟩ →
    allot ((t.bookingsAt s).map Booking.course) = .error c ∧
      ∀ x < s, allottable ((t.bookingsAt x).map Booking.course) = true

theorem Represents.coursesAt_withoutRooms (h : t.Represents M) (hI : I.Coherent)
    (hav : ∀ b ∈ M, I.isAvailable b.course b.slot = true) (s : Slot I) :
    t.withoutRooms.coursesAt s = (t.bookingsAt s).map Booking.course := by
  have hd := h.withoutRooms hI hav
  refine (hd.ascending_coursesAt s).eq_of_mem_iff
    (List.pairwise_map.2 (h.ascending_bookingsAt s)) ?_
  intro c
  simp only [hd.mem_coursesAt, Finset.mem_image, List.mem_map, h.mem_bookingsAt]
  constructor
  · rintro ⟨b, hb, he⟩
    obtain ⟨rfl, rfl⟩ := Placement.mk.inj he
    exact ⟨b, ⟨hb, rfl⟩, rfl⟩
  · rintro ⟨b, ⟨hb, rfl⟩, rfl⟩
    exact ⟨b, hb, rfl⟩

theorem Represents.placements_withoutRooms (h : t.Represents M) (hI : I.Coherent)
    (hav : ∀ b ∈ M, I.isAvailable b.course b.slot = true) :
    t.withoutRooms.placements = t.bookings.map placement := by
  rw [Draft.placements, bookings, List.map_flatMap]
  refine List.flatMap_congr ?_
  intro s _
  rw [h.coursesAt_withoutRooms hI hav, List.map_map]
  refine List.map_congr_left ?_
  intro b hb
  rw [← (h.mem_bookingsAt.1 hb).2]
  rfl

/-- The rooms of two bookings at one slot suit one or the other. -/
theorem Represents.one_lt_card_roomsOfEither (h : t.Represents M) (hsuited : ∀ b ∈ M, b.Suited)
    {s : Slot I} {a b : Booking I} (ha : a ∈ t.bookingsAt s) (hb : b ∈ t.bookingsAt s) (hne : a ≠ b) :
    1 < (roomsOfEither a.course b.course).card := by
  obtain ⟨haM, hsa⟩ := h.mem_bookingsAt.1 ha
  obtain ⟨hbM, hsb⟩ := h.mem_bookingsAt.1 hb
  have hapart := h.exclusive a haM b hbM (hsa.trans hsb.symm) hne
  exact Finset.one_lt_card.2 ⟨a.room, mem_roomsOfEither.2 (.inl (hsuited a haM).2), b.room,
    mem_roomsOfEither.2 (.inr (hsuited b hbM).2), hapart.1⟩

/-- A slot where somebody gets no room holds two bookings with fewer suitable rooms between them than
    there are bookings. -/
theorem Represents.exists_rival (h : t.Represents M) (hsuited : ∀ b ∈ M, b.Suited) {s : Slot I}
    {c : CourseIx I} (herror : allot ((t.bookingsAt s).map Booking.course) = .error c) :
    ∃ a ∈ t.bookingsAt s, ∃ b ∈ t.bookingsAt s, a ≠ b ∧
      (roomsOfEither a.course b.course).card < (t.bookingsAt s).length := by
  have hasc : Ascending Fin.val ((t.bookingsAt s).map Booking.course) :=
    List.pairwise_map.2 (h.ascending_bookingsAt s)
  obtain ⟨a, ha, rfl⟩ := List.mem_map.1 (lt_length_of_allot herror).1
  -- the room it had is suitable, so it is a rival that took its last one
  have hroom := mem_suitableRooms.2 (hsuited a (h.mem_bookingsAt.1 ha).1).2
  obtain ⟨d, hd, hne, hlt⟩ := exists_rival_of_allot hasc.nodup herror (List.ne_nil_of_mem hroom)
  obtain ⟨b, hb, rfl⟩ := List.mem_map.1 hd
  rw [List.length_map] at hlt
  exact ⟨a, ha, b, hb, fun e => hne (congrArg Booking.course e.symm), hlt⟩

/-- Rooms come back at every slot, or the first slot is told of where they do not. -/
theorem Represents.rerooming_cases (h : t.Represents M) (hI : I.Coherent)
    (hav : ∀ b ∈ M, I.isAvailable b.course b.slot = true) :
    (∃ u, t.withoutRooms.withRooms = .ok u ∧
        ∀ s, allottable ((t.bookingsAt s).map Booking.course) = true) ∨
      ∃ c s, t.withoutRooms.withRooms = .error ⟨c, s⟩ ∧
        allot ((t.bookingsAt s).map Booking.course) = .error c ∧
        ∀ x < s, allottable ((t.bookingsAt x).map Booking.course) = true := by
  have hcases := (h.withoutRooms hI hav).withRooms_cases hI
  simpa only [h.coursesAt_withoutRooms hI hav] using hcases

theorem Represents.exists_rerooming_iff (h : t.Represents M) (hI : I.Coherent)
    (hav : ∀ b ∈ M, I.isAvailable b.course b.slot = true) :
    (∃ u, t.withoutRooms.withRooms = .ok u) ↔
      ∀ s, allottable ((t.bookingsAt s).map Booking.course) = true := by
  have hiff := (h.withoutRooms hI hav).exists_withRooms_iff hI
  simpa only [h.coursesAt_withoutRooms hI hav] using hiff

theorem Represents.exists_rerooming_of_le_card (h : t.Represents M) (hI : I.Coherent)
    (hsuited : ∀ b ∈ M, b.Suited)
    (henough : ∀ s, ∀ a ∈ t.bookingsAt s, ∀ b ∈ t.bookingsAt s, a ≠ b →
      (t.bookingsAt s).length ≤ (roomsOfEither a.course b.course).card) :
    ∃ u, t.withoutRooms.withRooms = .ok u := by
  rcases h.rerooming_cases hI (fun b hb => (hsuited b hb).1) with ⟨u, hu, -⟩ | ⟨c, s, -, hc, -⟩
  · exact ⟨u, hu⟩
  · obtain ⟨a, ha, b, hb, hne, hlt⟩ := h.exists_rival hsuited hc
    exact absurd (henough s a ha b hb hne) (not_le.2 hlt)

/-- What comes back has the placements that there were. -/
theorem Represents.map_placement_rerooming (h : t.Represents M) (hI : I.Coherent)
    (hav : ∀ b ∈ M, I.isAvailable b.course b.slot = true) {u : Timetable I}
    (hu : t.withoutRooms.withRooms = .ok u) :
    u.bookings.map placement = t.bookings.map placement := by
  have hd := h.withoutRooms hI hav
  obtain ⟨N, hN, -, hsuited⟩ := hd.withRooms hI hu
  calc u.bookings.map placement
      = u.withoutRooms.placements :=
        (hN.placements_withoutRooms hI fun b hb => (hsuited b hb).1).symm
    _ = t.withoutRooms.placements := by rw [hd.withoutRooms_of_withRooms hI hu]
    _ = t.bookings.map placement := h.placements_withoutRooms hI hav

theorem Represents.rerooms (h : t.Represents M) (hI : I.Coherent) (hfeasible : t.Feasible) :
    t.Rerooms := by
  obtain ⟨hlectures, hsuited⟩ := (h.feasible_iff hI).1 hfeasible
  have hav : ∀ b ∈ M, I.isAvailable b.course b.slot = true := fun b hb => (hsuited b hb).1
  have hcovers : t.Covers wanted := ⟨⟨M, h, hsuited⟩, hlectures⟩
  refine ⟨h.exists_rerooming_iff hI hav, h.exists_rerooming_of_le_card hI hsuited, ?_,
    h.map_placement_rerooming hI hav, ?_, ?_⟩
  · intro hfew
    refine h.exists_rerooming_of_le_card hI hsuited ?_
    intro s a ha b hb hne
    exact (hfew s).trans (h.one_lt_card_roomsOfEither hsuited ha hb hne)
  · intro u hu
    exact ((hcovers.withoutRooms hI).withRooms hI hu).feasible hI
  · intro c s herror
    rcases h.rerooming_cases hI hav with ⟨u, hu, -⟩ | ⟨c', s', herror', hc, hall⟩
    · rw [hu] at herror
      cases herror
    · rw [herror'] at herror
      obtain ⟨rfl, rfl⟩ := Shortage.mk.inj (Except.error.inj herror)
      exact ⟨hc, hall⟩

/-- A feasible timetable that gives up its rooms gets rooms again just when they can be allotted slot
    by slot, which is so when any two courses of a slot have enough suitable rooms between them, and
    when no slot has more than two courses. Then it keeps all its placements and is feasible again.
    Otherwise the first slot is named where a course gets no room. -/
theorem rerooms_ofEdits {r : Records} {I : Instance} (h : r.resolve = .ok I)
    (es : List (Edit RoomMeeting))
    (hfeasible : (ofEdits es : Timetable I).Feasible) :
    (ofEdits es : Timetable I).Rerooms := by
  have hI := Records.coherent_of_resolve h
  obtain ⟨M, hM⟩ := exists_represents hI es
  exact hM.rerooms hI hfeasible

theorem rerooms_ofEdits_pair :
    (ofEdits [.add ⟨0, 0, 0, 0⟩, .add ⟨1, 1, 0, 1⟩] : Timetable pair).Feasible ∧
      (ofEdits [.add ⟨0, 0, 0, 0⟩, .add ⟨1, 1, 0, 1⟩] : Timetable pair).Rerooms :=
  ⟨by decide, rerooms_ofEdits Records.resolve_pair _ (by decide)⟩

end Timetable

/-- Three courses that have to share one slot and its three rooms. Each may use two of the rooms, and the
    room that fits the first course best is one of two that the others need. -/
def Records.trio : Records where
  days := 1
  periods := 1
  courses := [⟨"algebra", "noether", 1, 1, 10, false, [], 0⟩,
    ⟨"optics", "meitner", 1, 1, 10, false, [], 0⟩,
    ⟨"logic", "peter", 1, 1, 10, false, [], 0⟩]
  rooms := [⟨"hall", 20, 0⟩, ⟨"attic", 10, 0⟩, ⟨"cellar", 10, 0⟩]
  roomConstraints := [⟨"algebra", "cellar"⟩, ⟨"optics", "hall"⟩, ⟨"logic", "hall"⟩]

/-- What the records of the trio stand for. -/
def Instance.trio : Instance where
  name := ""
  days := 1
  periods := 1
  daily := ⟨0, 0⟩
  courses := #[⟨"algebra", "noether", 1, 1, 10, false, [], 0⟩,
    ⟨"optics", "meitner", 1, 1, 10, false, [], 1⟩,
    ⟨"logic", "peter", 1, 1, 10, false, [], 2⟩]
  rooms := #[⟨"hall", 20, 0⟩, ⟨"attic", 10, 0⟩, ⟨"cellar", 10, 0⟩]
  curricula := #[]
  teachers := #["noether", "meitner", "peter"]
  unavailable := ⟨1, #[false, false, false]⟩
  forbidden := ⟨3, #[false, false, true, true, false, false, true, false, false]⟩

namespace Timetable

/-- The trio has a feasible timetable, but without its rooms it does not get rooms again: the first
    course takes the attic, the second the cellar, and none is left for the third. -/
theorem not_exists_rerooming_trio : Records.trio.resolve = .ok Instance.trio ∧
    ∃ es, (ofEdits es : Timetable trio).Feasible ∧
      (ofEdits es : Timetable trio).withoutRooms.withRooms =
        .error ⟨⟨2, by decide⟩, ⟨0, by decide⟩⟩ :=
  ⟨by decide, [.add ⟨0, 0, 0, 0⟩, .add ⟨1, 0, 0, 1⟩, .add ⟨2, 0, 0, 2⟩], by decide, by decide⟩

end Timetable

/-! ### There and back -/

section

variable {σ : Type} [WordSource σ]

/-- When a draft gets rooms and its timetable gives them up again, the draft is there again, and it gets
    the same rooms. So every timetable of a search comes back when it gives up its rooms and gets rooms
    anew. -/
theorem restored_of_withRooms {r : Records} {I : Instance} (h : r.resolve = .ok I) :
    (∀ es t, (Draft.ofEdits es : Draft I).withRooms = .ok t →
      t.withoutRooms = Draft.ofEdits es ∧ t.withoutRooms.withRooms = .ok t) ∧
    ∀ strategy steps, Gives (Search.run strategy steps : Draw σ (Search I)) fun x =>
      ∀ t ∈ x.population, t.withoutRooms.withRooms = .ok t := by
  have hI := Records.coherent_of_resolve h
  constructor
  · intro es t hok
    obtain ⟨P, hP⟩ := Draft.exists_represents hI es
    have hback := hP.withoutRooms_of_withRooms hI hok
    exact ⟨hback, by rwa [hback]⟩
  · intro strategy steps
    refine (Search.gives_run_lodged hI strategy steps).mono ?_
    intro x hx t ht
    exact (hx t ht).withRooms_withoutRooms hI

theorem restored_of_withRooms_pair :
    (∃ t, (Draft.ofEdits [.add ⟨0, 0, 0⟩, .add ⟨1, 1, 0⟩] : Draft pair).withRooms = .ok t ∧
      t.withoutRooms.withRooms = .ok t) ∧
    ∃ (x : Search pair) (rest : Script),
      (Search.run {} [.populate 2, .cross 0 1, .mutate 0]).run ⟨#[3, 5, 8], 0⟩ = some (x, rest) ∧
      ∀ t ∈ x.population, t.withoutRooms.withRooms = .ok t := by
  obtain ⟨hdraft, hsearch⟩ := restored_of_withRooms (σ := Script) Records.resolve_pair
  refine ⟨?_, hsearch {} [.populate 2, .cross 0 1, .mutate 0] ⟨#[3, 5, 8], 0⟩⟩
  have hrooms : (Draft.ofEdits [.add ⟨0, 0, 0⟩, .add ⟨1, 1, 0⟩] : Draft pair).withRooms.isOk =
      true := by decide
  cases hok : (Draft.ofEdits [.add ⟨0, 0, 0⟩, .add ⟨1, 1, 0⟩] : Draft pair).withRooms with
  | ok t => exact ⟨t, rfl, (hdraft _ t hok).2⟩
  | error e =>
    rw [hok] at hrooms
    cases hrooms

end

end Timetabling
