import Timetabling.Proofs.Allotment
import Timetabling.Proofs.Draft.Demand
import Timetabling.Proofs.Timetable.Representation

/-! Between drafts and timetables. A timetable without its rooms is a draft with the same lectures: a
    slot never lacks capacity, because the bookings there are in different rooms. A draft that gets
    rooms becomes a timetable with the same lectures in suitable rooms. -/

namespace Timetabling

open Instance

variable {I : Instance}

instance (b : Booking I) : Decidable b.Suited := inferInstanceAs (Decidable (_ ∧ _))

namespace Booking

variable {M N : Finset (Booking I)} {b : Booking I}

/-- Without the rooms two bookings of an exclusive set can still be told apart. -/
theorem Exclusive.injOn_placement (h : Exclusive M) : Set.InjOn placement (M : Set (Booking I)) :=
  fun a ha b hb e => by
    obtain ⟨hc, hs⟩ := Placement.mk.inj e
    exact h.eq_of_course ha hb hs hc

theorem Exclusive.count_image (h : Exclusive M) (c : CourseIx I) :
    Placement.count (M.image placement) c = count M c := by
  rw [Placement.count, Finset.filter_image]
  exact Finset.card_image_of_injOn (h.injOn_placement.mono (Finset.filter_subset ..))

/-- A booking of an exclusive set has its room for itself, so the others at its slot are fewer than
    the rooms. -/
theorem Exclusive.load_lt (h : Exclusive M) (hN : N ⊆ M) (hb : b ∈ M) (hbN : b ∉ N) :
    Placement.load (N.image placement) b.slot < I.rooms.size := by
  set A := N.filter fun x => x.slot = b.slot
  have hbA : b ∉ A := fun hx => hbN (Finset.mem_filter.1 hx).1
  have hat : ∀ x ∈ Finset.cons b A hbA, x ∈ M ∧ x.slot = b.slot := by
    intro x hx
    rcases Finset.mem_cons.1 hx with rfl | hx
    · exact ⟨hb, rfl⟩
    · exact ⟨hN (Finset.mem_filter.1 hx).1, (Finset.mem_filter.1 hx).2⟩
  have hinj : Set.InjOn room (Finset.cons b A hbA : Set (Booking I)) := fun x hx y hy e =>
    h.eq_of_room (hat x hx).1 (hat y hy).1 ((hat x hx).2.trans (hat y hy).2.symm) e
  calc Placement.load (N.image placement) b.slot
      ≤ A.card := by
        rw [Placement.load, Finset.filter_image]
        exact Finset.card_image_le
    _ < (Finset.cons b A hbA).card := by
        rw [Finset.card_cons]
        exact Nat.lt_succ_self _
    _ ≤ (Finset.univ : Finset (RoomIx I)).card :=
        Finset.card_le_card_of_injOn room (fun _ _ => Finset.mem_univ _) hinj
    _ = I.rooms.size := Finset.card_fin _

/-- The placements of the bookings whose courses are available at their slots. -/
def availablePlacements (M : Finset (Booking I)) : Finset (Placement I) :=
  (M.filter fun b => I.isAvailable b.course b.slot = true).image placement

theorem availablePlacements_insert (M : Finset (Booking I)) (b : Booking I) :
    availablePlacements (insert b M) =
      if I.isAvailable b.course b.slot = true then insert b.placement (availablePlacements M)
      else availablePlacements M := by
  rw [availablePlacements, Finset.filter_insert]
  split
  · exact Finset.image_insert ..
  · rfl

end Booking

namespace Draft

/-- The draft that takes in bookings one after another, as far as it admits them. -/
def ofBookings (bs : List (Booking I)) : Draft I :=
  bs.foldl (fun d b => d.placed b.course b.slot) empty

theorem ofBookings_concat (bs : List (Booking I)) (b : Booking I) :
    ofBookings (bs ++ [b]) = (ofBookings bs).placed b.course b.slot := by
  simp [ofBookings, List.foldl_append]

end Draft

namespace Timetable

open Booking

/-- The lectures of the course that are booked. -/
def lectures (t : Timetable I) (c : CourseIx I) : Nat := (t.bookingsOf c).length

/-- The tables of the timetable tell of one set of bookings that keep out of each other's way, each
    at an available slot and in a suitable room. -/
def Sound (t : Timetable I) : Prop := ∃ M, t.Represents M ∧ ∀ b ∈ M, b.Suited

/-- The timetable is sound and has the lectures that are demanded, no fewer and no more. -/
structure Covers (t : Timetable I) (demand : CourseIx I → Nat) : Prop where
  sound : t.Sound
  lectures_eq : ∀ c, t.lectures c = demand c

variable {t : Timetable I} {M : Finset (Booking I)}

theorem Keeps.lectures_eq (h : t.Keeps M) (c : CourseIx I) : t.lectures c = count M c :=
  h.length_bookingsOf c

/-! ### Away with the rooms -/

theorem withoutRooms_eq_ofBookings (t : Timetable I) :
    t.withoutRooms = Draft.ofBookings t.bookings := rfl

/-- Taking in bookings of an exclusive set, the draft admits the next one just when its course is
    available: the rooms already keep the load down and the conflicts out. -/
theorem admits_of_represents_available (hI : I.Coherent) (hM : Exclusive M) {N : Finset (Booking I)}
    {b : Booking I} {d : Draft I} (hd : d.Represents (availablePlacements N)) (hN : N ⊆ M) (hb : b ∈ M)
    (hbN : b ∉ N) : d.admits b.course b.slot = I.isAvailable b.course b.slot := by
  have hsub : (N.filter fun b => I.isAvailable b.course b.slot = true) ⊆ M :=
    (Finset.filter_subset ..).trans hN
  have hload := hM.load_lt hsub hb fun hmem => hbN (Finset.mem_of_mem_filter b hmem)
  have hfree : Placement.Free (availablePlacements N) b.course b.slot := by
    intro c hc
    obtain ⟨o, ho, he⟩ := Finset.mem_image.1 hc
    obtain ⟨rfl, hs⟩ := Placement.mk.inj he
    have ho := Finset.mem_of_mem_filter o ho
    exact (hM b hb o (hN ho) hs.symm fun e => hbN (e ▸ ho)).2
  rw [Bool.eq_iff_iff, hd.admits_iff hI]
  exact ⟨fun h => h.2.1, fun h => ⟨hload, h, hfree⟩⟩

/-- Of an exclusive set the draft takes in every booking whose course is available. -/
theorem represents_ofBookings (hI : I.Coherent) (hM : Exclusive M) {bs : List (Booking I)}
    (hnd : bs.Nodup) (hbs : ∀ b ∈ bs, b ∈ M) :
    (Draft.ofBookings bs).Represents (availablePlacements bs.toFinset) := by
  induction bs using List.reverseRecOn with
  | nil => simpa [availablePlacements, Draft.ofBookings] using Draft.represents_empty
  | append_singleton bs b ih =>
    obtain ⟨hnd, -, hdisj⟩ := List.nodup_append.1 hnd
    have hd := ih hnd fun x hx => hbs x (List.mem_append_left _ hx)
    have hnew : b ∉ bs.toFinset := fun hx =>
      hdisj b (List.mem_toFinset.1 hx) b (List.mem_singleton_self b) rfl
    have ha := admits_of_represents_available hI hM hd
      (fun x hx => hbs x (by simp [List.mem_toFinset.1 hx])) (hbs b (by simp)) hnew
    have hset : (bs ++ [b]).toFinset = insert b bs.toFinset := by
      rw [List.toFinset_append, Finset.union_comm]
      rfl
    rw [Draft.ofBookings_concat, hset, availablePlacements_insert]
    split
    · rename_i hav
      rw [Draft.placed_eq_put (ha.trans hav)]
      exact hd.put hI (ha.trans hav)
    · rename_i hav
      rw [Draft.placed_eq_self (ha.trans (Bool.eq_false_of_not_eq_true hav))]
      exact hd

/-- What is left without the rooms: the bookings whose courses are available at their slots. -/
theorem Represents.withoutRooms_available (h : t.Represents M) (hI : I.Coherent) :
    t.withoutRooms.Represents (availablePlacements M) := by
  have hbookings := represents_ofBookings hI h.exclusive h.nodup_bookings
    fun b hb => h.mem_bookings.1 hb
  have hset : t.bookings.toFinset = M := Finset.ext fun b => by
    rw [List.mem_toFinset, h.mem_bookings]
  rwa [hset, ← withoutRooms_eq_ofBookings] at hbookings

theorem Represents.withoutRooms (h : t.Represents M) (hI : I.Coherent)
    (hav : ∀ b ∈ M, I.isAvailable b.course b.slot = true) :
    t.withoutRooms.Represents (M.image placement) := by
  have hd := h.withoutRooms_available hI
  rwa [availablePlacements, Finset.filter_true_of_mem hav] at hd

/-- No lecture is lost or gained when the rooms are given up. -/
theorem Covers.withoutRooms {demand : CourseIx I → Nat} (h : t.Covers demand) (hI : I.Coherent) :
    t.withoutRooms.Covers [] demand := by
  obtain ⟨⟨M, hM, hsuited⟩, hdemand⟩ := h
  have hd := hM.withoutRooms hI fun b hb => (hsuited b hb).1
  refine ⟨⟨_, hd⟩, ?_⟩
  intro c
  rw [List.count_nil, Nat.add_zero, Draft.lectures, hd.length_slotsOf, hM.exclusive.count_image,
    ← hM.lectures_eq, hdemand]

end Timetable

/-! ### Rooms for a draft -/

namespace Draft

open Booking

variable {d : Draft I} {t u : Timetable I} {M : Finset (Booking I)}

/-- What is lodged at a slot comes on top of what the timetable had. -/
theorem represents_lodge (hI : I.Coherent) {s : Slot I} {crs : List (CourseIx I × RoomIx I)}
    (ht : t.Represents M) (hok : lodge s t crs = .ok u) :
    ∃ N, u.Represents N ∧ ∀ b, b ∈ N ↔ b ∈ M ∨ b.slot = s ∧ (b.course, b.room) ∈ crs := by
  induction crs generalizing t M with
  | nil =>
    obtain rfl := Except.ok.inj hok
    exact ⟨M, ht, by simp⟩
  | cons cr crs ih =>
    obtain ⟨c, r⟩ := cr
    rw [lodge] at hok
    split at hok
    · rename_i t' hplace
      obtain ⟨hclash, rfl⟩ := Timetable.place_eq_ok_iff.1 hplace
      have hfree := (ht.clash?_eq_none_iff_free hI).1 hclash
      obtain ⟨N, hN, hmem⟩ := ih (ht.put hfree) hok
      refine ⟨N, hN, ?_⟩
      intro b
      rw [hmem, Finset.mem_insert, List.mem_cons, Prod.mk.injEq]
      constructor
      · rintro ((rfl | hb) | ⟨hs, hb⟩)
        · exact .inr ⟨rfl, .inl ⟨rfl, rfl⟩⟩
        · exact .inl hb
        · exact .inr ⟨hs, .inr hb⟩
      · rintro (hb | ⟨rfl, ⟨rfl, rfl⟩ | hb⟩)
        · exact .inl (.inr hb)
        · exact .inl (.inl rfl)
        · exact .inr ⟨rfl, hb⟩
    · cases hok

/-- The bookings are the placements of the draft at these slots, each in a suitable room. -/
structure HousedAt (d : Draft I) (ss : List (Slot I)) (M : Finset (Booking I)) : Prop where
  suitable : ∀ b ∈ M, I.isSuitable b.course b.room = true
  exists_mem_iff : ∀ {c s}, (∃ b ∈ M, b.placement = ⟨c, s⟩) ↔ c ∈ d.coursesAt s ∧ s ∈ ss

/-- The bookings are those of the courses at these slots, each in the room that is allotted to it. -/
structure AllottedAt (d : Draft I) (ss : List (Slot I)) (M : Finset (Booking I)) : Prop where
  exists_allot : ∀ s ∈ ss, ∃ rs, allot (d.coursesAt s) = .ok rs
  mem_iff : ∀ {b}, b ∈ M ↔ b.slot ∈ ss ∧
    ∃ rs, allot (d.coursesAt b.slot) = .ok rs ∧ (b.course, b.room) ∈ (d.coursesAt b.slot).zip rs

theorem AllottedAt.housedAt {ss : List (Slot I)} (h : d.AllottedAt ss M) : d.HousedAt ss M where
  suitable b hb := by
    obtain ⟨-, rs, hrs, hmem⟩ := h.mem_iff.1 hb
    exact (List.forall₂_iff_zip.1 (suitable_of_allot hrs)).2 hmem
  exists_mem_iff {c s} := by
    constructor
    · rintro ⟨b, hb, he⟩
      obtain ⟨rfl, rfl⟩ := Placement.mk.inj he
      obtain ⟨hs, rs, -, hmem⟩ := h.mem_iff.1 hb
      exact ⟨(List.of_mem_zip hmem).1, hs⟩
    · rintro ⟨hc, hs⟩
      obtain ⟨rs, hrs⟩ := h.exists_allot s hs
      rw [← List.map_fst_zip (suitable_of_allot hrs).length_eq.le] at hc
      obtain ⟨⟨c', r⟩, hr, rfl⟩ := List.mem_map.1 hc
      exact ⟨⟨c', s, r⟩, h.mem_iff.2 ⟨hs, rs, hrs, hr⟩, rfl⟩

theorem AllottedAt.lodgeSlot {ss : List (Slot I)} {s : Slot I} (h : d.AllottedAt ss M)
    (hI : I.Coherent) (ht : t.Represents M) (hok : d.lodgeSlot t s = .ok u) :
    ∃ N, u.Represents N ∧ d.AllottedAt (ss ++ [s]) N := by
  unfold Draft.lodgeSlot at hok
  split at hok
  · rename_i rs hrs
    obtain ⟨N, hN, hmem⟩ := represents_lodge hI ht hok
    refine ⟨N, hN, ?_, ?_⟩
    · intro x hx
      rcases List.mem_append.1 hx with hx | hx
      · exact h.exists_allot x hx
      · exact ⟨rs, List.mem_singleton.1 hx ▸ hrs⟩
    · intro b
      rw [hmem, h.mem_iff, List.mem_append, List.mem_singleton]
      constructor
      · rintro (⟨hs, hb⟩ | ⟨rfl, hb⟩)
        · exact ⟨.inl hs, hb⟩
        · exact ⟨.inr rfl, rs, hrs, hb⟩
      · rintro ⟨hs | rfl, rs', hrs', hb⟩
        · exact .inl ⟨hs, rs', hrs', hb⟩
        · obtain rfl := Except.ok.inj (hrs.symm.trans hrs')
          exact .inr ⟨rfl, hb⟩
  · cases hok

/-- The last slot gets its rooms when all before it have theirs. -/
theorem foldlM_lodgeSlot_concat (ss : List (Slot I)) (s : Slot I) :
    (ss ++ [s]).foldlM d.lodgeSlot .empty =
      ss.foldlM d.lodgeSlot .empty >>= fun t => d.lodgeSlot t s := by
  simp

theorem allottedAt_foldlM (hI : I.Coherent) {ss : List (Slot I)}
    (hok : ss.foldlM d.lodgeSlot .empty = .ok t) : ∃ M, t.Represents M ∧ d.AllottedAt ss M := by
  induction ss using List.reverseRecOn generalizing t with
  | nil =>
    obtain rfl := Except.ok.inj hok
    exact ⟨∅, Timetable.represents_empty, by simp, by simp⟩
  | append_singleton ss s ih =>
    rw [foldlM_lodgeSlot_concat] at hok
    cases hss : ss.foldlM d.lodgeSlot .empty with
    | error e =>
      rw [hss] at hok
      cases hok
    | ok t' =>
      rw [hss] at hok
      obtain ⟨M, hM, hallotted⟩ := ih hss
      exact hallotted.lodgeSlot hI hM hok

theorem Represents.withRooms {P : Finset (Placement I)} (h : d.Represents P) (hI : I.Coherent)
    (hok : d.withRooms = .ok t) :
    ∃ M, t.Represents M ∧ M.image placement = P ∧ ∀ b ∈ M, b.Suited := by
  obtain ⟨M, hM, hallotted⟩ := allottedAt_foldlM hI hok
  have hhoused := hallotted.housedAt
  have himage : M.image placement = P := Finset.ext fun ⟨c, s⟩ => by
    rw [Finset.mem_image, hhoused.exists_mem_iff, h.mem_coursesAt]
    simp
  refine ⟨M, hM, himage, fun b hb => ⟨h.available (p := b.placement) ?_, hhoused.suitable b hb⟩⟩
  rw [← himage]
  exact Finset.mem_image_of_mem placement hb

/-! ### Rooms for every slot or a shortage -/

/-- The courses can be lodged at the slot in these rooms: no booking of the set stands in the way of one
    of them, and none of them in the way of another. -/
structure Lodgeable (M : Finset (Booking I)) (s : Slot I) (crs : List (CourseIx I × RoomIx I)) :
    Prop where
  free : ∀ cr ∈ crs, Free M ⟨cr.1, s, cr.2⟩
  apart : crs.Pairwise fun x y => Apart ⟨x.1, s, x.2⟩ ⟨y.1, s, y.2⟩

section

variable {s : Slot I} {c : CourseIx I} {r : RoomIx I} {crs : List (CourseIx I × RoomIx I)}

theorem Lodgeable.place_eq (h : Lodgeable M s ((c, r) :: crs)) (hI : I.Coherent)
    (ht : t.Represents M) : t.place ⟨c, s, r⟩ = .ok (t.put ⟨c, s, r⟩) := by
  refine Timetable.place_eq_ok_iff.2 ⟨(ht.clash?_eq_none_iff_free hI).2 ?_, rfl⟩
  exact h.free (c, r) (List.mem_cons_self ..)

/-- Once the first course is lodged, the others still can be. -/
theorem Lodgeable.next (h : Lodgeable M s ((c, r) :: crs)) :
    Lodgeable (insert ⟨c, s, r⟩ M) s crs := by
  obtain ⟨hfirst, hrest⟩ := List.pairwise_cons.1 h.apart
  refine ⟨?_, hrest⟩
  intro x hx o ho hs
  rcases Finset.mem_insert.1 ho with rfl | ho
  · exact (hfirst x hx).symm
  · exact h.free x (List.mem_cons_of_mem _ hx) o ho hs

theorem exists_lodge (hI : I.Coherent) (h : Lodgeable M s crs) (ht : t.Represents M) :
    ∃ u, lodge s t crs = .ok u := by
  induction crs generalizing t M with
  | nil => exact ⟨t, rfl⟩
  | cons cr crs ih =>
    obtain ⟨c, r⟩ := cr
    simp only [lodge, h.place_eq hI ht]
    exact ih h.next (ht.put (h.free (c, r) (List.mem_cons_self ..)))

/-- Whatever rooms are allotted to the courses of a slot, the courses can be lodged there. -/
theorem Represents.lodgeable {P : Finset (Placement I)} (h : d.Represents P) {rs : List (RoomIx I)}
    (hrs : allot (d.coursesAt s) = .ok rs) (hM : ∀ b ∈ M, b.slot ≠ s) :
    Lodgeable M s ((d.coursesAt s).zip rs) := by
  have hlen := (suitable_of_allot hrs).length_eq
  have hcourses : (d.coursesAt s).Pairwise fun a b => conflict a b = false :=
    (h.ascending_coursesAt s).nodup.pairwise_of_forall_ne fun a ha b hb =>
      h.conflict_eq_false (h.mem_coursesAt.1 ha) (h.mem_coursesAt.1 hb)
  have hrooms := nodup_of_allot hrs
  rw [← List.map_fst_zip hlen.le] at hcourses
  rw [← List.map_snd_zip hlen.ge] at hrooms
  refine ⟨?_, (List.pairwise_map.1 hrooms).and (List.pairwise_map.1 hcourses)⟩
  intro cr _ o ho hs
  exact absurd hs (hM o ho)

end

theorem Represents.exists_lodgeSlot {P : Finset (Placement I)} (h : d.Represents P) (hI : I.Coherent)
    {s : Slot I} {rs : List (RoomIx I)} (hrs : allot (d.coursesAt s) = .ok rs) (ht : t.Represents M)
    (hM : ∀ b ∈ M, b.slot ≠ s) : ∃ u, d.lodgeSlot t s = .ok u := by
  simp only [lodgeSlot, hrs]
  exact exists_lodge hI (h.lodgeable hrs hM) ht

/-- Slot after slot gets its rooms until at one of them a course gets none. -/
theorem Represents.foldlM_lodgeSlot_cases {P : Finset (Placement I)} (h : d.Represents P)
    (hI : I.Coherent) {ss : List (Slot I)} (hss : ss.Nodup) :
    (∃ t, ss.foldlM d.lodgeSlot .empty = .ok t ∧ ∀ s ∈ ss, allottable (d.coursesAt s) = true) ∨
      ∃ xs s ys c, ss = xs ++ s :: ys ∧ ss.foldlM d.lodgeSlot .empty = .error ⟨c, s⟩ ∧
        allot (d.coursesAt s) = .error c ∧ ∀ x ∈ xs, allottable (d.coursesAt x) = true := by
  induction ss using List.reverseRecOn with
  | nil => exact .inl ⟨.empty, rfl, nofun⟩
  | append_singleton ss s ih =>
    obtain ⟨hss, -, hdisj⟩ := List.nodup_append.1 hss
    rw [foldlM_lodgeSlot_concat]
    rcases ih hss with ⟨t, ht, hall⟩ | ⟨xs, s', ys, c, rfl, herror, hc, hall⟩
    · rw [ht]
      cases hrs : allot (d.coursesAt s) with
      | error c =>
        refine .inr ⟨ss, s, [], c, rfl, ?_, hrs, hall⟩
        change d.lodgeSlot t s = _
        rw [lodgeSlot, hrs]
      | ok rs =>
        obtain ⟨M, hM, hallotted⟩ := allottedAt_foldlM hI ht
        have hother : ∀ b ∈ M, b.slot ≠ s := fun b hb e =>
          hdisj b.slot (hallotted.mem_iff.1 hb).1 s (List.mem_singleton_self s) e
        obtain ⟨u, hu⟩ := h.exists_lodgeSlot hI hrs hM hother
        refine .inl ⟨u, hu, ?_⟩
        intro x hx
        rcases List.mem_append.1 hx with hx | hx
        · exact hall x hx
        · obtain rfl := List.mem_singleton.1 hx
          exact allottable_of_allot hrs
    · rw [herror]
      exact .inr ⟨xs, s', ys ++ [s], c, by simp, rfl, hc, hall⟩

/-- Rooms can be given out when they can be at every slot, and the first slot where they cannot is
    the one that is told of. -/
theorem Represents.withRooms_cases {P : Finset (Placement I)} (h : d.Represents P) (hI : I.Coherent) :
    (∃ t, d.withRooms = .ok t ∧ ∀ s, allottable (d.coursesAt s) = true) ∨
      ∃ c s, d.withRooms = .error ⟨c, s⟩ ∧ allot (d.coursesAt s) = .error c ∧
        ∀ x < s, allottable (d.coursesAt x) = true := by
  rcases h.foldlM_lodgeSlot_cases hI (List.nodup_finRange _) with
    ⟨t, ht, hall⟩ | ⟨xs, s, ys, c, hslots, herror, hc, hall⟩
  · exact .inl ⟨t, ht, fun s => hall s (List.mem_finRange s)⟩
  · refine .inr ⟨c, s, herror, hc, ?_⟩
    intro x hx
    have hordered := hslots ▸ List.pairwise_lt_finRange I.slotCount
    have hmem : x ∈ xs ++ s :: ys := hslots ▸ List.mem_finRange x
    rcases List.mem_append.1 hmem with hmem | hmem
    · exact hall x hmem
    · have hle : s ≤ x := by
        rcases List.mem_cons.1 hmem with rfl | hmem
        · exact le_rfl
        · exact ((List.pairwise_cons.1 (List.pairwise_append.1 hordered).2.1).1 x hmem).le
      exact absurd hx (not_lt.2 hle)

theorem Represents.exists_withRooms_iff {P : Finset (Placement I)} (h : d.Represents P)
    (hI : I.Coherent) : (∃ t, d.withRooms = .ok t) ↔ ∀ s, allottable (d.coursesAt s) = true := by
  rcases h.withRooms_cases hI with ⟨t, ht, hall⟩ | ⟨c, s, herror, hc, -⟩
  · exact iff_of_true ⟨t, ht⟩ hall
  · exact iff_of_false (by simp [herror]) fun hall => not_allottable_of_allot hc (hall s)

/-- Nothing needs no rooms. -/
theorem withRooms_empty : (empty : Draft I).withRooms = .ok .empty := by
  have h : ∀ ss : List (Slot I), ss.foldlM (empty : Draft I).lodgeSlot .empty = .ok .empty := fun ss => by
    induction ss with
    | nil => rfl
    | cons s ss ih =>
      have hslot : (empty : Draft I).lodgeSlot .empty s = .ok .empty := by
        rw [lodgeSlot, coursesAt_empty]
        rfl
      rw [List.foldlM_cons, hslot]
      exact ih
  exact h _

/-! ### There and back -/

/-- A draft comes back when its timetable gives up the rooms. -/
theorem Represents.withoutRooms_of_withRooms {P : Finset (Placement I)} (h : d.Represents P)
    (hI : I.Coherent) (hok : d.withRooms = .ok t) : t.withoutRooms = d := by
  obtain ⟨M, hM, rfl, hsuited⟩ := h.withRooms hI hok
  exact (hM.withoutRooms hI fun b hb => (hsuited b hb).1).toKeeps.unique h.toKeeps

/-- No lecture is lost or gained when rooms are given out. -/
theorem Covers.withRooms {demand : CourseIx I → Nat} (h : d.Covers [] demand) (hI : I.Coherent)
    (hok : d.withRooms = .ok t) : t.Covers demand := by
  obtain ⟨⟨P, hP⟩, hdemand⟩ := h
  obtain ⟨M, hM, rfl, hsuited⟩ := hP.withRooms hI hok
  refine ⟨⟨M, hM, hsuited⟩, ?_⟩
  intro c
  rw [hM.lectures_eq, ← hM.exclusive.count_image, ← hP.length_slotsOf, ← hdemand c,
    List.count_nil, Nat.add_zero, lectures]

end Draft

namespace Timetable

variable {t : Timetable I} {demand : CourseIx I → Nat}

/-- The timetable is what giving out rooms makes of a draft with the lectures that are demanded. -/
def Lodged (t : Timetable I) (demand : CourseIx I → Nat) : Prop :=
  ∃ d : Draft I, d.Covers [] demand ∧ d.withRooms = .ok t

theorem Lodged.covers (h : t.Lodged demand) (hI : I.Coherent) : t.Covers demand := by
  obtain ⟨d, hd, hrooms⟩ := h
  exact hd.withRooms hI hrooms

/-- Giving up the rooms and giving them out again leads back to the same ones. -/
theorem Lodged.withRooms_withoutRooms (h : t.Lodged demand) (hI : I.Coherent) :
    t.withoutRooms.withRooms = .ok t := by
  obtain ⟨d, ⟨⟨P, hP⟩, -⟩, hrooms⟩ := h
  rwa [hP.withoutRooms_of_withRooms hI hrooms]

end Timetable

end Timetabling
