import Timetabling.Proofs.Rerooming

/-! A graft stays near its recipient. Every donation that the recipient does not have costs it at most two
    placements: one that is taken out to make up for the donation, and one that the donation displaces.
    Those that wait are only put in. A failed attempt costs nothing, since the next one begins with the
    recipient again. So a timetable that is crossed with itself keeps all its placements. -/

namespace Timetabling

open Instance Draw

variable {I : Instance}

/-! ### How far a set has strayed -/

/-- At most so many members of the first set are not in the second, and the other way round. -/
structure Strays {α : Type} [DecidableEq α] (P₀ P : Finset α) (lost gained : Nat) : Prop where
  lost_le : (P₀ \ P).card ≤ lost
  gained_le : (P \ P₀).card ≤ gained

namespace Strays

variable {α : Type} [DecidableEq α] {P₀ P : Finset α} {lost gained lost' gained' : Nat}

theorem refl (P₀ : Finset α) : Strays P₀ P₀ 0 0 := ⟨by simp, by simp⟩

theorem mono (h : Strays P₀ P lost gained) (hlost : lost ≤ lost') (hgained : gained ≤ gained') :
    Strays P₀ P lost' gained' :=
  ⟨h.lost_le.trans hlost, h.gained_le.trans hgained⟩

theorem erased (h : Strays P₀ P lost gained) (a : α) : Strays P₀ (P.erase a) (lost + 1) gained where
  lost_le := by
    have hsub : P₀ \ P.erase a ⊆ insert a (P₀ \ P) := by grind
    calc (P₀ \ P.erase a).card
        ≤ (insert a (P₀ \ P)).card := Finset.card_le_card hsub
      _ ≤ (P₀ \ P).card + 1 := Finset.card_insert_le ..
      _ ≤ lost + 1 := Nat.succ_le_succ h.lost_le
  gained_le :=
    (Finset.card_le_card (Finset.sdiff_subset_sdiff (Finset.erase_subset ..) subset_rfl)).trans
      h.gained_le

theorem inserted (h : Strays P₀ P lost gained) (a : α) :
    Strays P₀ (insert a P) lost (gained + 1) where
  lost_le :=
    (Finset.card_le_card (Finset.sdiff_subset_sdiff subset_rfl (Finset.subset_insert ..))).trans
      h.lost_le
  gained_le := by
    have hsub : insert a P \ P₀ ⊆ insert a (P \ P₀) := by grind
    calc (insert a P \ P₀).card
        ≤ (insert a (P \ P₀)).card := Finset.card_le_card hsub
      _ ≤ (P \ P₀).card + 1 := Finset.card_insert_le ..
      _ ≤ gained + 1 := Nat.succ_le_succ h.gained_le

theorem eq (h : Strays P₀ P 0 0) : P = P₀ := by
  have hlost := Finset.card_eq_zero.1 (Nat.le_zero.1 h.lost_le)
  have hgained := Finset.card_eq_zero.1 (Nat.le_zero.1 h.gained_le)
  exact (Finset.sdiff_eq_empty_iff_subset.1 hgained).antisymm
    (Finset.sdiff_eq_empty_iff_subset.1 hlost)

end Strays

/-! ### Drafts -/

namespace Draft

/-- The draft has strayed from the placements by so many. -/
def Near (d : Draft I) (P₀ : Finset (Placement I)) (lost gained : Nat) : Prop :=
  ∃ P, d.Represents P ∧ Strays P₀ P lost gained

variable {d : Draft I} {P₀ : Finset (Placement I)} {lost gained lost' gained' : Nat}
  {c : CourseIx I} {s : Slot I}

theorem Near.mono (h : d.Near P₀ lost gained) (hlost : lost ≤ lost') (hgained : gained ≤ gained') :
    d.Near P₀ lost' gained' := by
  obtain ⟨P, hP, hstrays⟩ := h
  exact ⟨P, hP, hstrays.mono hlost hgained⟩

theorem Near.sound (h : d.Near P₀ lost gained) : d.Sound := by
  obtain ⟨P, hP, -⟩ := h
  exact ⟨P, hP⟩

theorem Near.placed (h : d.Near P₀ lost gained) (hI : I.Coherent) (hfits : d.fits c s = true) :
    (d.placed c s).Near P₀ lost (gained + 1) := by
  obtain ⟨P, hP, hstrays⟩ := h
  exact ⟨_, (hP.placed_of_fits hI hfits).2, hstrays.inserted _⟩

theorem Near.lifted (h : d.Near P₀ lost gained) (hs : s ∈ d.slotsOf c) :
    (d.lifted c s).Near P₀ (lost + 1) gained := by
  obtain ⟨P, hP, hstrays⟩ := h
  exact ⟨_, hP.lifted (hP.mem_slotsOf.1 hs), hstrays.erased _⟩

/-- A donation displaces one course at most, and one course at most waits for it. -/
theorem Near.settle (h : d.Near P₀ lost gained) (hI : I.Coherent) (m : Donation I) :
    (d.settle m).1.Near P₀ (lost + 1) (gained + 1) ∧ (d.settle m).2.length ≤ 1 := by
  have hnear := h
  obtain ⟨P, hP, hstrays⟩ := h
  rcases hP.settle_cases hI m with ⟨s, hfits, he⟩ | ⟨s, old, -, ha, he⟩ | he <;> rw [he]
  · exact ⟨(hnear.placed hI hfits).mono (Nat.le_succ _) le_rfl, Nat.zero_le _⟩
  · exact ⟨⟨_, (hP.cut old s).put hI ha, (hstrays.erased _).inserted _⟩, le_rfl⟩
  · exact ⟨hnear.mono (Nat.le_succ _) (Nat.le_succ _), le_rfl⟩

theorem Near.settleAll (h : d.Near P₀ lost gained) (hI : I.Coherent) (ms : List (Donation I)) :
    (d.settleAll ms).1.Near P₀ (lost + ms.length) (gained + ms.length) ∧
      (d.settleAll ms).2.length ≤ ms.length := by
  induction ms generalizing d lost gained with
  | nil => exact ⟨h, le_rfl⟩
  | cons m ms ih =>
    obtain ⟨hsettle, hone⟩ := h.settle hI m
    obtain ⟨hrest, hlength⟩ := ih hsettle
    simp only [Draft.settleAll, List.length_append, List.length_cons]
    exact ⟨hrest.mono (by omega) (by omega), by omega⟩

end Draft

/-! ### Meetings are taken out -/

theorem Draft.hasDonation_eq_contains (d : Draft I) (m : Donation I) :
    d.hasDonation m = d.contains m.meeting := by
  rw [hasDonation, contains, find?, Option.isSome_filter, m.placement?_meeting, Option.any_map]

theorem Donation.meeting_of_ofMeeting? {x : RoomMeeting} {m : Donation I}
    (h : Donation.ofMeeting? I x = some m) : m.meeting = ⟨x.course, x.day, x.period⟩ := by
  obtain ⟨c, hc, rfl⟩ := Option.map_eq_some_iff.1 h
  simp [meeting, courseIx?_eq_some_iff.1 hc]

/-- The number of donations that the draft does not have. -/
def absent (d : Draft I) (ms : List (Donation I)) : Nat := ms.countP fun m => !d.hasDonation m

variable {σ : Type} [WordSource σ] {d : Draft I} {P₀ : Finset (Placement I)}
  {donated : List (Donation I)} {v : Vacated I} {m : Donation I} {k : Nat}

theorem absent_cons (d : Draft I) (m : Donation I) (ms : List (Donation I)) :
    absent d (m :: ms) = absent d ms + if d.hasDonation m = false then 1 else 0 := by
  simp [absent, List.countP_cons]

/-- What holds while meetings are taken out: one left for each donation that comes in, and the donations
    still to come in are those that are absent. -/
structure VacatingNear (donated rest : List (Donation I)) (P₀ : Finset (Placement I)) (k : Nat)
    (v : Vacated I) : Prop where
  mem_donated : ∀ x ∈ rest, x ∈ donated
  near : v.draft.Near P₀ v.incoming.length 0
  le : v.incoming.length + absent v.draft rest ≤ k

theorem VacatingNear.step {rest : List (Donation I)}
    (h : VacatingNear donated (m :: rest) P₀ k v) :
    Gives (vacateFor donated v m : Draw σ (Vacated I)) (VacatingNear donated rest P₀ k) := by
  have hrest : ∀ x ∈ rest, x ∈ donated := fun x hx => h.mem_donated x (List.mem_cons_of_mem _ hx)
  have hle := h.le
  rw [absent_cons] at hle
  refine (gives_vacateFor donated v m).mono ?_
  intro v' hv'
  rcases hv' with ⟨-, rfl⟩ | ⟨hmiss, -, rfl⟩ | ⟨hmiss, s, hs, rfl⟩
  · exact ⟨hrest, h.near, by omega⟩
  · rw [if_pos hmiss] at hle
    refine ⟨hrest, ?_, ?_⟩
    · exact h.near.mono (by simp) le_rfl
    · simp only [List.length_append, List.length_singleton]
      omega
  · rw [if_pos hmiss] at hle
    -- no donation is at the slot that is given up, so none becomes absent
    have hsame : absent (v.draft.lifted m.course s) rest = absent v.draft rest :=
      List.countP_congr fun x hx => by rw [hasDonation_lifted h.near.sound hs (hrest x hx)]
    refine ⟨hrest, ?_, ?_⟩
    · rw [List.length_append]
      exact h.near.lifted (List.mem_of_mem_filter hs)
    · dsimp only
      rw [hsame, List.length_append, List.length_singleton]
      omega

theorem gives_vacate_near (h : d.Near P₀ 0 0) (donated : List (Donation I)) :
    Gives (vacate d donated : Draw σ (Vacated I)) fun v =>
      v.draft.Near P₀ v.incoming.length 0 ∧ v.incoming.length ≤ absent d donated := by
  have hstart : VacatingNear donated donated P₀ (absent d donated) ⟨d, [], []⟩ :=
    ⟨fun _ hx => hx, h, by simp⟩
  have hfold : Gives (vacate d donated : Draw σ (Vacated I))
      (VacatingNear donated [] P₀ (absent d donated)) :=
    gives_foldlM (R := fun rest => VacatingNear donated rest P₀ (absent d donated))
      (fun _ _ _ hv => hv.step) hstart
  exact hfold.mono fun v hv => ⟨hv.near, hv.le⟩

/-! ### The whole graft -/

variable {t u : Timetable I}

/-- The recipient is kept, or a draft gets rooms that has strayed by twice the absent donations. -/
theorem gives_graft_near (hI : I.Coherent) (h : t.withoutRooms.Represents P₀) (settings : Settings)
    (donated : List (Donation I)) :
    Gives (graft settings t donated : Draw σ (Timetable I)) fun child => child = t ∨
      ∃ d : Draft I, d.Near P₀ (2 * absent t.withoutRooms donated) (2 * absent t.withoutRooms donated) ∧
        d.withRooms = .ok child := by
  unfold graft
  split
  · exact gives_pure (.inl rfl)
  set k := absent t.withoutRooms donated
  -- a course that waits has a place among the gains until it is put in
  have hsettled : Gives (vacate t.withoutRooms donated : Draw σ (Vacated I)) fun v =>
      ∃ gained, gained + (v.draft.settleAll v.incoming).2.length ≤ 2 * k ∧
        (v.draft.settleAll v.incoming).1.Near P₀ (2 * k) gained := by
    refine (gives_vacate_near ⟨P₀, h, .refl P₀⟩ donated).mono ?_
    rintro v ⟨hnear, hle⟩
    obtain ⟨hnear, hlength⟩ := hnear.settleAll hI v.incoming
    exact ⟨_, by omega, hnear.mono (by omega) le_rfl⟩
  refine (gives_graftWithin hI
    (R := fun waiting d => ∃ gained, gained + waiting.length ≤ 2 * k ∧ d.Near P₀ (2 * k) gained)
    ?_ hsettled _ _).mono ?_
  · rintro c cs d s ⟨gained, hle, hnear⟩ hfits
    rw [List.length_cons] at hle
    exact ⟨gained + 1, by omega, hnear.placed hI hfits⟩
  · rintro child (rfl | ⟨d, ⟨gained, hle, hnear⟩, hrooms⟩)
    · exact .inl rfl
    · exact .inr ⟨d, hnear.mono le_rfl hle, hrooms⟩

/-! ### Timetables -/

theorem Placement.meeting_inj {p q : Placement I} : p.meeting = q.meeting ↔ p = q := by
  rw [← Meeting.placement?_eq_some_iff, Meeting.placement?_eq_some_iff.2 rfl, Option.some.injEq,
    eq_comm]

namespace Timetable

open Booking

/-- The number of bookings whose course the other timetable does not have at their slot, in whatever
    room. -/
def lost (t u : Timetable I) : Nat :=
  t.bookings.countP fun b => (u.find? b.placement.meeting).isNone

/-- The number of donated meetings that the timetable does not have, in whatever room. -/
def foreign (t : Timetable I) (donated : List RoomMeeting) : Nat :=
  donated.countP fun m => (t.find? ⟨m.course, m.day, m.period⟩).isNone

/-- The child has lost and gained no more than two placements for each of so many donations. -/
structure StaysNear (t child : Timetable I) (k : Nat) : Prop where
  lost_le : t.lost child ≤ 2 * k
  gained_le : child.lost t ≤ 2 * k
  placements_eq : k = 0 → child.bookings.map placement = t.bookings.map placement

variable {M N : Finset (Booking I)}

theorem Represents.find?_eq_none_iff (h : t.Represents M) (p : Placement I) :
    t.find? p.meeting = none ↔ p ∉ M.image placement := by
  simp only [Option.eq_none_iff_forall_ne_some, ne_eq, h.find?_eq_some_iff, Finset.mem_image,
    Placement.meeting_inj, not_exists]

/-- What one timetable has lost to another one is what its set of placements has. -/
theorem Represents.lost_eq (ht : t.Represents M) (hu : u.Represents N) :
    t.lost u = (M.image placement \ N.image placement).card := by
  have hset : (M.filter fun b => b.placement ∉ N.image placement).image placement =
      M.image placement \ N.image placement := by grind
  have hlist : (t.bookings.filter fun b => (u.find? b.placement.meeting).isNone).toFinset =
      M.filter fun b => b.placement ∉ N.image placement := by
    ext b
    simp only [List.mem_toFinset, List.mem_filter, ht.mem_bookings, Option.isNone_iff_eq_none,
      hu.find?_eq_none_iff, Finset.mem_filter]
  calc t.lost u
      = (t.bookings.filter fun b => (u.find? b.placement.meeting).isNone).length :=
        List.countP_eq_length_filter
    _ = (M.filter fun b => b.placement ∉ N.image placement).card := by
        rw [← hlist, List.toFinset_card_of_nodup (ht.nodup_bookings.filter _)]
    _ = (M.image placement \ N.image placement).card := by
        rw [← hset, Finset.card_image_of_injOn
          (ht.exclusive.injOn_placement.mono (Finset.filter_subset ..))]

theorem Represents.staysNear (ht : t.Represents M) (hu : u.Represents N) (hI : I.Coherent)
    (hav : ∀ b ∈ M, I.isAvailable b.course b.slot = true)
    (hav' : ∀ b ∈ N, I.isAvailable b.course b.slot = true)
    (hstrays : Strays (M.image placement) (N.image placement) (2 * k) (2 * k)) :
    t.StaysNear u k where
  lost_le := (ht.lost_eq hu).trans_le hstrays.lost_le
  gained_le := (hu.lost_eq ht).trans_le hstrays.gained_le
  placements_eq := by
    rintro rfl
    have hd := ht.withoutRooms hI hav
    have hd' := hu.withoutRooms hI hav'
    rw [hstrays.eq] at hd'
    rw [← hu.placements_withoutRooms hI hav', ← ht.placements_withoutRooms hI hav,
      hd'.toKeeps.unique hd.toKeeps]

theorem Represents.gives_graft_staysNear (h : t.Represents M) (hI : I.Coherent)
    (hav : ∀ b ∈ M, I.isAvailable b.course b.slot = true) (settings : Settings)
    (donated : List (Donation I)) :
    Gives (graft settings t donated : Draw σ (Timetable I)) fun child =>
      t.StaysNear child (absent t.withoutRooms donated) := by
  refine (gives_graft_near hI (h.withoutRooms hI hav) settings donated).mono ?_
  rintro child (rfl | ⟨d, ⟨P, hP, hstrays⟩, hrooms⟩)
  · exact h.staysNear h hI hav hav ((Strays.refl _).mono (Nat.zero_le _) (Nat.zero_le _))
  · obtain ⟨N, hN, rfl, hsuited⟩ := hP.withRooms hI hrooms
    exact h.staysNear hN hI hav (fun b hb => (hsuited b hb).1) hstrays

/-! ### Donated meetings -/

theorem Represents.contains_withoutRooms (h : t.Represents M) (hI : I.Coherent)
    (hav : ∀ b ∈ M, I.isAvailable b.course b.slot = true) (m : Meeting) :
    t.withoutRooms.contains m = (t.find? m).isSome := by
  rw [Bool.eq_iff_iff, h.contains_withoutRooms_iff hI, Option.isSome_iff_exists]
  exact exists_congr fun b => and_iff_left_of_imp fun hb => hav b (h.find?_eq_some_iff.1 hb).1

theorem Represents.foreign_eq_absent (h : t.Represents M) (hI : I.Coherent)
    (hav : ∀ b ∈ M, I.isAvailable b.course b.slot = true) {ms : List RoomMeeting}
    {ds : List (Donation I)} (hds : ms.mapM (Donation.ofMeeting? I) = some ds) :
    t.foreign ms = absent t.withoutRooms ds := by
  have hrel := forall₂_of_mapM hds
  clear hds
  induction hrel with
  | nil => rfl
  | @cons x m ms ds hx _ ih =>
    have hhas : t.withoutRooms.hasDonation m = (t.find? ⟨x.course, x.day, x.period⟩).isSome := by
      rw [Draft.hasDonation_eq_contains, Donation.meeting_of_ofMeeting? hx, h.contains_withoutRooms hI hav]
    rw [absent_cons, ← ih, hhas, foreign, foreign, List.countP_cons]
    simp

/-- A donation that was drawn from the recipient is none that it does not have. -/
theorem Represents.absent_eq_zero (h : t.Represents M) (hI : I.Coherent)
    (hav : ∀ b ∈ M, I.isAvailable b.course b.slot = true) {bs : List (Booking I)}
    (hbs : DrawnFrom M bs) : absent t.withoutRooms (bs.map Donation.ofBooking) = 0 := by
  refine List.countP_eq_zero.2 ?_
  intro m hm
  obtain ⟨b, hb, rfl⟩ := List.mem_map.1 hm
  have hmem := (h.withoutRooms hI hav).mem_slotsOf.2
    (Finset.mem_image_of_mem placement (hbs.mem b hb))
  simpa using Draft.hasDonation_iff.2 ⟨b.slot, slot?_ofBooking b, hmem⟩

theorem Represents.gives_cross_self (h : t.Represents M) (hI : I.Coherent)
    (hav : ∀ b ∈ M, I.isAvailable b.course b.slot = true) (rule : DonationRule) (settings : Settings) :
    Gives (cross rule settings t t : Draw σ (Timetable I × Timetable I)) fun children =>
      children.1.bookings.map placement = t.bookings.map placement ∧
        children.2.bookings.map placement = t.bookings.map placement := by
  have hgraft : ∀ bs, DrawnFrom M bs →
      Gives (graft settings t (bs.map Donation.ofBooking) : Draw σ (Timetable I))
        fun child => child.bookings.map placement = t.bookings.map placement := fun bs hbs =>
    (h.gives_graft_staysNear hI hav settings _).mono fun _ hchild =>
      hchild.placements_eq (h.absent_eq_zero hI hav hbs)
  exact gives_cross_of_gives_graft hI h.toKeeps h.toKeeps rule settings hgraft hgraft

end Timetable

/-- A graft into a timetable whose courses are all available at their slots costs it at most two placements
    for each donated meeting that it does not have, and brings it no more. So such a timetable, as any
    feasible one is, keeps all its placements when it is crossed with itself. -/
theorem gives_graftMeetings_staysNear {r : Records} {I : Instance} (h : r.resolve = .ok I)
    {t : Timetable I} (es : List (Edit RoomMeeting)) (ht : Timetable.ofEdits es = t)
    (hav : ∀ b ∈ t.bookings, I.isAvailable b.course b.slot = true) (settings : Settings) :
    (∀ donated : List RoomMeeting, (∀ m ∈ donated, m.course < I.courses.size) →
      Gives (graftMeetings settings t donated : Draw σ (Timetable I)) fun child =>
        t.StaysNear child (t.foreign donated)) ∧
    ∀ rule, Gives (cross rule settings t t : Draw σ (Timetable I × Timetable I)) fun children =>
      children.1.bookings.map Booking.placement = t.bookings.map Booking.placement ∧
        children.2.bookings.map Booking.placement = t.bookings.map Booking.placement := by
  have hI := Records.coherent_of_resolve h
  obtain ⟨M, hM⟩ := Timetable.exists_represents hI es
  rw [ht] at hM
  have hav' : ∀ b ∈ M, I.isAvailable b.course b.slot = true := fun b hb =>
    hav b (hM.mem_bookings.2 hb)
  constructor
  · intro donated hdonated
    obtain ⟨ds, hds⟩ := exists_mapM_ofMeeting? hdonated
    simp only [graftMeetings, hds, hM.foreign_eq_absent hI hav' hds]
    exact hM.gives_graft_staysNear hI hav' settings ds
  · intro rule
    exact hM.gives_cross_self hI hav' rule settings

/-- One donated meeting that the recipient does not have, and a recipient that is crossed with itself. -/
theorem gives_graftMeetings_staysNear_pair : ∃ t : Timetable pair,
    Timetable.ofEdits [.add ⟨0, 0, 0, 0⟩, .add ⟨1, 1, 0, 1⟩] = t ∧
    (∃ (child : Timetable pair) (rest : Script),
      (graftMeetings {} t [⟨0, 1, 0, 0⟩]).run ⟨#[0, 7], 0⟩ = some (child, rest) ∧ t.StaysNear child 1) ∧
    ∃ (children : Timetable pair × Timetable pair) (rest : Script),
      (cross (.sector 1) {} t t).run ⟨#[3, 5, 8], 0⟩ = some (children, rest) ∧
      children.1.bookings.map Booking.placement = t.bookings.map Booking.placement ∧
      children.2.bookings.map Booking.placement = t.bookings.map Booking.placement := by
  obtain ⟨hgraft, hcross⟩ := gives_graftMeetings_staysNear (σ := Script) Records.resolve_pair
    [.add ⟨0, 0, 0, 0⟩, .add ⟨1, 1, 0, 1⟩] rfl (by decide) {}
  obtain ⟨child, rest, hrun, hnear⟩ := hgraft [⟨0, 1, 0, 0⟩] (by decide) ⟨#[0, 7], 0⟩
  exact ⟨_, rfl, ⟨child, rest, hrun, hnear⟩, hcross (.sector 1) ⟨#[3, 5, 8], 0⟩⟩

end Timetabling
