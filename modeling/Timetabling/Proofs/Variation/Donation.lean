import Timetabling.Proofs.Variation.Graft
import Timetabling.Variation.Strategy

/-! Whatever rule chooses a donation, it takes some bookings of the donor, each at most once. So a
    recipient with the same demand can match it, and the children of a crossover have the lectures of
    their parents. -/

namespace Timetabling

open Instance Draw

variable {I : Instance} {t : Timetable I} {M : Finset (Booking I)} {bs : List (Booking I)}

/-- Bookings of the set, none of them twice. -/
structure DrawnFrom (M : Finset (Booking I)) (bs : List (Booking I)) : Prop where
  nodup : bs.Nodup
  mem : ∀ b ∈ bs, b ∈ M

theorem drawnFrom_nil : DrawnFrom M [] := ⟨.nil, nofun⟩

theorem DrawnFrom.sublist (h : DrawnFrom M bs) {cs : List (Booking I)} (hcs : cs.Sublist bs) :
    DrawnFrom M cs :=
  ⟨h.nodup.sublist hcs, fun b hb => h.mem b (hcs.subset hb)⟩

theorem Timetable.Keeps.drawnFrom_bookingsOf (h : t.Keeps M) (c : CourseIx I) :
    DrawnFrom M (t.bookingsOf c) :=
  ⟨(h.ascending_bookingsOf c).nodup, fun _ hb => (h.mem_bookingsOf.1 hb).1⟩

theorem Timetable.Keeps.drawnFrom_bookingsOfCurriculum (h : t.Keeps M) (hI : I.Coherent) (n : Nat) :
    DrawnFrom M (t.bookingsOfCurriculum n) where
  nodup := (h.bookingsOfCurriculum_ordered n).imp fun hlt e => by
    rw [e] at hlt
    exact lt_irrefl _ hlt
  mem _ hb := ((h.mem_bookingsOfCurriculum hI).1 hb).1

/-! ### Drawing -/

variable {σ : Type} [WordSource σ]

theorem gives_drawWindow (h : DrawnFrom M bs) (size : Nat) :
    Gives (drawWindow size bs : Draw σ (List (Booking I))) (DrawnFrom M) := by
  unfold drawWindow
  split
  · exact gives_pure h
  · exact (gives_below (Nat.succ_pos _)).bind fun start _ =>
      gives_pure (h.sublist ((List.take_sublist ..).trans (List.drop_sublist ..)))

theorem gives_drawCurriculum (hI : I.Coherent) (h : t.Keeps M) :
    Gives (drawCurriculum t : Draw σ (List (Booking I))) (DrawnFrom M) := by
  unfold drawCurriculum
  split
  · exact gives_pure drawnFrom_nil
  · exact (gives_below (Nat.pos_of_ne_zero ‹_›)).bind fun q _ =>
      gives_pure (h.drawnFrom_bookingsOfCurriculum hI q)

theorem gives_donation (hI : I.Coherent) (h : t.Keeps M) (rule : DonationRule) :
    Gives (rule.draw t : Draw σ (List (Booking I))) (DrawnFrom M) := by
  cases rule with
  | course =>
    simp only [DonationRule.draw]
    split
    · exact gives_pure drawnFrom_nil
    · exact (gives_below (Nat.pos_of_ne_zero ‹_›)).bind fun c _ =>
        gives_pure (h.drawnFrom_bookingsOf c)
  | curriculum => exact gives_drawCurriculum hI h
  | sector size =>
    exact (gives_drawCurriculum hI h).bind fun bs hbs => gives_drawWindow hbs size

/-! ### Crossing -/

theorem DrawnFrom.copies_le (h : DrawnFrom M bs) (c : CourseIx I) :
    copies (bs.map Donation.ofBooking) c ≤ Booking.count M c := by
  have hcount : copies (bs.map Donation.ofBooking) c =
      (bs.filter fun b => b.course = c).length := by
    rw [copies, List.count, List.countP_map, List.countP_map, ← List.countP_eq_length_filter]
    exact List.countP_congr fun b _ => by simp [Donation.ofBooking]
  rw [hcount, ← List.toFinset_card_of_nodup (h.nodup.filter _)]
  refine Finset.card_le_card ?_
  intro b hb
  obtain ⟨hb, hc⟩ := List.mem_filter.1 (List.mem_toFinset.1 hb)
  exact Finset.mem_filter.2 ⟨h.mem b hb, by simpa using hc⟩

/-- A booking is on the grid. -/
theorem slot?_ofBooking (b : Booking I) : (Donation.ofBooking b).slot? = some b.slot :=
  slotAt?_dayOf_periodOf b.slot

variable {demand : CourseIx I → Nat}

theorem DrawnFrom.matched (h : DrawnFrom M bs) (hM : t.Keeps M) (ht : t.Covers demand) :
    Matched (bs.map Donation.ofBooking) demand where
  onGrid m hm := by
    obtain ⟨b, -, rfl⟩ := List.mem_map.1 hm
    exact ⟨b.slot, slot?_ofBooking b⟩
  copies_le c := by
    rw [← ht.lectures_eq, hM.lectures_eq]
    exact h.copies_le c

/-- A recipient is kept or replaced by a child with its lectures when the donor has the same ones. -/
theorem DrawnFrom.gives_graft (h : DrawnFrom M bs) (hI : I.Coherent) {p q : Timetable I}
    (hp : p.Covers demand) (hM : q.Keeps M) (hq : q.Covers demand) (settings : Settings) :
    Gives (graft settings p (bs.map Donation.ofBooking) : Draw σ (Timetable I))
      fun child => child = p ∨ child.Lodged demand := by
  refine (gives_graft_cases hI hp settings _).mono ?_
  rintro child (rfl | ⟨total, ⟨-, hexact⟩, hchild⟩)
  · exact .inl rfl
  · exact .inr (hexact (h.matched hM hq) ▸ hchild)

/-- What grafting a donation of the one parent into the other does, crossing does to each of them. -/
theorem gives_cross_of_gives_graft (hI : I.Coherent) {p q : Timetable I} {N : Finset (Booking I)}
    (hp : p.Keeps M) (hq : q.Keeps N) {A B : Timetable I → Prop} (rule : DonationRule)
    (settings : Settings)
    (hfirst : ∀ bs, DrawnFrom N bs →
      Gives (graft settings p (bs.map Donation.ofBooking) : Draw σ (Timetable I)) A)
    (hsecond : ∀ bs, DrawnFrom M bs →
      Gives (graft settings q (bs.map Donation.ofBooking) : Draw σ (Timetable I)) B) :
    Gives (cross rule settings p q : Draw σ (Timetable I × Timetable I)) fun children =>
      A children.1 ∧ B children.2 := by
  refine (gives_donation hI hq rule).bind ?_
  intro fromSecond hfromSecond
  refine (hfirst fromSecond hfromSecond).bind ?_
  intro first hA
  refine (gives_donation hI hp rule).bind ?_
  intro fromFirst hfromFirst
  refine (hsecond fromFirst hfromFirst).bind ?_
  intro second hB
  exact gives_pure ⟨hA, hB⟩

/-- Each child of a crossover is the parent that it began as, or has the lectures of the parents. -/
theorem gives_cross (hI : I.Coherent) {p q : Timetable I} (hp : p.Covers demand)
    (hq : q.Covers demand) (rule : DonationRule) (settings : Settings) :
    Gives (cross rule settings p q : Draw σ (Timetable I × Timetable I)) fun children =>
      (children.1 = p ∨ children.1.Lodged demand) ∧ (children.2 = q ∨ children.2.Lodged demand) := by
  obtain ⟨M, hM, -⟩ := hp.sound
  obtain ⟨N, hN, -⟩ := hq.sound
  exact gives_cross_of_gives_graft hI hM.toKeeps hN.toKeeps rule settings
    (fun _ hbs => hbs.gives_graft hI hp hN.toKeeps hq settings)
    (fun _ hbs => hbs.gives_graft hI hq hM.toKeeps hp settings)

end Timetabling
