import Timetabling.Proofs.Random.Reach
import Timetabling.Proofs.Variation.Donation

/-! What a rule donates. The rule for courses takes all bookings of one course and the rule for curricula
    all of one curriculum, from the first to the last. The rule for sectors takes a window of the
    latter, and every window can come about. A window that is wide enough for all curricula is never
    placed by a draw, so with such a window the sectors are the curricula, and crossing by the one rule
    is crossing by the other. -/

namespace Timetabling

open Instance Draw

variable {I : Instance} {t : Timetable I} {M : Finset (Booking I)} {σ : Type} [WordSource σ]

/-- The number of bookings that the set has for the courses of the curriculum. -/
def Booking.countIn (M : Finset (Booking I)) (q : CurriculumIx I) : Nat :=
  (M.filter fun b => q ∈ memberships b.course).card

/-- The list has all bookings of the course and no others, each once. -/
structure AllOfCourse (M : Finset (Booking I)) (c : CourseIx I) (bs : List (Booking I)) : Prop where
  nodup : bs.Nodup
  mem_iff : ∀ b, b ∈ bs ↔ b ∈ M ∧ b.course = c

/-- The list has all bookings of the curriculum and no others, in strictly chronological order. -/
structure AllOfCurriculum (M : Finset (Booking I)) (q : CurriculumIx I) (bs : List (Booking I)) :
    Prop where
  ordered : bs.Pairwise fun a b => a.slot < b.slot
  mem_iff : ∀ b, b ∈ bs ↔ b ∈ M ∧ q ∈ memberships b.course

/-- The part of a list from the place on, with so many members or all that there are. -/
structure Window {α : Type} (size : Nat) (all : List α) (start : Nat) (xs : List α) : Prop where
  start_le : start ≤ all.length - size
  eq : xs = (all.drop start).take size
  length : xs.length = min size all.length

/-- What the rules take from a timetable of these bookings. -/
structure Donates (σ : Type) [WordSource σ] (t : Timetable I) (M : Finset (Booking I)) : Prop where
  /-- Without a course or a curriculum nothing is donated, and the source stays as it is. -/
  no_course : I.courses.size = 0 → ∀ s : σ, (DonationRule.course.draw t).run s = some ([], s)
  no_curriculum : I.curricula.size = 0 → ∀ rule : DonationRule, rule ≠ .course →
    ∀ s : σ, (rule.draw t).run s = some ([], s)
  course : 0 < I.courses.size → Gives (DonationRule.course.draw t : Draw σ (List (Booking I)))
    fun bs => ∃ c, AllOfCourse M c bs
  curriculum : 0 < I.curricula.size →
    Gives (DonationRule.curriculum.draw t : Draw σ (List (Booking I)))
      fun bs => ∃ q, AllOfCurriculum M q bs
  sector : 0 < I.curricula.size → ∀ size,
    Gives ((DonationRule.sector size).draw t : Draw σ (List (Booking I)))
      fun bs => ∃ q all start, AllOfCurriculum M q all ∧ Window size all start bs
  /-- Some words lead to each window, as long as machine words can number curricula and slots. -/
  exists_window : I.curricula.size < UInt64.size → I.slotCount < UInt64.size →
    ∀ size q all start, AllOfCurriculum M q all → start ≤ all.length - size →
      ∃ words s' bs, ((DonationRule.sector size).draw t).run (⟨words, 0⟩ : Script) = some (bs, s') ∧
        Window size all start bs
  /-- A window that is wide enough takes the curriculum and the words that the curriculum takes. -/
  sector_eq_curriculum : ∀ size, (∀ q, Booking.countIn M q ≤ size) → ∀ s : σ,
    ((DonationRule.sector size).draw t).run s = (DonationRule.curriculum.draw t).run s

/-! ### Courses and curricula -/

theorem Timetable.Keeps.allOfCourse (h : t.Keeps M) (c : CourseIx I) :
    AllOfCourse M c (t.bookingsOf c) :=
  ⟨(h.ascending_bookingsOf c).nodup, fun _ => h.mem_bookingsOf⟩

theorem Timetable.Keeps.allOfCurriculum (h : t.Keeps M) (hI : I.Coherent) (q : CurriculumIx I) :
    AllOfCurriculum M q (t.bookingsOfCurriculum q) :=
  ⟨h.bookingsOfCurriculum_ordered q, fun b => by rw [h.mem_bookingsOfCurriculum hI, mem_memberships]⟩

namespace AllOfCurriculum

variable {q : CurriculumIx I} {bs cs : List (Booking I)}

theorem ascending (h : AllOfCurriculum M q bs) :
    Ascending (fun b : Booking I => b.slot.val) bs :=
  h.ordered

theorem length_eq (h : AllOfCurriculum M q bs) : bs.length = Booking.countIn M q := by
  symm
  refine card_eq_length_of_mem_iff Function.injective_id h.ascending.nodup fun b => ?_
  rw [Finset.mem_filter, List.map_id, h.mem_iff]

/-- No two bookings of a curriculum are at one slot. -/
theorem length_le (h : AllOfCurriculum M q bs) : bs.length ≤ I.slotCount := by
  have hnodup : (bs.map Booking.slot).Nodup := List.pairwise_map.2 (h.ordered.imp ne_of_lt)
  rw [← List.length_map (f := Booking.slot), ← Fintype.card_fin I.slotCount]
  exact hnodup.length_le_card

theorem unique (hb : AllOfCurriculum M q bs) (hc : AllOfCurriculum M q cs) : bs = cs :=
  hb.ascending.eq_of_mem_iff hc.ascending fun b => by rw [hb.mem_iff, hc.mem_iff]

end AllOfCurriculum

theorem Timetable.Keeps.countIn_le (h : t.Keeps M) (hI : I.Coherent) (q : CurriculumIx I) :
    Booking.countIn M q ≤ I.slotCount := by
  rw [← (h.allOfCurriculum hI q).length_eq]
  exact (h.allOfCurriculum hI q).length_le

theorem drawCurriculum_eq (h : 0 < I.curricula.size) (t : Timetable I) :
    (drawCurriculum t : Draw σ (List (Booking I))) =
      (do return t.bookingsOfCurriculum (← Draw.below I.curricula.size)) :=
  if_neg h.ne'

theorem gives_drawCurriculum_all (hI : I.Coherent) (h : t.Keeps M) (hsize : 0 < I.curricula.size) :
    Gives (drawCurriculum t : Draw σ (List (Booking I))) fun bs => ∃ q, AllOfCurriculum M q bs := by
  rw [drawCurriculum_eq hsize]
  exact (gives_below hsize).bind fun q _ => gives_pure ⟨q, h.allOfCurriculum hI q⟩

/-! ### Windows -/

section

variable {α : Type} {size start : Nat} {all : List α}

theorem window_take_drop (h : start ≤ all.length - size) :
    Window size all start ((all.drop start).take size) where
  start_le := h
  eq := rfl
  length := by
    rw [List.length_take, List.length_drop]
    omega

/-- A list that is not longer than the window has no other window than itself. -/
theorem Window.all_of_length_le (h : all.length ≤ size) : Window size all 0 all where
  start_le := Nat.zero_le _
  eq := by rw [List.drop_zero, List.take_of_length_le h]
  length := by omega

theorem gives_drawWindow_window (size : Nat) (all : List α) :
    Gives (drawWindow size all : Draw σ (List α)) fun xs => ∃ start, Window size all start xs := by
  unfold drawWindow
  split
  · exact gives_pure ⟨0, .all_of_length_le ‹_›⟩
  · exact (gives_below (Nat.succ_pos _)).bind fun start _ =>
      gives_pure ⟨start, window_take_drop (Nat.le_of_lt_succ start.isLt)⟩

theorem reaches_drawWindow (hlen : all.length < UInt64.size) (hstart : start ≤ all.length - size) :
    Reaches (drawWindow size all : Draw σ (List α)) ((all.drop start).take size) := by
  unfold drawWindow
  split
  · have hzero : start = 0 := by omega
    refine reaches_pure ?_
    rw [hzero, List.drop_zero, List.take_of_length_le ‹_›]
  · exact (reaches_below (by omega) ⟨start, Nat.lt_succ_of_le hstart⟩).bind (reaches_pure rfl)

end

theorem reaches_sector (hI : I.Coherent) (h : t.Keeps M) (hcurricula : I.curricula.size < UInt64.size)
    (hslots : I.slotCount < UInt64.size) {q : CurriculumIx I} {all : List (Booking I)}
    (hall : AllOfCurriculum M q all) {size start : Nat} (hstart : start ≤ all.length - size) :
    Reaches ((DonationRule.sector size).draw t : Draw σ (List (Booking I)))
      ((all.drop start).take size) := by
  obtain rfl := hall.unique (h.allOfCurriculum hI q)
  have hdraws : Reaches (drawCurriculum t : Draw σ (List (Booking I))) (t.bookingsOfCurriculum q) := by
    rw [drawCurriculum_eq q.pos]
    exact (reaches_below hcurricula.le q).bind (reaches_pure rfl)
  exact hdraws.bind (reaches_drawWindow (hall.length_le.trans_lt hslots) hstart)

/-- What is drawn from curricula that are no longer than the window is left whole. -/
theorem sector_draw_eq (hI : I.Coherent) (h : t.Keeps M) {size : Nat}
    (hwide : ∀ q, Booking.countIn M q ≤ size) :
    ((DonationRule.sector size).draw t : Draw σ (List (Booking I))) =
      DonationRule.curriculum.draw t := by
  have hwindow : ∀ q : CurriculumIx I,
      (drawWindow size (t.bookingsOfCurriculum q) : Draw σ (List (Booking I))) =
        pure (t.bookingsOfCurriculum q) := by
    intro q
    refine if_pos ?_
    rw [(h.allOfCurriculum hI q).length_eq]
    exact hwide q
  by_cases hsize : I.curricula.size = 0
  · simp [DonationRule.draw, drawCurriculum, hsize, drawWindow]
  · rw [DonationRule.draw, DonationRule.draw, drawCurriculum_eq (Nat.pos_of_ne_zero hsize)]
    simp only [bind_assoc, pure_bind, hwindow]

/-! ### Donations -/

theorem Timetable.Keeps.donates (h : t.Keeps M) (hI : I.Coherent) : Donates σ t M where
  no_course hnone s := by
    rw [DonationRule.draw, if_pos hnone]
    rfl
  no_curriculum hnone rule hrule s := by
    have hdraw : (drawCurriculum t : Draw σ (List (Booking I))) = pure [] := if_pos hnone
    cases rule with
    | course => exact absurd rfl hrule
    | curriculum =>
      rw [DonationRule.draw, hdraw]
      rfl
    | sector size =>
      rw [DonationRule.draw, hdraw]
      rfl
  course hsize := by
    rw [DonationRule.draw, if_neg hsize.ne']
    exact (gives_below hsize).bind fun c _ => gives_pure ⟨c, h.allOfCourse c⟩
  curriculum hsize := gives_drawCurriculum_all hI h hsize
  sector hsize size := (gives_drawCurriculum_all hI h hsize).bind fun all ⟨q, hall⟩ =>
    (gives_drawWindow_window size all).mono fun _ ⟨start, hwindow⟩ => ⟨q, all, start, hall, hwindow⟩
  exists_window hcurricula hslots size q all start hall hstart := by
    obtain ⟨words, s', hrun⟩ :=
      (reaches_sector hI h hcurricula hslots hall hstart).exists_script
    exact ⟨words, s', _, hrun, window_take_drop hstart⟩
  sector_eq_curriculum size hwide s := by rw [sector_draw_eq hI h hwide]

theorem cross_sector_eq (hI : I.Coherent) {p q : Timetable I} {N : Finset (Booking I)}
    (hp : p.Keeps M) (hq : q.Keeps N) {size : Nat} (hwideM : ∀ u, Booking.countIn M u ≤ size)
    (hwideN : ∀ u, Booking.countIn N u ≤ size) (settings : Settings) :
    (cross (.sector size) settings p q : Draw σ (Timetable I × Timetable I)) =
      cross .curriculum settings p q := by
  rw [cross, cross, sector_draw_eq hI hp hwideM, sector_draw_eq hI hq hwideN]

/-- What is donated of timetables that came about by changes is all of one course, all of one
    curriculum or any window of the latter. Between two of them crossing by sectors that are wide
    enough for the curricula of both is crossing by curricula. -/
theorem donates_ofEdits {r : Records} {I : Instance} (h : r.resolve = .ok I)
    (es fs : List (Edit RoomMeeting)) :
    ∃ M N : Finset (Booking I), (Timetable.ofEdits es).Represents M ∧
      (Timetable.ofEdits fs).Represents N ∧ Donates σ (Timetable.ofEdits es) M ∧
      Donates σ (Timetable.ofEdits fs) N ∧
      ∀ size settings, (∀ q, Booking.countIn M q ≤ size) → (∀ q, Booking.countIn N q ≤ size) →
        ∀ s : σ, (cross (.sector size) settings (Timetable.ofEdits es : Timetable I)
            (Timetable.ofEdits fs)).run s =
          (cross .curriculum settings (Timetable.ofEdits es) (Timetable.ofEdits fs)).run s := by
  have hI := Records.coherent_of_resolve h
  obtain ⟨M, hM⟩ := Timetable.exists_represents hI es
  obtain ⟨N, hN⟩ := Timetable.exists_represents hI fs
  refine ⟨M, N, hM, hN, hM.donates hI, hN.donates hI, ?_⟩
  intro size settings hwideM hwideN s
  rw [cross_sector_eq hI hM.toKeeps hN.toKeeps hwideM hwideN]

/-- The later of two lectures can be donated alone, and a window of two takes a whole curriculum. -/
theorem donates_ofEdits_pair :
    (∃ words s' b, ((DonationRule.sector 1).draw (Timetable.ofEdits
        [.add ⟨0, 0, 0, 0⟩, .add ⟨1, 1, 0, 1⟩] : Timetable pair)).run (⟨words, 0⟩ : Script) =
          some ([b], s') ∧ b.meeting = ⟨1, 1, 0, 1⟩) ∧
      ∀ settings (s : Script), (cross (.sector 2) settings (Timetable.ofEdits
          [.add ⟨0, 0, 0, 0⟩, .add ⟨1, 1, 0, 1⟩] : Timetable pair)
          (Timetable.ofEdits [.add ⟨1, 1, 0, 0⟩])).run s =
        (cross .curriculum settings (Timetable.ofEdits [.add ⟨0, 0, 0, 0⟩, .add ⟨1, 1, 0, 1⟩])
          (Timetable.ofEdits [.add ⟨1, 1, 0, 0⟩])).run s := by
  have hI := Records.coherent_of_resolve Records.resolve_pair
  obtain ⟨M, N, hM, hN, hdonates, -, hcross⟩ := donates_ofEdits (σ := Script) Records.resolve_pair
    [.add ⟨0, 0, 0, 0⟩, .add ⟨1, 1, 0, 1⟩] [.add ⟨1, 1, 0, 0⟩]
  refine ⟨?_, fun settings => hcross 2 settings (hM.countIn_le hI) (hN.countIn_le hI)⟩
  obtain ⟨words, s', bs, hrun, hwindow⟩ := hdonates.exists_window (by decide) (by decide) 1
    ⟨0, by decide⟩ _ 1 (hM.allOfCurriculum hI _) (by decide)
  have hbs : bs.map Booking.meeting = [⟨1, 1, 0, 1⟩] := by
    rw [hwindow.eq]
    decide
  obtain ⟨b, rfl, hb⟩ := List.map_eq_singleton_iff.1 hbs
  exact ⟨words, s', b, hrun, hb⟩

end Timetabling
