import Timetabling.Proofs.Timetable.Refusal

/-! What becomes of a timetable when a meeting is put in place of what is in its way. The bookings in its way
    are found in the list of the slot, and whether it is admitted without them is asked of the cells of
    its curricula and the marks of its room. All tables tell of one set, so the meeting goes in when the
    slot and the room are for its course and no more than one booking is in its way. In all other cases the
    timetable is as it was, with the booking put back that had to leave in the meantime. -/

namespace Timetabling

open Instance

variable {I : Instance}

namespace Timetable

open Booking

/-- What becomes of the timetable when the meeting is put in place of what is in its way. -/
structure Replaces (t : Timetable I) (M : Finset (Booking I)) (m : RoomMeeting) : Prop where
  inserted : ∀ h : m.OnGrid I, h.booking.Suited → hindrances M h.booking = ∅ →
    ∃ u, t.replace m = .inserted u ∧ u.Represents (insert h.booking M)
  displaced : ∀ (h : m.OnGrid I) {old : Booking I}, h.booking.Suited →
    hindrances M h.booking = {old} →
      ∃ u, t.replace m = .displaced old u ∧ u.Represents (insert h.booking (M.erase old))
  blocked : (∀ h : m.OnGrid I, h.booking.Suited → 1 < (hindrances M h.booking).card) →
    t.replace m = .blocked t

variable {t : Timetable I} {M : Finset (Booking I)} {b old : Booking I} {m : RoomMeeting}

/-! ### A takeover -/

theorem Represents.takeOver_eq_inserted (h : t.Represents M) (hI : I.Coherent) (hsuited : b.Suited)
    (hnone : hindrances M b = ∅) : t.takeOver b = .inserted (t.put b) := by
  rcases h.takeOver_cases hI b with ⟨-, -, he⟩ | ⟨old, hone, -⟩ | ⟨hmany, -⟩
  · exact he
  · exact absurd (hone.symm.trans hnone) (Finset.singleton_ne_empty old)
  · have hcard := hmany hsuited
    rw [hnone, Finset.card_empty] at hcard
    omega

theorem Represents.takeOver_eq_displaced (h : t.Represents M) (hI : I.Coherent) (hsuited : b.Suited)
    (hone : hindrances M b = {old}) : t.takeOver b = .displaced old ((t.cut old).put b) := by
  rcases h.takeOver_cases hI b with ⟨hnone, -⟩ | ⟨other, hother, -, he⟩ | ⟨hmany, -⟩
  · exact absurd (hone.symm.trans hnone) (Finset.singleton_ne_empty old)
  · rw [hone, Finset.singleton_inj] at hother
    rw [he, hother]
  · have hcard := hmany hsuited
    rw [hone, Finset.card_singleton] at hcard
    omega

/-! ### Meetings -/

theorem replace_eq_takeOver (h : m.OnGrid I) : t.replace m = t.takeOver h.booking := by
  rw [replace, h.booking?_eq]

theorem replace_eq_blocked (h : ¬m.OnGrid I) : t.replace m = .blocked t := by
  rw [replace, RoomMeeting.booking?_eq_none_iff.2 h]

theorem Represents.replaces (h : t.Represents M) (hI : I.Coherent) (m : RoomMeeting) :
    t.Replaces M m where
  inserted hm hsuited hnone := by
    refine ⟨_, ?_, h.put (free_iff_hindrances.2 hnone)⟩
    rw [replace_eq_takeOver hm, h.takeOver_eq_inserted hI hsuited hnone]
  displaced hm old hsuited hone := by
    refine ⟨_, ?_, (h.cut (mem_of_hindrances_eq hone)).put (free_erase_of_hindrances hone)⟩
    rw [replace_eq_takeOver hm, h.takeOver_eq_displaced hI hsuited hone]
  blocked hno := by
    by_cases hm : m.OnGrid I
    · rw [replace_eq_takeOver hm]
      rcases h.takeOver_cases hI hm.booking with
        ⟨hnone, hsuited, -⟩ | ⟨old, hone, hsuited, -⟩ | ⟨-, he⟩
      · have hcard := hno hm hsuited
        rw [hnone, Finset.card_empty] at hcard
        omega
      · have hcard := hno hm hsuited
        rw [hone, Finset.card_singleton] at hcard
        omega
      · exact he
    · exact replace_eq_blocked hm

/-- A timetable that came about by changes represents a set of bookings, and what becomes of it when any
    meeting is put in place of what is in its way follows from that set. -/
theorem replaces_ofEdits {r : Records} {I : Instance} (h : r.resolve = .ok I)
    (es : List (Edit RoomMeeting)) :
    ∃ M : Finset (Booking I), (ofEdits es).Represents M ∧ ∀ m, (ofEdits es).Replaces M m := by
  have hI := Records.coherent_of_resolve h
  obtain ⟨M, hM⟩ := exists_represents hI es
  exact ⟨M, hM, hM.replaces hI⟩

/-- Optics takes the hall, its room and the curriculum from algebra. -/
theorem replaces_ofEdits_pair : ∃ (M : Finset (Booking pair))
    (hold : RoomMeeting.OnGrid pair ⟨0, 1, 0, 0⟩) (h : RoomMeeting.OnGrid pair ⟨1, 1, 0, 0⟩)
    (u : Timetable pair), (∀ m, (ofEdits [.add ⟨0, 1, 0, 0⟩]).Replaces M m) ∧
      (ofEdits [.add ⟨0, 1, 0, 0⟩]).replace ⟨1, 1, 0, 0⟩ = .displaced hold.booking u ∧
      u.Represents (insert h.booking (M.erase hold.booking)) := by
  obtain ⟨M, hM, hreplaces⟩ := replaces_ofEdits Records.resolve_pair [.add ⟨0, 1, 0, 0⟩]
  have hold : RoomMeeting.OnGrid pair ⟨0, 1, 0, 0⟩ := ⟨by decide, by decide, by decide, by decide⟩
  have hgrid : RoomMeeting.OnGrid pair ⟨1, 1, 0, 0⟩ := ⟨by decide, by decide, by decide, by decide⟩
  obtain rfl : M = {hold.booking} := Finset.ext fun b => by
    rw [← hM.mem_bookings, Finset.mem_singleton, ← List.mem_singleton]
    rfl
  have hone : hindrances {hold.booking} hgrid.booking = {hold.booking} := rfl
  obtain ⟨u, hu, hrep⟩ := (hreplaces _).displaced hgrid ⟨rfl, rfl⟩ hone
  exact ⟨_, hold, hgrid, u, hreplaces, hu, hrep⟩

end Timetable

end Timetabling
