import Timetabling.Proofs.Canonicity

/-! What becomes of a draft when a meeting is put in place of what is in its way. With nothing in its way it
    needs a room that is left over; in place of one other course it does not, since that one leaves its
    room behind. Then the meeting is always admitted, so nothing has to be put back. In all other cases
    the draft is as it was. -/

namespace Timetabling

open Instance

variable {I : Instance}

/-- Course, day and period of the meeting exist. -/
structure Meeting.OnGrid (I : Instance) (m : Meeting) : Prop where
  course_lt : m.course < I.courses.size
  day_lt : m.day < I.days
  period_lt : m.period < I.periods

namespace Meeting.OnGrid

variable {m : Meeting}

/-- The course of a meeting on the grid. -/
def course (h : m.OnGrid I) : CourseIx I := ⟨m.course, h.course_lt⟩

/-- The slot of a meeting on the grid. -/
def slot (h : m.OnGrid I) : Slot I :=
  ⟨I.slotNumber m.day m.period, I.slotNumber_lt h.day_lt h.period_lt⟩

theorem placement?_eq (h : m.OnGrid I) : m.placement? I = some ⟨h.course, h.slot⟩ := by
  simp [placement?, course, slot, courseIx?, slotAt?, h.course_lt, h.day_lt, h.period_lt]

theorem meeting_eq (h : m.OnGrid I) : (⟨h.course, h.slot⟩ : Placement I).meeting = m :=
  placement?_eq_some_iff.1 h.placement?_eq

/-- A course at the slot of the meeting is at its day and its period. -/
theorem meeting_at (h : m.OnGrid I) (c : CourseIx I) :
    (⟨c, h.slot⟩ : Placement I).meeting = ⟨c, m.day, m.period⟩ := by
  obtain ⟨-, hd, hp⟩ := Meeting.mk.inj h.meeting_eq
  rw [← hd, ← hp]
  rfl

end Meeting.OnGrid

theorem Placement.onGrid_meeting (p : Placement I) : p.meeting.OnGrid I where
  course_lt := p.course.isLt
  day_lt := dayOf_lt p.slot
  period_lt := periodOf_lt p.slot

theorem Meeting.placement?_eq_none_iff {m : Meeting} : m.placement? I = none ↔ ¬m.OnGrid I := by
  constructor
  · intro hm h
    rw [h.placement?_eq] at hm
    cases hm
  · intro h
    cases hm : m.placement? I with
    | none => rfl
    | some p => exact absurd (placement?_eq_some_iff.1 hm ▸ p.onGrid_meeting) h

namespace Draft

open Placement

/-- What becomes of the draft when the meeting is put in place of what is in its way. -/
structure Replaces (d : Draft I) (P : Finset (Placement I)) (m : Meeting) : Prop where
  inserted : ∀ h : m.OnGrid I, I.isAvailable h.course h.slot = true →
    hindrances P h.course h.slot = ∅ → load P h.slot < I.rooms.size →
      ∃ e, d.replace m = .inserted e ∧ e.Represents (insert ⟨h.course, h.slot⟩ P)
  /-- The one in the way is taken out and the meeting is added, both with success, however many courses
      are at the slot. -/
  displaced : ∀ (h : m.OnGrid I) {old : CourseIx I}, I.isAvailable h.course h.slot = true →
    hindrances P h.course h.slot = {old} →
      ∃ without e, d.remove? ⟨old, m.day, m.period⟩ = some without ∧ without.add? m = some e ∧
        d.replace m = .displaced ⟨old, h.slot⟩ e ∧
        e.Represents (insert ⟨h.course, h.slot⟩ (P.erase ⟨old, h.slot⟩))
  blocked : (∀ h : m.OnGrid I, I.isAvailable h.course h.slot = true →
    (hindrances P h.course h.slot = ∅ → I.rooms.size ≤ load P h.slot) ∧
      ∀ old, hindrances P h.course h.slot ≠ {old}) → d.replace m = .blocked d

variable {d : Draft I} {P : Finset (Placement I)} {m : Meeting} {c old : CourseIx I} {s : Slot I}

/-! ### A takeover at a slot -/

theorem Represents.takeOver_eq_inserted (h : d.Represents P) (hI : I.Coherent)
    (ha : d.admits c s = true) : d.takeOver c s = .inserted (d.put c s) := by
  rcases h.takeOver_cases hI c s with ⟨-, he⟩ | ⟨old, hone, -⟩ | ⟨hna, -⟩
  · exact he
  · have hfree := free_iff_hindrances.1 ((h.admits_iff hI).1 ha).2.2
    exact absurd (hone.symm.trans hfree) (Finset.singleton_ne_empty old)
  · rw [ha] at hna
    cases hna

theorem Represents.takeOver_eq_displaced (h : d.Represents P) (hI : I.Coherent)
    (hav : I.isAvailable c s = true) (hone : hindrances P c s = {old}) :
    d.takeOver c s = .displaced ⟨old, s⟩ ((d.cut old s).put c s) := by
  rcases h.takeOver_cases hI c s with ⟨ha, -⟩ | ⟨other, hother, -, he⟩ | ⟨-, hno, -⟩
  · have hfree := free_iff_hindrances.1 ((h.admits_iff hI).1 ha).2.2
    exact absurd (hone.symm.trans hfree) (Finset.singleton_ne_empty old)
  · rw [hone, Finset.singleton_inj] at hother
    rw [he, hother]
  · exact absurd hone (hno hav old)

/-! ### Meetings -/

theorem replace_eq_takeOver (h : m.OnGrid I) : d.replace m = d.takeOver h.course h.slot := by
  rw [replace, h.placement?_eq]

theorem replace_eq_blocked (h : ¬m.OnGrid I) : d.replace m = .blocked d := by
  rw [replace, Meeting.placement?_eq_none_iff.2 h]

theorem Represents.replace_eq_displaced (h : d.Represents P) (hI : I.Coherent) (hm : m.OnGrid I)
    (hav : I.isAvailable hm.course hm.slot = true) (hone : hindrances P hm.course hm.slot = {old}) :
    ∃ without e, d.remove? ⟨old, m.day, m.period⟩ = some without ∧ without.add? m = some e ∧
      d.replace m = .displaced ⟨old, hm.slot⟩ e ∧
      e.Represents (insert ⟨hm.course, hm.slot⟩ (P.erase ⟨old, hm.slot⟩)) := by
  have hold := mem_of_hindrances_eq hone
  have ha := h.admits_cut_of_hindrances hI hone hav
  refine ⟨_, _, remove?_eq_some_iff.2 ⟨⟨old, hm.slot⟩, hm.meeting_at old, h.mem_slotsOf.2 hold, rfl⟩,
    add?_eq_some_iff.2 ⟨⟨hm.course, hm.slot⟩, hm.meeting_eq, ha, rfl⟩, ?_, (h.cut old hm.slot).put hI ha⟩
  rw [replace_eq_takeOver hm, h.takeOver_eq_displaced hI hav hone]

theorem Represents.replaces (h : d.Represents P) (hI : I.Coherent) (m : Meeting) : d.Replaces P m where
  inserted hm hav hnone hload := by
    have ha := (h.admits_iff hI).2 ⟨hload, hav, free_iff_hindrances.2 hnone⟩
    refine ⟨_, ?_, h.put hI ha⟩
    rw [replace_eq_takeOver hm, h.takeOver_eq_inserted hI ha]
  displaced hm _ hav hone := h.replace_eq_displaced hI hm hav hone
  blocked hno := by
    by_cases hm : m.OnGrid I
    · rw [replace_eq_takeOver hm]
      rcases h.takeOver_cases hI hm.course hm.slot with ⟨ha, -⟩ | ⟨old, hone, ha, -⟩ | ⟨-, -, he⟩
      · obtain ⟨hload, hav, hfree⟩ := (h.admits_iff hI).1 ha
        have hfull := (hno hm hav).1 (free_iff_hindrances.1 hfree)
        omega
      · have hav := (((h.cut old hm.slot).admits_iff hI).1 ha).2.1
        exact absurd hone ((hno hm hav).2 old)
      · exact he
    · exact replace_eq_blocked hm

/-- A draft that came about by changes represents a set of placements, and what becomes of it when any
    meeting is put in place of what is in its way follows from that set. -/
theorem ofEdits_replaces {r : Records} {I : Instance} (h : r.resolve = .ok I)
    (es : List (Edit Meeting)) :
    ∃ P : Finset (Placement I), (ofEdits es).Represents P ∧ ∀ m, (ofEdits es).Replaces P m := by
  have hI := Records.coherent_of_resolve h
  obtain ⟨P, hP⟩ := exists_represents hI es
  exact ⟨P, hP, hP.replaces hI⟩

/-- Optics takes the slot of algebra, with which it shares a curriculum. -/
theorem ofEdits_replaces_pair : ∃ (P : Finset (Placement pair)) (hold : Meeting.OnGrid pair ⟨0, 1, 0⟩)
    (h : Meeting.OnGrid pair ⟨1, 1, 0⟩) (e : Draft pair),
      (∀ m, (ofEdits [.add ⟨0, 1, 0⟩]).Replaces P m) ∧
      (ofEdits [.add ⟨0, 1, 0⟩]).replace ⟨1, 1, 0⟩ = .displaced ⟨hold.course, h.slot⟩ e ∧
      e.Represents (insert ⟨h.course, h.slot⟩ (P.erase ⟨hold.course, h.slot⟩)) := by
  obtain ⟨P, hP, hreplaces⟩ := ofEdits_replaces Records.resolve_pair [.add ⟨0, 1, 0⟩]
  have hold : Meeting.OnGrid pair ⟨0, 1, 0⟩ := ⟨by decide, by decide, by decide⟩
  have hgrid : Meeting.OnGrid pair ⟨1, 1, 0⟩ := ⟨by decide, by decide, by decide⟩
  obtain rfl : P = {⟨hold.course, hgrid.slot⟩} := Finset.ext fun p => by
    rw [← hP.mem_placements, Finset.mem_singleton, ← List.mem_singleton]
    rfl
  have hone : hindrances {⟨hold.course, hgrid.slot⟩} hgrid.course hgrid.slot = {hold.course} := rfl
  obtain ⟨-, e, -, -, he, hrep⟩ := (hreplaces _).displaced hgrid rfl hone
  exact ⟨_, hold, hgrid, e, hreplaces, he, hrep⟩

end Draft

end Timetabling
