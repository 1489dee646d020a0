import Timetabling.Proofs.Draft.Replacement
import Timetabling.Variation.Graft

/-! A displacement happens as a whole or not at all. A meeting that is only put where nothing is in its way
    is taken out again, since rooms were denied to it before. One that took the place of another course
    stays when rooms can be given out, otherwise it is taken out and the other one is put back, which
    always succeeds. -/

namespace Timetabling

open Instance

variable {I : Instance}

/-- The meeting that a donation brings. -/
def Donation.meeting (m : Donation I) : Meeting := ⟨m.course, m.day, m.period⟩

theorem Donation.placement?_meeting (m : Donation I) :
    m.meeting.placement? I = m.slot?.map fun s => ⟨m.course, s⟩ := by
  have hcourse : I.courseIx? m.course = some m.course := courseIx?_eq_some_iff.2 rfl
  cases hs : I.slotAt? m.day m.period <;> simp [Meeting.placement?, meeting, slot?, hcourse, hs]

namespace Draft

open Placement

/-- Displaces a course for a meeting, which need not be on the grid; there it displaces nothing. -/
def displaceMeeting (d : Draft I) (m : Meeting) : Option (CourseIx I) × Draft I :=
  match m.placement? I with
  | some p => d.displace p.course p.slot
  | none => (none, d)

variable {d : Draft I} {P : Finset (Placement I)} {m : Meeting} {c old : CourseIx I} {s : Slot I}

/-! ### A donation as a meeting -/

/-- A donated lecture is added where it fits, and otherwise it displaces a course as its meeting does. -/
theorem settle_eq_displaceMeeting (d : Draft I) (m : Donation I) :
    d.settle m = if d.fitsMeeting m.meeting then ((d.add? m.meeting).getD d, [])
      else match d.displaceMeeting m.meeting with
        | (some old, next) => (next, [old])
        | (none, next) => (next, [m.course]) := by
  simp only [settle, fitsMeeting, displaceMeeting, add?, m.placement?_meeting]
  cases m.slot? with
  | none => rfl
  | some s => rfl

/-! ### At a slot -/

/-- The course goes in for the only one in its way, with rooms for all, or the draft is as it was. -/
theorem Represents.displace_cases (h : d.Represents P) (hI : I.Coherent) (c : CourseIx I)
    (s : Slot I) :
    (∃ old, hindrances P c s = {old} ∧ (d.cut old s).admits c s = true ∧
      allottable (((d.cut old s).put c s).coursesAt s) = true ∧
      d.displace c s = (some old, (d.cut old s).put c s)) ∨
    ((I.isAvailable c s = true → ∀ old, hindrances P c s = {old} →
      allottable (((d.cut old s).put c s).coursesAt s) = false) ∧ d.displace c s = (none, d)) := by
  rcases h.takeOver_cases hI c s with ⟨ha, he⟩ | ⟨old, hone, ha, he⟩ | ⟨-, hno, he⟩
  · refine .inr ⟨?_, by simp only [displace, he, h.lifted_put hI ha]⟩
    intro _ old hone
    have hfree := free_iff_hindrances.1 ((h.admits_iff hI).1 ha).2.2
    exact absurd (hone.symm.trans hfree) (Finset.singleton_ne_empty old)
  · cases hrooms : allottable (((d.cut old s).put c s).coursesAt s) with
    | true => exact .inl ⟨old, hone, ha, hrooms, by simp only [displace, he, hrooms, if_true]⟩
    | false =>
      refine .inr ⟨?_, ?_⟩
      · intro _ other hother
        rwa [← Finset.singleton_inj.1 (hone.symm.trans hother)]
      · simp only [displace, he, hrooms]
        rw [(h.cut old s).lifted_put hI ha, h.placed_cut hI (mem_of_hindrances_eq hone)]
        rfl
  · exact .inr ⟨fun hav old hone => absurd hone (hno hav old), by simp only [displace, he]⟩

/-- A donated lecture goes where it was, alone or in exchange for one course that waits from then on, or
    nothing happens and its own course waits. -/
theorem Represents.settle_cases (h : d.Represents P) (hI : I.Coherent) (m : Donation I) :
    (∃ s, d.fits m.course s = true ∧ d.settle m = (d.placed m.course s, [])) ∨
    (∃ s old, hindrances P m.course s = {old} ∧ (d.cut old s).admits m.course s = true ∧
      d.settle m = ((d.cut old s).put m.course s, [old])) ∨
    d.settle m = (d, [m.course]) := by
  unfold settle
  cases m.slot? with
  | none => exact .inr (.inr rfl)
  | some s =>
    by_cases hf : d.fits m.course s = true
    · exact .inl ⟨s, hf, by simp only [hf, if_true]⟩
    · simp only [hf, Bool.false_eq_true, if_false]
      rcases h.displace_cases hI m.course s with ⟨old, hone, ha, -, he⟩ | ⟨-, he⟩
      · exact .inr (.inl ⟨s, old, hone, ha, by rw [he]⟩)
      · exact .inr (.inr (by rw [he]))

/-! ### Meetings -/

/-- The displacement of a course for the meeting leaves nothing half done. -/
structure AllOrNothing (d : Draft I) (P : Finset (Placement I)) (m : Meeting) : Prop where
  unchanged : ∀ {e}, d.displaceMeeting m = (none, e) → e = d
  exchanged : ∀ {old e}, d.displaceMeeting m = (some old, e) → ∃ h : m.OnGrid I,
    hindrances P h.course h.slot = {old} ∧
      e.Represents (insert ⟨h.course, h.slot⟩ (P.erase ⟨old, h.slot⟩)) ∧
      allottable (e.coursesAt h.slot) = true
  /-- The exchange is made whenever it can be made. -/
  made : ∀ (h : m.OnGrid I) {old e}, I.isAvailable h.course h.slot = true →
    hindrances P h.course h.slot = {old} →
    e.Represents (insert ⟨h.course, h.slot⟩ (P.erase ⟨old, h.slot⟩)) →
    allottable (e.coursesAt h.slot) = true → d.displaceMeeting m = (some old, e)
  takenOut : ∀ {next}, d.replace m = .inserted next → next.remove? m = some d
  /-- What had to leave is taken in again, and every table is as it was. -/
  putBack : ∀ {old next}, d.replace m = .displaced old next →
    ∃ without, next.remove? m = some without ∧ without.add? old.meeting = some d

theorem displaceMeeting_eq_displace (h : m.OnGrid I) :
    d.displaceMeeting m = d.displace h.course h.slot := by
  rw [displaceMeeting, h.placement?_eq]

theorem displaceMeeting_eq_none (h : ¬m.OnGrid I) : d.displaceMeeting m = (none, d) := by
  rw [displaceMeeting, Meeting.placement?_eq_none_iff.2 h]

/-- The exchange is made as a whole, or nothing is changed. -/
theorem Represents.displaceMeeting_cases (h : d.Represents P) (hI : I.Coherent) (m : Meeting) :
    (∃ (hm : m.OnGrid I) (old : CourseIx I) (e : Draft I), hindrances P hm.course hm.slot = {old} ∧
      e.Represents (insert ⟨hm.course, hm.slot⟩ (P.erase ⟨old, hm.slot⟩)) ∧
      allottable (e.coursesAt hm.slot) = true ∧ d.displaceMeeting m = (some old, e)) ∨
    d.displaceMeeting m = (none, d) := by
  by_cases hm : m.OnGrid I
  · rw [displaceMeeting_eq_displace hm]
    rcases h.displace_cases hI hm.course hm.slot with ⟨old, hone, ha, hrooms, he⟩ | ⟨-, he⟩
    · exact .inl ⟨hm, old, _, hone, (h.cut old hm.slot).put hI ha, hrooms, he⟩
    · exact .inr he
  · exact .inr (displaceMeeting_eq_none hm)

theorem Represents.displaceMeeting_eq_some (h : d.Represents P) (hI : I.Coherent) (hm : m.OnGrid I)
    {e : Draft I} (hav : I.isAvailable hm.course hm.slot = true)
    (hone : hindrances P hm.course hm.slot = {old})
    (he : e.Represents (insert ⟨hm.course, hm.slot⟩ (P.erase ⟨old, hm.slot⟩)))
    (hrooms : allottable (e.coursesAt hm.slot) = true) : d.displaceMeeting m = (some old, e) := by
  have ha := h.admits_cut_of_hindrances hI hone hav
  -- the set of placements determines what the draft is after the exchange
  obtain rfl := he.toKeeps.unique ((h.cut old hm.slot).put hI ha).toKeeps
  rw [displaceMeeting_eq_displace hm]
  rcases h.displace_cases hI hm.course hm.slot with ⟨other, hother, -, -, hsome⟩ | ⟨hno, -⟩
  · obtain rfl := Finset.singleton_inj.1 (hone.symm.trans hother)
    exact hsome
  · rw [hno hav old hone] at hrooms
    cases hrooms

theorem Represents.remove?_of_replace_inserted (h : d.Represents P) (hI : I.Coherent) {next : Draft I}
    (hnext : d.replace m = .inserted next) : next.remove? m = some d := by
  by_cases hm : m.OnGrid I
  · rw [replace_eq_takeOver hm] at hnext
    rcases h.takeOver_cases hI hm.course hm.slot with ⟨ha, he⟩ | ⟨old, -, -, he⟩ | ⟨-, -, he⟩ <;>
      rw [he] at hnext <;> cases hnext
    exact h.remove?_of_add? hI (add?_eq_some_iff.2 ⟨⟨hm.course, hm.slot⟩, hm.meeting_eq, ha, rfl⟩)
  · rw [replace_eq_blocked hm] at hnext
    cases hnext

theorem Represents.add?_of_replace_displaced (h : d.Represents P) (hI : I.Coherent)
    {old : Placement I} {next : Draft I} (hnext : d.replace m = .displaced old next) :
    ∃ without, next.remove? m = some without ∧ without.add? old.meeting = some d := by
  by_cases hm : m.OnGrid I
  · rw [replace_eq_takeOver hm] at hnext
    rcases h.takeOver_cases hI hm.course hm.slot with ⟨-, he⟩ | ⟨b, hone, ha, he⟩ | ⟨-, -, he⟩ <;>
      rw [he] at hnext <;> cases hnext
    have hcut := h.cut b hm.slot
    have hadd : (d.cut b hm.slot).add? m = some ((d.cut b hm.slot).put hm.course hm.slot) :=
      add?_eq_some_iff.2 ⟨⟨hm.course, hm.slot⟩, hm.meeting_eq, ha, rfl⟩
    have hremove : d.remove? (⟨b, hm.slot⟩ : Placement I).meeting = some (d.cut b hm.slot) :=
      remove?_eq_some_iff.2 ⟨_, rfl, h.mem_slotsOf.2 (mem_of_hindrances_eq hone), rfl⟩
    exact ⟨_, hcut.remove?_of_add? hI hadd, h.add?_of_remove? hI hremove⟩
  · rw [replace_eq_blocked hm] at hnext
    cases hnext

theorem Represents.allOrNothing (h : d.Represents P) (hI : I.Coherent) (m : Meeting) :
    d.AllOrNothing P m where
  unchanged he := by
    rcases h.displaceMeeting_cases hI m with ⟨-, old, e, -, -, -, hsome⟩ | hnone
    · rw [hsome] at he
      cases he
    · rw [hnone] at he
      exact (Prod.mk.inj he).2.symm
  exchanged he := by
    rcases h.displaceMeeting_cases hI m with ⟨hm, old, e, hone, hrep, hrooms, hsome⟩ | hnone
    · rw [hsome] at he
      cases he
      exact ⟨hm, hone, hrep, hrooms⟩
    · rw [hnone] at he
      cases he
  made hm _ _ := h.displaceMeeting_eq_some hI hm
  takenOut := h.remove?_of_replace_inserted hI
  putBack := h.add?_of_replace_displaced hI

/-- Of a draft that came about by changes, the displacement for any meeting leaves nothing half done. -/
theorem allOrNothing_ofEdits {r : Records} {I : Instance} (h : r.resolve = .ok I)
    (es : List (Edit Meeting)) : ∃ P : Finset (Placement I), (ofEdits es).Represents P ∧
      ∀ m, (ofEdits es).AllOrNothing P m := by
  have hI := Records.coherent_of_resolve h
  obtain ⟨P, hP⟩ := exists_represents hI es
  exact ⟨P, hP, hP.allOrNothing hI⟩

/-- Optics displaces algebra, with which it shares a curriculum, and there is a room for it. -/
theorem allOrNothing_ofEdits_pair : ∃ P : Finset (Placement pair),
    (ofEdits [.add ⟨0, 1, 0⟩]).Represents P ∧ (∀ m, (ofEdits [.add ⟨0, 1, 0⟩]).AllOrNothing P m) ∧
      ∃ (algebra : CourseIx pair) (e : Draft pair) (h : Meeting.OnGrid pair ⟨1, 1, 0⟩),
        (ofEdits [.add ⟨0, 1, 0⟩]).displaceMeeting ⟨1, 1, 0⟩ = (some algebra, e) ∧
          e.Represents (insert ⟨h.course, h.slot⟩ (P.erase ⟨algebra, h.slot⟩)) := by
  obtain ⟨P, hP, hall⟩ := allOrNothing_ofEdits Records.resolve_pair [.add ⟨0, 1, 0⟩]
  have he : (ofEdits [.add ⟨0, 1, 0⟩] : Draft pair).displaceMeeting ⟨1, 1, 0⟩ =
      (some ⟨0, by decide⟩, ofEdits [.add ⟨1, 1, 0⟩]) := by decide
  obtain ⟨h, -, hrep, -⟩ := (hall _).exchanged he
  exact ⟨P, hP, hall, _, _, h, he, hrep⟩

end Draft

end Timetabling
