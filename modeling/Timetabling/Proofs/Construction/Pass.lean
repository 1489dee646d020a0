import Mathlib.Logic.Relation
import Timetabling.Construction.Build
import Timetabling.Proofs.Construction.SlotWalk
import Timetabling.Proofs.Rooming

/-! One pass of the construction. At first every lecture is pending; what is placed along the walk
    leaves the list, and a pass succeeds only when nothing is pending any more. Only courses that fit
    are placed, so every slot can be given its rooms all along, and the rooms at the end are never
    what a pass fails for. It fails at a point where the first pending lecture fits no slot. -/

namespace Timetabling

open Instance

variable {I : Instance}

namespace Draft

variable {d e : Draft I} {c : CourseIx I} {s : Slot I} {cs waiting : List (CourseIx I)}
  {demand : CourseIx I → Nat}

/-! ### Nothing is lost -/

theorem Covers.fill (h : d.Covers (cs ++ waiting) demand) (hI : I.Coherent) (s : Slot I) :
    (fill s cs d).1.Covers ((fill s cs d).2 ++ waiting) demand := by
  induction cs generalizing d waiting with
  | nil => exact h
  | cons c cs ih =>
    by_cases hf : d.fits c s = true
    · simp only [Timetabling.fill, hf, if_true]
      exact ih (h.placed_of_fits hI hf)
    · simp only [Timetabling.fill, hf, Bool.false_eq_true, if_false]
      exact (ih (h.perm List.perm_middle.symm)).perm List.perm_middle

/-- One lecture is placed where it fits, and then others at a slot that may be another one. -/
theorem Covers.fill_placed (h : d.Covers (c :: cs) demand) (hI : I.Coherent) (hf : d.fits c s = true)
    (s' : Slot I) :
    (Timetabling.fill s' cs (d.placed c s)).1.Covers (Timetabling.fill s' cs (d.placed c s)).2
      demand := by
  have hplaced := h.placed_of_fits hI hf
  rw [← List.append_nil cs] at hplaced
  have hfilled := hplaced.fill hI s'
  rwa [List.append_nil] at hfilled

theorem Covers.placeAll (h : d.Covers cs demand) (hI : I.Coherent) {w : SlotWalk I.slotCount}
    (hok : placeAll w d cs = .ok e) : e.Covers [] demand := by
  fun_induction Timetabling.placeAll w d cs with
  | case1 =>
    obtain rfl := Except.ok.inj hok
    exact h
  | case2 => cases hok
  | case3 w d c cs s hs filled ih => exact ih (h.fill_placed hI (List.find?_some hs) w.position) hok

/-! ### Rooms all along -/

/-- At every slot rooms can be allotted to the courses there. -/
def Roomable (d : Draft I) : Prop := ∀ s, allottable (d.coursesAt s) = true

theorem roomable_empty : (empty : Draft I).Roomable := fun s => by
  rw [coursesAt_empty]
  rfl

theorem Roomable.placed (h : d.Roomable) (hf : d.fits c s = true) : (d.placed c s).Roomable := by
  intro s'
  rw [placed_eq_put (admits_of_fits hf), coursesAt_put]
  split
  · simp only [fits, Bool.and_eq_true] at hf
    exact hf.2
  · exact h s'

theorem Roomable.fill (h : d.Roomable) (s : Slot I) (cs : List (CourseIx I)) :
    (fill s cs d).1.Roomable := by
  induction cs generalizing d with
  | nil => exact h
  | cons c cs ih =>
    by_cases hf : d.fits c s = true
    · simp only [Timetabling.fill, hf, if_true]
      exact ih (h.placed hf)
    · simp only [Timetabling.fill, hf, Bool.false_eq_true, if_false]
      exact ih h

theorem Roomable.placeAll (h : d.Roomable) {w : SlotWalk I.slotCount}
    (hok : placeAll w d cs = .ok e) : e.Roomable := by
  fun_induction Timetabling.placeAll w d cs with
  | case1 =>
    obtain rfl := Except.ok.inj hok
    exact h
  | case2 => cases hok
  | case3 w d c cs s hs filled ih =>
    exact ih (Roomable.fill (h.placed (List.find?_some hs)) w.position cs) hok

/-- A lecture fits nowhere on the grid just when it fits no slot. -/
theorem fitsMeeting_eq_false_iff :
    (∀ day period, d.fitsMeeting ⟨c, day, period⟩ = false) ↔ ∀ s, d.fits c s = false := by
  simp only [fitsMeeting, Option.any_eq_false, Meeting.placement?_eq_some_iff]
  constructor
  · intro h s
    exact h _ _ ⟨c, s⟩ rfl
  · intro h day period p hp
    obtain rfl : p.course = c := Fin.ext (congrArg Meeting.course hp)
    exact h p.slot

end Draft

/-! ### The lectures to place -/

theorem count_flatMap_replicate {n : Nat} (f : Fin n → Nat) (i : Fin n) :
    ((List.finRange n).flatMap fun j => List.replicate (f j) j).count i = f i := by
  have hcount : ∀ j, (List.replicate (f j) j).count i = if j = i then f j else 0 := fun j => by
    simp [List.count_replicate, beq_iff_eq]
  rw [List.count_flatMap, ← Fin.sum_univ_def]
  simp [hcount]

theorem count_pendingLectures (hard : Difficulty) (c : CourseIx I) :
    (pendingLectures I hard).count c = wanted c := by
  rw [pendingLectures, (List.mergeSort_perm ..).count_eq]
  exact count_flatMap_replicate wanted c

/-! ### Where a pass stops -/

/-- A pass under way: where the walk is, what was placed so far and which lectures are pending. -/
structure Pass (I : Instance) where
  walk : SlotWalk I.slotCount
  draft : Draft I
  pending : List (CourseIx I)

namespace Pass

/-- A pass before its first stop. -/
def start (hard : Difficulty) (w : SlotWalk I.slotCount) : Pass I :=
  ⟨w, .empty, pendingLectures I hard⟩

/-- From one stop to the next: the first pending lecture goes to the first slot of the walk that it
    fits, and the place where the walk is takes in those that fit there. -/
inductive Stop : Pass I → Pass I → Prop
  | place {w : SlotWalk I.slotCount} {d : Draft I} {c : CourseIx I} {cs : List (CourseIx I)}
      {s : Slot I} (first : w.cycle.find? (d.fits c) = some s) :
      Stop ⟨w, d, c :: cs⟩
        ⟨w.advance, (fill w.position cs (d.placed c s)).1, (fill w.position cs (d.placed c s)).2⟩

/-- The course heads the pending lectures and fits nowhere on the grid. -/
def StuckAt (p : Pass I) (c : CourseIx I) : Prop :=
  p.pending.head? = some c ∧ ∀ day period, p.draft.fitsMeeting ⟨c, day, period⟩ = false

/-- The pass comes to a stop where it is stuck at the course. -/
def Fails (p : Pass I) (c : CourseIx I) : Prop := ∃ q, Relation.ReflTransGen Stop p q ∧ q.StuckAt c

end Pass

theorem fails_of_placeAll {w : SlotWalk I.slotCount} (hw : w.Thorough) {d : Draft I}
    {cs : List (CourseIx I)} {c : CourseIx I} (herror : placeAll w d cs = .error c) :
    (Pass.mk w d cs).Fails c := by
  fun_induction placeAll w d cs with
  | case1 => cases herror
  | case2 w d c' cs hnone =>
    obtain rfl := Except.error.inj herror
    exact ⟨_, .refl, rfl, Draft.fitsMeeting_eq_false_iff.2 (hw.find?_cycle_eq_none_iff.1 hnone)⟩
  | case3 w d c' cs s hs filled ih =>
    obtain ⟨q, hreach, hstuck⟩ := ih hw.advance herror
    exact ⟨q, .head (.place hs) hreach, hstuck⟩

theorem placeAll_of_fails {w : SlotWalk I.slotCount} {d : Draft I} {cs : List (CourseIx I)}
    {c : CourseIx I} (h : (Pass.mk w d cs).Fails c) : placeAll w d cs = .error c := by
  obtain ⟨q, hreach, hhead, hfits⟩ := h
  generalize hp : Pass.mk w d cs = p at hreach
  -- on the way to where the pass is stuck, each stop is one round of `placeAll`
  induction hreach using Relation.ReflTransGen.head_induction_on generalizing w d cs with
  | refl =>
    subst hp
    obtain ⟨cs', rfl⟩ := List.head?_eq_some_iff.1 hhead
    have hnone : w.cycle.find? (d.fits c) = none :=
      List.find?_eq_none.2 fun s _ => by simp [Draft.fitsMeeting_eq_false_iff.1 hfits s]
    rw [placeAll, hnone]
  | head hstop _ ih =>
    cases hstop with
    | place hs =>
      cases hp
      rw [placeAll, hs]
      exact ih rfl

/-! ### Outcomes of a pass -/

/-- What was placed can be given its rooms, whatever walk led to it. -/
theorem exists_withRooms_of_placeAll (hI : I.Coherent) {hard : Difficulty}
    {w : SlotWalk I.slotCount} {d : Draft I}
    (hok : placeAll w .empty (pendingLectures I hard) = .ok d) : ∃ t, d.withRooms = .ok t := by
  obtain ⟨⟨P, hP⟩, -⟩ := (Draft.covers_empty (count_pendingLectures hard)).placeAll hI hok
  exact (hP.exists_withRooms_iff hI).2 (Draft.roomable_empty.placeAll hok)

theorem buildOnce_eq_ok_iff {hard : Difficulty} {w : SlotWalk I.slotCount} {t : Timetable I} :
    buildOnce hard w = .ok t ↔
      ∃ d, placeAll w .empty (pendingLectures I hard) = .ok d ∧ d.withRooms = .ok t := by
  simp only [buildOnce, bind, Except.bind]
  cases placeAll w .empty (pendingLectures I hard) with
  | error c => simp
  | ok d => cases hrooms : d.withRooms <;> simp [Except.mapError, hrooms]

theorem lodged_of_buildOnce (hI : I.Coherent) {hard : Difficulty} {w : SlotWalk I.slotCount}
    {t : Timetable I} (hok : buildOnce hard w = .ok t) : t.Lodged wanted := by
  obtain ⟨d, hplace, hrooms⟩ := buildOnce_eq_ok_iff.1 hok
  exact ⟨d, (Draft.covers_empty (count_pendingLectures hard)).placeAll hI hplace, hrooms⟩

/-- A pass along a walk that meets every slot fails just where a lecture fits nowhere. -/
theorem buildOnce_eq_error_iff (hI : I.Coherent) {hard : Difficulty} {w : SlotWalk I.slotCount}
    (hw : w.Thorough) {c : CourseIx I} :
    buildOnce hard w = .error c ↔ (Pass.start hard w).Fails c := by
  constructor
  · intro herror
    cases hplace : placeAll w .empty (pendingLectures I hard) with
    | error c' =>
      obtain rfl : c' = c := by simpa [buildOnce, hplace, bind, Except.bind] using herror
      exact fails_of_placeAll hw hplace
    | ok d =>
      obtain ⟨t, ht⟩ := exists_withRooms_of_placeAll hI hplace
      rw [buildOnce_eq_ok_iff.2 ⟨d, hplace, ht⟩] at herror
      cases herror
  · intro hfails
    rw [buildOnce, placeAll_of_fails hfails]
    rfl

end Timetabling
