import Timetabling.Layout
import Timetabling.Report
import Timetabling.Proofs.Checked.Rooms
import Timetabling.Proofs.Timetable.History

/-! The report and the two texts with every look-up checked. Lectures that stand alone are counted in
    a table of the slots that are busy, which is asked for the slots before and after a lecture, and the grid
    text is written cell by cell into periods and days. No other count of the report looks anything up
    by a plain number. -/

namespace Timetabling

open Instance

variable {I : Instance}

namespace Timetable

/-! ### Lectures that stand alone -/

/-- The marks together with one at the slot of the booking. -/
def checkedBusy (marks : Cells I.slotCount Bool) (b : Booking I) :
    Option (Cells I.slotCount Bool) := do
  let s ← I.slot? (I.slotNumber b.day b.period)
  return marks.modify s fun _ => true

/-- The mark of the slot with this number, which has to exist. -/
def checkedMark (marks : Cells I.slotCount Bool) (slot : Nat) : Option Bool := do
  return marks.get (← I.slot? slot)

def checkedBefore (marks : Cells I.slotCount Bool) (b : Booking I) : Option Bool :=
  if 0 < b.period then do checkedMark marks (← checkedSub (I.slotNumber b.day b.period) 1)
  else some false

def checkedAfter (marks : Cells I.slotCount Bool) (b : Booking I) : Option Bool :=
  if b.period + 1 < I.periods then checkedMark marks (I.slotNumber b.day b.period + 1)
  else some false

def checkedIsolated (marks : Cells I.slotCount Bool) (b : Booking I) : Option Bool := do
  return !(← checkedBefore marks b) && !(← checkedAfter marks b)

def checkedIsolatedLectures (t : Timetable I) (q : Nat) : Option Nat := do
  let bs ← t.checkedBookingsOfCurriculum q
  let marks ← bs.foldlM checkedBusy (.fill false)
  return (← bs.mapM (checkedIsolated marks)).count true

def checkedReport (t : Timetable I) : Option Report := do
  let isolated ← (List.range I.curricula.size).mapM t.checkedIsolatedLectures
  return { t.report with isolatedLectures := tally id isolated }

theorem checkedBusy_eq (marks : Cells I.slotCount Bool) (b : Booking I) :
    checkedBusy marks b = some (marks.modify b.slot fun _ => true) := by
  have hs : I.slot? (I.slotNumber b.day b.period) = some b.slot :=
    bounded_eq_some_iff.2 (slotNumber_dayOf_periodOf b.slot).symm
  rw [checkedBusy, hs]
  rfl

/-- Marking never fails, and marks the slots of the bookings. -/
theorem exists_foldlM_checkedBusy (bs : List (Booking I)) (start : Cells I.slotCount Bool) :
    ∃ marks, bs.foldlM checkedBusy start = some marks ∧
      ∀ s, marks.get s = (start.get s || bs.any fun b => b.slot = s) := by
  induction bs generalizing start with
  | nil => exact ⟨start, rfl, fun s => (Bool.or_false _).symm⟩
  | cons b bs ih =>
    obtain ⟨marks, hmarks, hget⟩ := ih (start.modify b.slot fun _ => true)
    refine ⟨marks, by simpa [checkedBusy_eq] using hmarks, ?_⟩
    intro s
    rw [hget, Cells.get_modify]
    by_cases h : s = b.slot
    · simp [h]
    · simp [h, Ne.symm h]

section

variable {t : Timetable I} {q : Nat} {marks : Cells I.slotCount Bool}

theorem checkedMark_eq (h : ∀ s : Slot I, marks.get s = t.curriculumBusy q s) {slot : Nat}
    (hslot : slot < I.slotCount) : checkedMark marks slot = some (t.curriculumBusy q slot) := by
  have hs : I.slot? slot = some ⟨slot, hslot⟩ := dif_pos hslot
  simp [checkedMark, hs, h]

/-- A slot that is not the first of its day has one before it, and one that is not the last has one
    after it. -/
theorem checkedIsolated_eq (h : ∀ s : Slot I, marks.get s = t.curriculumBusy q s) (b : Booking I) :
    checkedIsolated marks b = some (t.isolated q b) := by
  have hslot : I.slotNumber b.day b.period = b.slot := slotNumber_dayOf_periodOf b.slot
  have hbefore : checkedBefore marks b =
      some (decide (0 < b.period) && t.curriculumBusy q (b.slot - 1)) := by
    unfold checkedBefore
    split
    · rename_i hpos
      have hle : 1 ≤ I.slotNumber b.day b.period := Nat.le_add_left_of_le hpos
      rw [checkedSub_eq hle, hslot]
      simp [checkedMark_eq h (Nat.lt_of_le_of_lt (Nat.sub_le ..) b.slot.isLt), hpos]
    · rename_i hpos
      simp [hpos]
  have hafter : checkedAfter marks b =
      some (decide (b.period + 1 < I.periods) && t.curriculumBusy q (b.slot + 1)) := by
    unfold checkedAfter
    split
    · rename_i hlast
      have hlt : b.slot.val + 1 < I.slotCount := hslot ▸ I.slotNumber_lt (dayOf_lt b.slot) hlast
      rw [hslot, checkedMark_eq h hlt, decide_eq_true hlast, Bool.true_and]
    · rename_i hlast
      simp [hlast]
  simp [checkedIsolated, hbefore, hafter, isolated]

end

theorem checkedIsolatedLectures_eq (t : Timetable I) {q : Nat} (hq : q < I.curricula.size) :
    t.checkedIsolatedLectures q = some ((t.bookingsOfCurriculum q).countP (t.isolated q)) := by
  obtain ⟨marks, hmarks, hget⟩ := exists_foldlM_checkedBusy (t.bookingsOfCurriculum q) (.fill false)
  have hbusy : ∀ s : Slot I, marks.get s = t.curriculumBusy q s := by
    intro s
    rw [hget, curriculumBusy]
    simp [Fin.ext_iff]
  have halone : (t.bookingsOfCurriculum q).mapM (checkedIsolated marks) =
      some ((t.bookingsOfCurriculum q).map (t.isolated q)) :=
    mapM_eq_some_map fun b _ => checkedIsolated_eq hbusy b
  simp [checkedIsolatedLectures, t.checkedBookingsOfCurriculum_eq hq, hmarks, halone,
    List.count_eq_countP, List.countP_map, Function.comp_def]

theorem checkedReport_eq (t : Timetable I) : t.checkedReport = some t.report := by
  rw [checkedReport, mapM_eq_some_map fun q hq => t.checkedIsolatedLectures_eq (List.mem_range.1 hq)]
  simp [report, violations, Report.wrapped, tally, List.foldr_map]

/-! ### The solution text -/

def checkedSolutionLine (b : Booking I) : Option String := do
  let (day, period) ← I.checkedSplit b.slot
  return String.intercalate " " [(course b.course).id, (room b.room).id, day.repr, period.repr]

def checkedSolutionText (t : Timetable I) : Option String := do
  let lines ← ((List.finRange I.courses.size).flatMap t.bookingsOf).mapM checkedSolutionLine
  return unlines lines

theorem checkedSolutionText_eq (hI : I.Coherent) (t : Timetable I) :
    t.checkedSolutionText = some t.solutionText := by
  have hline : ∀ b : Booking I, checkedSolutionLine b = some (solutionLine b) := by
    intro b
    rw [checkedSolutionLine, hI.checkedSplit_eq]
    rfl
  rw [checkedSolutionText, mapM_eq_some_map fun b _ => hline b, List.map_flatMap]
  rfl

/-! ### The grid text -/

/-- The cells together with that of a booking. -/
def checkedWrite (cells : Grid I.periods I.days String) (b : Booking I) :
    Option (Grid I.periods I.days String) := do
  let period ← checkedIx I.periods b.period
  let day ← checkedIx I.days b.day
  return cells.modify period day fun _ => cellOf b

def checkedBlock (t : Timetable I) (id : String) (q : Nat) : Option (List String) := do
  let cells ← (← t.checkedBookingsOfCurriculum q).foldlM checkedWrite (.fill "-")
  let row (p : Fin I.periods) := (List.finRange I.days).map (cells.get p)
  let texts := dayNames I ++ (List.finRange I.periods).flatMap row
  let width := (texts.map String.utf8ByteSize).foldl max 1
  return [id, gridLine width "" (dayNames I)] ++
    (List.finRange I.periods).map (fun p => gridLine width ("P" ++ p.val.repr) (row p)) ++ [""]

def checkedGridText (t : Timetable I) : Option String := do
  let blocks ← I.curricula.toList.zipIdx.mapM fun q => t.checkedBlock q.1.id q.2
  return unlines blocks.flatten

theorem checkedWrite_eq (cells : Grid I.periods I.days String) (b : Booking I) :
    checkedWrite cells b = some (cells.modify ⟨b.period, periodOf_lt b.slot⟩
      ⟨b.day, dayOf_lt b.slot⟩ fun _ => cellOf b) := by
  have hp : checkedIx I.periods b.period = some ⟨b.period, _⟩ := dif_pos (periodOf_lt b.slot)
  have hd : checkedIx I.days b.day = some ⟨b.day, _⟩ := dif_pos (dayOf_lt b.slot)
  rw [checkedWrite, hp, hd]
  rfl

/-- When no two bookings are at the same time, each of them is found in its own cell. -/
theorem exists_foldlM_checkedWrite {bs : List (Booking I)}
    (hbs : bs.Pairwise fun a b => a.slot < b.slot) (start : Grid I.periods I.days String) :
    ∃ cells, bs.foldlM checkedWrite start = some cells ∧
      ∀ p d, cells.get p d = match bs.find? fun b => b.day = d.val && b.period = p.val with
        | some b => cellOf b
        | none => start.get p d := by
  induction hbs generalizing start with
  | nil => exact ⟨start, rfl, fun _ _ => rfl⟩
  | @cons b bs hlt _ ih =>
    obtain ⟨cells, hcells, hget⟩ := ih (start.modify ⟨b.period, periodOf_lt b.slot⟩
      ⟨b.day, dayOf_lt b.slot⟩ fun _ => cellOf b)
    refine ⟨cells, by simpa [checkedWrite_eq] using hcells, ?_⟩
    intro p d
    rw [hget, Grid.get_modify, List.find?_cons]
    by_cases hb : b.day = d.val ∧ b.period = p.val
    · -- no later booking is at the time of this one
      have hnone : bs.find? (fun x => x.day = d.val && x.period = p.val) = none := by
        refine List.find?_eq_none.2 ?_
        intro x hx hxb
        rw [Bool.and_eq_true, decide_eq_true_eq, decide_eq_true_eq, ← hb.1, ← hb.2] at hxb
        exact absurd (eq_of_dayOf_periodOf hxb.1.symm hxb.2.symm) (Fin.ne_of_lt (hlt x hx))
      simp [hnone, hb]
    · have hcell : ¬(p = ⟨b.period, periodOf_lt b.slot⟩ ∧ d = ⟨b.day, dayOf_lt b.slot⟩) := by
        rintro ⟨rfl, rfl⟩
        exact hb ⟨rfl, rfl⟩
      have hfalse : (decide (b.day = d.val) && decide (b.period = p.val)) = false := by
        simpa using hb
      rw [if_neg hcell, hfalse]

variable {t : Timetable I} {M : Finset (Booking I)}

theorem Keeps.checkedBlock_eq (h : t.Keeps M) (id : String) {q : Nat} (hq : q < I.curricula.size) :
    t.checkedBlock id q = some (t.block id q) := by
  obtain ⟨cells, hcells, hget⟩ :=
    exists_foldlM_checkedWrite (h.bookingsOfCurriculum_ordered q) (.fill "-")
  have hrow : ∀ p : Fin I.periods, (List.finRange I.days).map (cells.get p) = t.row q p := by
    intro p
    rw [row, ← List.map_coe_finRange_eq_range, List.map_map]
    refine List.map_congr_left fun d _ => ?_
    rw [hget, Grid.get_fill]
    rfl
  simp only [checkedBlock, t.checkedBookingsOfCurriculum_eq hq, Option.bind_eq_bind, Option.bind_some,
    hcells, hrow]
  simp only [block, columnWidth, ← List.map_coe_finRange_eq_range, List.flatMap_map, List.map_map]
  rfl

theorem Keeps.checkedGridText_eq (h : t.Keeps M) : t.checkedGridText = some t.gridText := by
  have hblock : ∀ q ∈ I.curricula.toList.zipIdx,
      t.checkedBlock q.1.id q.2 = some (t.block q.1.id q.2) := by
    intro q hq
    have hlt := (List.getElem?_eq_some_iff.1 (List.mem_zipIdx_iff_getElem?.1 hq)).1
    exact h.checkedBlock_eq q.1.id (by rwa [Array.length_toList] at hlt)
  rw [checkedGridText, mapM_eq_some_map hblock]
  rfl

end Timetable

end Timetabling
