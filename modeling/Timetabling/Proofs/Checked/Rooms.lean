import Timetabling.Proofs.Allotment
import Timetabling.Proofs.Checked.Tables
import Timetabling.Rooming

/-! Rooms with every look-up and every subtraction checked. A request that loses a room has one fewer
    left, the one that is served is looked up by its position, and days and periods are worked out
    from slot numbers and back. The count of the rooms left is right in every round, so it is never
    lowered below zero. -/

namespace Timetabling

open Instance

variable {I : Instance}

/-! ### Allotments -/

/-- Strikes the room off the choices; the count of those left must not be zero by then. -/
def Request.checkedStrike (r : RoomIx I) (q : Request I) : Option (Request I) :=
  if q.given.isNone && q.choices.contains r then do
    let left ← checkedSub q.left 1
    return { q with choices := q.choices.erase r, left := left }
  else return q

/-- Gives the room to the request at a position, which has to exist. -/
def checkedServe (qs : List (Request I)) (i : Nat) (r : RoomIx I) : Option (List (Request I)) := do
  let q ← qs[i]?
  (qs.set i { q with given := some r }).mapM (Request.checkedStrike r)

def checkedServeRounds :
    Nat → List (Request I) → Option (Except (CourseIx I) (List (Request I)))
  | 0, qs => return .ok qs
  | n + 1, qs =>
    match neediest? qs with
    | none => return .ok qs
    | some (q, i) =>
      match q.best? with
      | none => do return .error (← qs[i]?).course
      | some r => do checkedServeRounds n (← checkedServe qs i r)

def checkedAllot (cs : List (CourseIx I)) : Option (Except (CourseIx I) (List (RoomIx I))) := do
  let served ← checkedServeRounds cs.length (cs.map Request.ofCourse)
  return served.map fun qs => qs.filterMap Request.given

section

variable {cs : List (CourseIx I)} {q : Request I} {qs : List (Request I)}

theorem Request.checkedStrike_eq (hq : q.given = none → q.left = q.choices.length) (r : RoomIx I) :
    q.checkedStrike r = some (q.strike r) := by
  rw [checkedStrike, strike]
  split
  · rename_i hr
    rw [Bool.and_eq_true, Option.isNone_iff_eq_none, List.contains_iff_mem] at hr
    rw [checkedSub_eq (hq hr.1 ▸ List.length_pos_of_mem hr.2)]
    rfl
  · rfl

theorem RequestsOf.checkedServe_eq (h : RequestsOf cs qs) {i : Nat} (hi : qs[i]? = some q)
    (r : RoomIx I) : checkedServe qs i r = some (serve qs i r) := by
  have hset : qs.modify i (fun q => { q with given := some r }) =
      qs.set i { q with given := some r } := by
    simp [List.modify_eq_set_getElem?, hi]
  simp only [checkedServe, serve, hi, hset, Option.bind_eq_bind, Option.bind_some]
  refine mapM_eq_some_map ?_
  intro x hx
  rcases List.mem_or_eq_of_mem_set hx with hx | rfl
  · exact Request.checkedStrike_eq (h.sound x hx).left_eq r
  · exact Request.checkedStrike_eq (fun hnone => absurd hnone (Option.some_ne_none r)) r

theorem RequestsOf.checkedServeRounds_eq (h : RequestsOf cs qs) (n : Nat) :
    checkedServeRounds n qs = some (serveRounds n qs) := by
  induction n generalizing qs with
  | zero => rfl
  | succ n ih =>
    cases hpick : neediest? qs with
    | none => simp [checkedServeRounds, serveRounds, hpick]
    | some pick =>
      obtain ⟨q, i⟩ := pick
      obtain ⟨hi, hq⟩ := neediest?_eq_some hpick
      cases hbest : q.best? with
      | none => simp [checkedServeRounds, serveRounds, hpick, hbest, hi]
      | some r =>
        have h' := h.served (List.mem_of_getElem? hi) hq (fun _ => left_le_of_neediest? hpick)
          (List.minOn?_mem hbest) (served_serve hi hq r)
        simp [checkedServeRounds, serveRounds, hpick, hbest, h.checkedServe_eq hi, ih h']

theorem checkedAllot_eq (cs : List (CourseIx I)) : checkedAllot cs = some (allot cs) := by
  simp [checkedAllot, allot, (requestsOf_ofCourse cs).checkedServeRounds_eq]

end

/-! ### Drafts -/

namespace Draft

def checkedFits (d : Draft I) (c : CourseIx I) (s : Slot I) : Option Bool := do
  if ← d.checkedAdmits c s then
    return (← checkedAllot (insertAscending Fin.val c (d.coursesAt s))).isOk
  else return false

def checkedFitsMeeting (d : Draft I) (m : Meeting) : Option Bool :=
  match m.placement? I with
  | some p => d.checkedFits p.course p.slot
  | none => return false

/-- Whether the course fits at the day and the period of the slot. -/
def checkedFitsAt (d : Draft I) (c : CourseIx I) (s : Slot I) : Option Bool := do
  let (day, period) ← I.checkedSplit s
  d.checkedFitsMeeting ⟨c, day, period⟩

/-- The draft after an attempt to add the course at the day and the period of the slot. -/
def checkedAddAt (d : Draft I) (c : CourseIx I) (s : Slot I) : Option (Draft I) := do
  let (day, period) ← I.checkedSplit s
  d.checkedAdd ⟨c, day, period⟩

/-- The draft after an attempt to remove the course at the day and the period of the slot. -/
def checkedRemoveAt (d : Draft I) (c : CourseIx I) (s : Slot I) : Option (Draft I) := do
  let (day, period) ← I.checkedSplit s
  d.checkedRemove ⟨c, day, period⟩

def checkedLodge (s : Slot I) (t : Timetable I) :
    List (CourseIx I × RoomIx I) → Option (Except (Shortage I) (Timetable I))
  | [] => return .ok t
  | (c, r) :: rest => do
    let (day, period) ← I.checkedSplit s
    match ← t.checkedAdd ⟨c, day, period, r⟩ with
    | .ok t => checkedLodge s t rest
    | .error _ => return .error ⟨c, s⟩

/-- Gives out the rooms at the slots with these numbers, one after another. -/
def checkedLodgeSlots (d : Draft I) (t : Timetable I) :
    List Nat → Option (Except (Shortage I) (Timetable I))
  | [] => return .ok t
  | n :: ns => do
    let s ← I.slot? n
    match ← checkedAllot (d.coursesAt s) with
    | .error c => return .error ⟨c, s⟩
    | .ok rs =>
      match ← checkedLodge s t ((d.coursesAt s).zip rs) with
      | .error e => return .error e
      | .ok t => d.checkedLodgeSlots t ns

def checkedWithRooms (d : Draft I) : Option (Except (Shortage I) (Timetable I)) :=
  d.checkedLodgeSlots .empty (List.range I.slotCount)

section

variable (hI : I.Coherent) (d : Draft I) (c : CourseIx I) (s : Slot I)

theorem placement?_dayOf_periodOf :
    Meeting.placement? I ⟨c, dayOf s, periodOf s⟩ = some ⟨c, s⟩ :=
  Meeting.placement?_eq_some_iff.2 rfl

include hI

theorem checkedFits_eq : d.checkedFits c s = some (d.fits c s) := by
  cases hadmits : d.admits c s <;>
    simp [checkedFits, fits, checkedAdmits_eq hI, checkedAllot_eq, hadmits, allottable]

variable {c s} {m : Meeting}

theorem checkedFitsMeeting_of_placement? (hm : m.placement? I = some ⟨c, s⟩) :
    d.checkedFitsMeeting m = some (d.fits c s) := by
  rw [checkedFitsMeeting, hm]
  exact checkedFits_eq hI d c s

theorem checkedAdd_of_placement? (hm : m.placement? I = some ⟨c, s⟩) :
    d.checkedAdd m = some (d.placed c s) := by
  rw [checkedAdd_eq hI, add?, hm]
  rfl

theorem checkedRemove_of_placement? (hm : m.placement? I = some ⟨c, s⟩) :
    d.checkedRemove m = some (d.lifted c s) := by
  rw [checkedRemove_eq hI, remove?, hm]
  rfl

variable (c s)

theorem checkedFitsAt_eq : d.checkedFitsAt c s = some (d.fits c s) := by
  simp [checkedFitsAt, hI.checkedSplit_eq,
    checkedFitsMeeting_of_placement? hI d (placement?_dayOf_periodOf c s)]

theorem checkedAddAt_eq : d.checkedAddAt c s = some (d.placed c s) := by
  simp [checkedAddAt, hI.checkedSplit_eq,
    checkedAdd_of_placement? hI d (placement?_dayOf_periodOf c s)]

theorem checkedRemoveAt_eq : d.checkedRemoveAt c s = some (d.lifted c s) := by
  simp [checkedRemoveAt, hI.checkedSplit_eq,
    checkedRemove_of_placement? hI d (placement?_dayOf_periodOf c s)]

theorem checkedLodge_eq (t : Timetable I) (crs : List (CourseIx I × RoomIx I)) :
    checkedLodge s t crs = some (lodge s t crs) := by
  induction crs generalizing t with
  | nil => rfl
  | cons cr crs ih =>
    obtain ⟨c, r⟩ := cr
    have hb : RoomMeeting.booking? I ⟨c, dayOf s, periodOf s, r⟩ = some ⟨c, s, r⟩ :=
      RoomMeeting.booking?_eq_some_iff.2 rfl
    have hadd : t.checkedAdd ⟨c, dayOf s, periodOf s, r⟩ = some (t.place ⟨c, s, r⟩) := by
      rw [Timetable.checkedAdd_eq hI, Timetable.add, hb]
    cases hplace : t.place ⟨c, s, r⟩ <;>
      simp [checkedLodge, lodge, hI.checkedSplit_eq, hadd, hplace, ih]

theorem checkedLodgeSlots_eq (t : Timetable I) (ss : List (Slot I)) :
    d.checkedLodgeSlots t (ss.map Fin.val) = some (ss.foldlM d.lodgeSlot t) := by
  induction ss generalizing t with
  | nil => rfl
  | cons s ss ih =>
    have hs : I.slot? s = some s := bounded_eq_some_iff.2 rfl
    rw [List.map_cons, checkedLodgeSlots, List.foldlM_cons]
    cases hallot : allot (d.coursesAt s) with
    | error c => simp [hs, checkedAllot_eq, lodgeSlot, hallot, bind, Except.bind]
    | ok rs =>
      cases hlodge : lodge s t ((d.coursesAt s).zip rs) <;>
        simp [hs, checkedAllot_eq, lodgeSlot, hallot, checkedLodge_eq hI, hlodge, ih, bind,
          Except.bind]

theorem checkedWithRooms_eq : d.checkedWithRooms = some d.withRooms := by
  rw [checkedWithRooms, ← List.map_coe_finRange_eq_range]
  exact checkedLodgeSlots_eq hI d .empty _

end

end Draft

/-! ### Timetables -/

namespace Timetable

def checkedWithoutRooms (t : Timetable I) : Option (Draft I) :=
  t.bookings.foldlM (fun d b => d.checkedAdd ⟨b.course, b.day, b.period⟩) .empty

theorem checkedWithoutRooms_eq (hI : I.Coherent) (t : Timetable I) :
    t.checkedWithoutRooms = some t.withoutRooms := by
  have hadd : ∀ (d : Draft I) (b : Booking I),
      d.checkedAdd ⟨b.course, b.day, b.period⟩ = some (d.placed b.course b.slot) := fun d b =>
    Draft.checkedAdd_of_placement? hI d (Draft.placement?_dayOf_periodOf b.course b.slot)
  simp only [checkedWithoutRooms, hadd, withoutRooms]
  exact List.foldlM_pure ..

end Timetable

end Timetabling
