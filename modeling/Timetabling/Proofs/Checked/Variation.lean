import Timetabling.Proofs.Checked.Construction
import Timetabling.Proofs.Timetable.History
import Timetabling.Proofs.Variation.Graft
import Timetabling.Variation.Strategy

/-! Crossover and mutation with every look-up checked. A window is cut out of a list by its two ends,
    and a curriculum, once drawn, is looked up. A donated meeting need not be on the grid: its slot
    number is looked up only after the meeting displaced another one there, which makes it a slot. -/

namespace Timetabling

open Instance Draw

variable {I : Instance} {σ : Type} [WordSource σ]

/-! ### Donations -/

/-- A random window, cut out by its ends. -/
def checkedDrawWindow {α : Type} (size : Nat) (xs : List α) : Draw σ (List α) :=
  if xs.length ≤ size then return xs
  else do
    let last ← ofOption (checkedSub xs.length size)
    let start ← below (last + 1)
    ofOption (checkedSlice xs start (start + size))

def checkedDrawCurriculum (t : Timetable I) : Draw σ (List (Booking I)) :=
  if I.curricula.size = 0 then return []
  else do ofOption (t.checkedBookingsOfCurriculum (← below I.curricula.size))

def DonationRule.checkedDraw (rule : DonationRule) (t : Timetable I) : Draw σ (List (Booking I)) :=
  match rule with
  | course =>
    if I.courses.size = 0 then return []
    else do return t.bookingsOf (← below I.courses.size)
  | curriculum => checkedDrawCurriculum t
  | sector size => do checkedDrawWindow size (← checkedDrawCurriculum t)

theorem checkedDrawWindow_eq {α : Type} (size : Nat) (xs : List α) :
    (checkedDrawWindow size xs : Draw σ (List α)) = drawWindow size xs := by
  unfold checkedDrawWindow drawWindow
  split
  · rfl
  · rename_i hsize
    rw [checkedSub_eq (Nat.le_of_not_le hsize), ofOption_some, pure_bind]
    refine bind_congr fun start => ?_
    have hstop : start.val + size ≤ xs.length := by omega
    simp [checkedSlice, hstop]

theorem checkedDrawCurriculum_eq (t : Timetable I) :
    (checkedDrawCurriculum t : Draw σ (List (Booking I))) = drawCurriculum t := by
  unfold checkedDrawCurriculum drawCurriculum
  split
  · rfl
  · refine bind_congr fun q => ?_
    rw [t.checkedBookingsOfCurriculum_eq q.isLt, ofOption_some]

theorem DonationRule.checkedDraw_eq (rule : DonationRule) (t : Timetable I) :
    (rule.checkedDraw t : Draw σ (List (Booking I))) = rule.draw t := by
  cases rule with
  | course => rfl
  | curriculum => exact checkedDrawCurriculum_eq t
  | sector size => simp only [checkedDraw, draw, checkedDrawCurriculum_eq, checkedDrawWindow_eq]

/-! ### Grafts -/

def checkedVacateFor (donated : List (Donation I)) (v : Vacated I) (m : Donation I) :
    Draw σ (Vacated I) :=
  if v.draft.hasDonation m then return v
  else do
    let free := (v.draft.slotsOf m.course).filter fun s => !donated.any (·.claims m.course s)
    match ← among free with
    | none => return { v with incoming := v.incoming ++ [m] }
    | some s => do
      let draft ← ofOption (v.draft.checkedRemoveAt m.course s)
      return { draft := draft, gaps := v.gaps ++ [s], incoming := v.incoming ++ [m] }

def checkedVacate (d : Draft I) (donated : List (Donation I)) : Draw σ (Vacated I) :=
  donated.foldlM (checkedVacateFor donated) ⟨d, [], []⟩

namespace Draft

/-- Puts the donated lecture in place of another one. Only what displaced something is known to be on
    the grid, so only then is its slot looked up. -/
def checkedDisplace (d : Draft I) (m : Donation I) :
    Option (Option (CourseIx I) × Draft I) := do
  match ← d.checkedReplace m.meeting with
  | .displaced old next =>
    let s ← I.slot? (I.slotNumber m.day m.period)
    if (← checkedAllot (next.coursesAt s)).isOk then return (some old.course, next)
    else
      let without ← next.checkedRemove m.meeting
      return (none, ← without.checkedAdd old.meeting)
  | .inserted next => return (none, ← next.checkedRemove m.meeting)
  | .blocked next => return (none, next)

def checkedSettle (d : Draft I) (m : Donation I) : Option (Draft I × List (CourseIx I)) := do
  if ← d.checkedFitsMeeting m.meeting then return (← d.checkedAdd m.meeting, [])
  else match ← d.checkedDisplace m with
    | (some old, next) => return (next, [old])
    | (none, next) => return (next, [m.course])

def checkedSettleAll (d : Draft I) :
    List (Donation I) → Option (Draft I × List (CourseIx I))
  | [] => return (d, [])
  | m :: ms => do
    let (d, waiting) ← d.checkedSettle m
    let (d, more) ← d.checkedSettleAll ms
    return (d, waiting ++ more)

end Draft

/-- A random day and a random period. -/
def checkedDrawTime (I : Instance) : Draw σ (Nat × Nat) := do
  let day ← below I.days
  let period ← below I.periods
  return (day, period)

def checkedPlaceAnywhere (d : Draft I) (c : CourseIx I) : Nat → Draw σ (Option (Draft I))
  | 0 => return none
  | tries + 1 => do
    let (day, period) ← checkedDrawTime I
    if ← ofOption (d.checkedFitsMeeting ⟨c, day, period⟩) then
      return some (← ofOption (d.checkedAdd ⟨c, day, period⟩))
    else checkedPlaceAnywhere d c tries

def checkedPlaceWaiting (gaps : List (Slot I)) (tries : Nat) (d : Draft I) (c : CourseIx I) :
    Draw σ (Option (Draft I)) := do
  match ← ofOption (gaps.findM? (d.checkedFitsAt c)) with
  | some s => return some (← ofOption (d.checkedAddAt c s))
  | none => checkedPlaceAnywhere d c tries

def checkedPlaceAllWaiting (gaps : List (Slot I)) (tries : Nat) (d : Draft I) :
    List (CourseIx I) → Draw σ (Option (Draft I))
  | [] => return some d
  | c :: cs => do
    match ← checkedPlaceWaiting gaps tries d c with
    | some d => checkedPlaceAllWaiting gaps tries d cs
    | none => return none

def checkedGraftOnce (t : Timetable I) (donated : List (Donation I)) (tries : Nat) :
    Draw σ (Option (Timetable I)) := do
  let v ← checkedVacate (← ofOption t.checkedWithoutRooms) donated
  let (d, waiting) ← ofOption (v.draft.checkedSettleAll v.incoming)
  match ← checkedPlaceAllWaiting v.gaps tries d waiting with
  | some d => return (← ofOption d.checkedWithRooms).toOption
  | none => return none

def checkedGraftWithin (t : Timetable I) (donated : List (Donation I)) (tries : Nat) :
    Nat → Draw σ (Timetable I)
  | 0 => return t
  | attempts + 1 => do
    match ← checkedGraftOnce t donated tries with
    | some child => return child
    | none => checkedGraftWithin t donated tries attempts

def checkedGraft (settings : Settings) (t : Timetable I) (donated : List (Donation I)) :
    Draw σ (Timetable I) :=
  if donated = [] then return t
  else checkedGraftWithin t donated settings.randomPlacements (max 1 settings.repairAttempts)

def checkedGraftMeetings (settings : Settings) (t : Timetable I) (donated : List RoomMeeting) :
    Draw σ (Timetable I) := do
  checkedGraft settings t (← ofOption (donated.mapM (Donation.ofMeeting? I)))

def checkedCross (rule : DonationRule) (settings : Settings) (p q : Timetable I) :
    Draw σ (Timetable I × Timetable I) := do
  let fromSecond ← rule.checkedDraw q
  let first ← checkedGraft settings p (fromSecond.map Donation.ofBooking)
  let fromFirst ← rule.checkedDraw p
  let second ← checkedGraft settings q (fromFirst.map Donation.ofBooking)
  return (first, second)

section

variable (hI : I.Coherent)

include hI

theorem checkedVacate_eq (d : Draft I) (donated : List (Donation I)) :
    (checkedVacate d donated : Draw σ (Vacated I)) = vacate d donated := by
  have hstep : checkedVacateFor donated = (vacateFor donated : _ → _ → Draw σ (Vacated I)) := by
    funext v m
    simp only [checkedVacateFor, Draft.checkedRemoveAt_eq hI, ofOption_some, pure_bind]
    rfl
  rw [checkedVacate, hstep, vacate]

namespace Draft

omit hI in
theorem slot_of_takeOver {d next : Draft I} {c : CourseIx I} {s : Slot I} {old : Placement I}
    (h : d.takeOver c s = .displaced old next) : old.slot = s := by
  unfold takeOver at h
  split at h
  · cases h
  split at h
  · split at h <;> cases h
  · dsimp only at h
    split at h
    · cases h
      rfl
    · cases h
  · cases h

theorem checkedDisplace_eq (d : Draft I) {m : Donation I} {s : Slot I} (hs : m.slot? = some s) :
    d.checkedDisplace m = some (d.displace m.course s) := by
  have hm : m.meeting.placement? I = some ⟨m.course, s⟩ := by
    rw [m.placement?_meeting, hs, Option.map_some]
  have hlookup : I.slot? (I.slotNumber m.day m.period) = some s :=
    bounded_eq_some_iff.2 (Donation.slotNumber_eq_of_slot? hs).symm
  have hreplace : d.replace m.meeting = d.takeOver m.course s := by rw [replace, hm]
  rw [checkedDisplace, checkedReplace_eq hI, hreplace, displace]
  cases htake : d.takeOver m.course s with
  | displaced old next =>
    -- the one that had to leave goes back by its own day and period, which are those of the donation
    have hold : old.meeting.placement? I = some ⟨old.course, s⟩ :=
      Meeting.placement?_eq_some_iff.2 (by rw [← slot_of_takeOver htake])
    cases hallot : (allot (next.coursesAt s)).isOk <;>
      simp [hlookup, checkedAllot_eq, allottable, hallot, checkedRemove_of_placement? hI next hm,
        checkedAdd_of_placement? hI _ hold]
  | inserted next => simp [checkedRemove_of_placement? hI next hm]
  | blocked next => rfl

theorem checkedSettle_eq (d : Draft I) (m : Donation I) : d.checkedSettle m = some (d.settle m) := by
  cases hs : m.slot? with
  | none =>
    have hm : m.meeting.placement? I = none := by rw [m.placement?_meeting, hs, Option.map_none]
    simp [checkedSettle, checkedFitsMeeting, checkedDisplace, checkedReplace, hm, settle, hs]
  | some s =>
    have hm : m.meeting.placement? I = some ⟨m.course, s⟩ := by
      rw [m.placement?_meeting, hs, Option.map_some]
    simp only [checkedSettle, checkedFitsMeeting_of_placement? hI d hm,
      checkedAdd_of_placement? hI d hm, checkedDisplace_eq hI d hs, settle, hs]
    cases d.fits m.course s with
    | true => rfl
    | false =>
      obtain ⟨_ | old, next⟩ := d.displace m.course s
      · rfl
      · rfl

theorem checkedSettleAll_eq (d : Draft I) (ms : List (Donation I)) :
    d.checkedSettleAll ms = some (d.settleAll ms) := by
  induction ms generalizing d with
  | nil => rfl
  | cons m ms ih => simp [checkedSettleAll, settleAll, checkedSettle_eq hI, ih]

end Draft

omit hI in
/-- A random slot is at a random day and a random period. -/
theorem checkedDrawTime_eq : (checkedDrawTime I : Draw σ (Nat × Nat)) = do
    let s ← drawSlot I
    return (dayOf s, periodOf s) := by
  rw [checkedDrawTime, drawSlot, bind_assoc]
  refine bind_congr fun day => ?_
  rw [bind_assoc]
  refine bind_congr fun period => ?_
  obtain ⟨hday, hperiod⟩ := slotAt?_eq_some_iff.1 (dif_pos ⟨day.isLt, period.isLt⟩)
  rw [pure_bind, ← hday, ← hperiod]

theorem checkedPlaceAnywhere_eq (d : Draft I) (c : CourseIx I) (tries : Nat) :
    (checkedPlaceAnywhere d c tries : Draw σ (Option (Draft I))) = placeAnywhere d c tries := by
  induction tries with
  | zero => rfl
  | succ tries ih =>
    rw [checkedPlaceAnywhere, placeAnywhere, checkedDrawTime_eq, bind_assoc]
    refine bind_congr fun s => ?_
    have hm := Draft.placement?_dayOf_periodOf c s
    simp only [pure_bind, Draft.checkedFitsMeeting_of_placement? hI d hm,
      Draft.checkedAdd_of_placement? hI d hm, ofOption_some, ih]

theorem checkedPlaceWaiting_eq (gaps : List (Slot I)) (tries : Nat) (d : Draft I)
    (c : CourseIx I) :
    (checkedPlaceWaiting gaps tries d c : Draw σ (Option (Draft I))) =
      placeWaiting gaps tries d c := by
  rw [checkedPlaceWaiting, findM?_eq_some_find? (d.checkedFitsAt_eq hI c), ofOption_some, pure_bind,
    placeWaiting]
  cases gaps.find? (d.fits c) with
  | none => exact checkedPlaceAnywhere_eq hI d c tries
  | some s => simp [Draft.checkedAddAt_eq hI]

theorem checkedPlaceAllWaiting_eq (gaps : List (Slot I)) (tries : Nat) (d : Draft I)
    (cs : List (CourseIx I)) :
    (checkedPlaceAllWaiting gaps tries d cs : Draw σ (Option (Draft I))) =
      placeAllWaiting gaps tries d cs := by
  induction cs generalizing d with
  | nil => rfl
  | cons c cs ih =>
    simp only [checkedPlaceAllWaiting, checkedPlaceWaiting_eq hI, ih]
    rfl

theorem checkedGraftOnce_eq (t : Timetable I) (donated : List (Donation I)) (tries : Nat) :
    (checkedGraftOnce t donated tries : Draw σ (Option (Timetable I))) =
      graftOnce t donated tries := by
  simp only [checkedGraftOnce, t.checkedWithoutRooms_eq hI, checkedVacate_eq hI,
    Draft.checkedSettleAll_eq hI, checkedPlaceAllWaiting_eq hI, Draft.checkedWithRooms_eq hI,
    ofOption_some, pure_bind]
  rfl

theorem checkedGraftWithin_eq (t : Timetable I) (donated : List (Donation I))
    (tries attempts : Nat) :
    (checkedGraftWithin t donated tries attempts : Draw σ (Timetable I)) =
      graftWithin t donated tries attempts := by
  induction attempts with
  | zero => rfl
  | succ attempts ih =>
    simp only [checkedGraftWithin, checkedGraftOnce_eq hI, ih]
    rfl

theorem checkedGraft_eq (settings : Settings) (t : Timetable I) (donated : List (Donation I)) :
    (checkedGraft settings t donated : Draw σ (Timetable I)) = graft settings t donated := by
  simp only [checkedGraft, graft, checkedGraftWithin_eq hI]

theorem checkedGraftMeetings_eq (settings : Settings) (t : Timetable I)
    (donated : List RoomMeeting) :
    (checkedGraftMeetings settings t donated : Draw σ (Timetable I)) =
      graftMeetings settings t donated := by
  rw [checkedGraftMeetings, graftMeetings]
  cases donated.mapM (Donation.ofMeeting? I) with
  | none => rfl
  | some ms => exact checkedGraft_eq hI settings t ms

theorem checkedCross_eq (rule : DonationRule) (settings : Settings) (p q : Timetable I) :
    (checkedCross rule settings p q : Draw σ (Timetable I × Timetable I)) =
      cross rule settings p q := by
  simp only [checkedCross, cross, DonationRule.checkedDraw_eq, checkedGraft_eq hI]

end

/-! ### Mutations -/

/-- The meetings of the draft, slot by slot. -/
def Draft.checkedMeetings (d : Draft I) : Option (List Meeting) :=
  d.placements.mapM fun p => do
    let (day, period) ← I.checkedSplit p.slot
    return ⟨p.course, day, period⟩

/-- One of the meetings. -/
def checkedDrawMeeting (ms : List Meeting) : Draw σ Meeting := do
  let i ← below ms.length
  ofOption ms[i.val]?

def Draft.checkedExchange (d : Draft I) (a b : Meeting) : Option (Option (Draft I)) :=
  if a.course = b.course ∨ (a.day, a.period) = (b.day, b.period) then return none
  else do
    let without ← (← d.checkedRemove a).checkedRemove b
    if ← without.checkedFitsMeeting ⟨a.course, b.day, b.period⟩ then
      let half ← without.checkedAdd ⟨a.course, b.day, b.period⟩
      if ← half.checkedFitsMeeting ⟨b.course, a.day, a.period⟩ then
        return some (← half.checkedAdd ⟨b.course, a.day, a.period⟩)
      else return none
    else return none

def checkedDrawExchange (d : Draft I) (ms : List Meeting) : Draw σ (Option (Draft I)) := do
  let a ← checkedDrawMeeting ms
  let b ← checkedDrawMeeting ms
  ofOption (d.checkedExchange a b)

def checkedPlaceElsewhere (d : Draft I) (home : Meeting) : Nat → Draw σ (Option (Draft I))
  | 0 => return none
  | tries + 1 => do
    let (day, period) ← checkedDrawTime I
    let fits ← ofOption (d.checkedFitsMeeting ⟨home.course, day, period⟩)
    if (day, period) ≠ (home.day, home.period) ∧ fits then
      return some (← ofOption (d.checkedAdd ⟨home.course, day, period⟩))
    else checkedPlaceElsewhere d home tries

def checkedDrawMove (d : Draft I) (ms : List Meeting) (tries : Nat) : Draw σ (Option (Draft I)) := do
  let m ← checkedDrawMeeting ms
  checkedPlaceElsewhere (← ofOption (d.checkedRemove m)) m tries

namespace MutationKind

def checkedAttempt (kind : MutationKind) (d : Draft I) (ms : List Meeting) (tries : Nat) :
    Draw σ (Option (Timetable I)) := do
  let changed ← match kind with
    | exchange => checkedDrawExchange d ms
    | move => checkedDrawMove d ms tries
  match changed with
  | some d => return (← ofOption d.checkedWithRooms).toOption
  | none => return none

def checkedWithin (kind : MutationKind) (d : Draft I) (ms : List Meeting) (tries : Nat) :
    Nat → Draw σ (Option (Timetable I))
  | 0 => return none
  | attempts + 1 => do
    match ← kind.checkedAttempt d ms tries with
    | some child => return some child
    | none => kind.checkedWithin d ms tries attempts

def checkedMutate (kind : MutationKind) (settings : Settings) (parent : Timetable I) :
    Draw σ (Option (Timetable I)) := do
  let d ← ofOption parent.checkedWithoutRooms
  let ms ← ofOption d.checkedMeetings
  if ms.length < kind.needs then return none
  else kind.checkedWithin d ms settings.randomPlacements (max 1 settings.mutationAttempts)

end MutationKind

section

variable (hI : I.Coherent)

theorem time_eq_iff {s s' : Slot I} :
    (dayOf s, periodOf s) = (dayOf s', periodOf s') ↔ s = s' := by
  constructor
  · intro h
    exact eq_of_dayOf_periodOf (congrArg Prod.fst h) (congrArg Prod.snd h)
  · rintro rfl
    rfl

/-- Drawing among the meetings is drawing among the placements. -/
theorem checkedDrawMeeting_map (ps : List (Placement I)) :
    (checkedDrawMeeting (ps.map Placement.meeting) : Draw σ Meeting) = do
      let i ← below ps.length
      return ps[i].meeting := by
  rw [checkedDrawMeeting, List.length_map]
  refine bind_congr fun i => ?_
  simp

include hI

namespace Draft

theorem checkedMeetings_eq (d : Draft I) :
    d.checkedMeetings = some (d.placements.map Placement.meeting) :=
  mapM_eq_some_map fun p _ => by rw [hI.checkedSplit_eq]; rfl

theorem checkedExchange_eq (d : Draft I) (a b : Placement I) :
    d.checkedExchange a.meeting b.meeting = some (d.exchange? a b) := by
  have hremove : ∀ (e : Draft I) (p : Placement I),
      e.checkedRemove p.meeting = some (e.lifted p.course p.slot) := fun e p =>
    checkedRemove_of_placement? hI e (placement?_dayOf_periodOf p.course p.slot)
  have hab : Meeting.placement? I ⟨a.meeting.course, b.meeting.day, b.meeting.period⟩ =
    some ⟨a.course, b.slot⟩ := placement?_dayOf_periodOf a.course b.slot
  have hba : Meeting.placement? I ⟨b.meeting.course, a.meeting.day, a.meeting.period⟩ =
    some ⟨b.course, a.slot⟩ := placement?_dayOf_periodOf b.course a.slot
  have hsame : (a.meeting.course = b.meeting.course ∨
      (a.meeting.day, a.meeting.period) = (b.meeting.day, b.meeting.period)) ↔
        (a.course = b.course ∨ a.slot = b.slot) := or_congr Fin.val_inj time_eq_iff
  by_cases h : a.course = b.course ∨ a.slot = b.slot
  · rw [checkedExchange, exchange?, if_pos h, if_pos (hsame.2 h)]
    rfl
  · rw [checkedExchange, exchange?, if_neg h, if_neg (mt hsame.1 h)]
    simp only [hremove, Option.bind_eq_bind, Option.bind_some,
      checkedFitsMeeting_of_placement? hI _ hab, checkedAdd_of_placement? hI _ hab,
      checkedFitsMeeting_of_placement? hI _ hba, checkedAdd_of_placement? hI _ hba]
    split
    · split <;> rfl
    · rfl

end Draft

theorem checkedDrawExchange_eq (d : Draft I) :
    (checkedDrawExchange d (d.placements.map Placement.meeting) : Draw σ (Option (Draft I))) =
      drawExchange d := by
  simp only [checkedDrawExchange, checkedDrawMeeting_map, bind_assoc, pure_bind,
    d.checkedExchange_eq hI, ofOption_some, drawExchange]

theorem checkedPlaceElsewhere_eq (d : Draft I) (home : Placement I) (tries : Nat) :
    (checkedPlaceElsewhere d home.meeting tries : Draw σ (Option (Draft I))) =
      placeElsewhere d home.course home.slot tries := by
  induction tries with
  | zero => rfl
  | succ tries ih =>
    rw [checkedPlaceElsewhere, placeElsewhere, checkedDrawTime_eq, bind_assoc]
    refine bind_congr fun s => ?_
    have hm : Meeting.placement? I ⟨home.meeting.course, dayOf s, periodOf s⟩ =
      some ⟨home.course, s⟩ := Draft.placement?_dayOf_periodOf home.course s
    have hhome : (dayOf s, periodOf s) = (home.meeting.day, home.meeting.period) ↔ s = home.slot :=
      time_eq_iff
    simp only [pure_bind, Draft.checkedFitsMeeting_of_placement? hI d hm,
      Draft.checkedAdd_of_placement? hI d hm, ofOption_some, ih, ne_eq, hhome]

theorem checkedDrawMove_eq (d : Draft I) (tries : Nat) :
    (checkedDrawMove d (d.placements.map Placement.meeting) tries : Draw σ (Option (Draft I))) =
      drawMove d tries := by
  have hremove : ∀ p : Placement I, d.checkedRemove p.meeting = some (d.lifted p.course p.slot) :=
    fun p => Draft.checkedRemove_of_placement? hI d
      (Draft.placement?_dayOf_periodOf p.course p.slot)
  simp only [checkedDrawMove, checkedDrawMeeting_map, bind_assoc, pure_bind, hremove, ofOption_some,
    checkedPlaceElsewhere_eq hI, drawMove]

namespace MutationKind

theorem checkedAttempt_eq (kind : MutationKind) (d : Draft I) (tries : Nat) :
    (kind.checkedAttempt d (d.placements.map Placement.meeting) tries :
      Draw σ (Option (Timetable I))) = kind.attempt d tries := by
  have hrooms : ∀ o : Option (Draft I), (match o with
      | some d => do return (← ofOption d.checkedWithRooms).toOption
      | none => return none : Draw σ (Option (Timetable I))) =
      pure (o.bind fun d => d.withRooms.toOption) := by
    rintro (_ | e)
    · rfl
    · simp [e.checkedWithRooms_eq hI]
  cases kind with
  | exchange =>
    simp only [checkedAttempt, checkedDrawExchange_eq hI, attempt]
    exact bind_congr hrooms
  | move =>
    simp only [checkedAttempt, checkedDrawMove_eq hI, attempt]
    exact bind_congr hrooms

theorem checkedWithin_eq (kind : MutationKind) (d : Draft I) (tries attempts : Nat) :
    (kind.checkedWithin d (d.placements.map Placement.meeting) tries attempts :
      Draw σ (Option (Timetable I))) = kind.within d tries attempts := by
  induction attempts with
  | zero => rfl
  | succ attempts ih =>
    rw [checkedWithin, kind.checkedAttempt_eq hI, ih]
    rfl

theorem checkedMutate_eq (kind : MutationKind) (settings : Settings) (parent : Timetable I) :
    (kind.checkedMutate settings parent : Draw σ (Option (Timetable I))) =
      kind.mutate settings parent := by
  simp only [checkedMutate, parent.checkedWithoutRooms_eq hI, Draft.checkedMeetings_eq hI,
    ofOption_some, pure_bind, List.length_map, kind.checkedWithin_eq hI, mutate]

end MutationKind

end

end Timetabling
