import Timetabling.Random.Draw
import Timetabling.Rooming
import Timetabling.Settings

/-! Grafting meetings into a timetable. The recipient gives up its rooms and becomes a draft. For
    each donated meeting that it does not have, one of its other meetings of the course is taken out
    and leaves a gap. Each donated meeting then goes where it was, displacing at most one course;
    what finds no place there waits. The courses that wait go into the gaps or to random slots, and
    in the end rooms are given out again. If any of this fails the graft is tried again, and after
    the last attempt the recipient stays as it was. -/

namespace Timetabling

open Instance

variable {I : Instance}

/-- A donated lecture of a known course, at a day and a period that need not be on the grid. -/
structure Donation (I : Instance) where
  course : CourseIx I
  day : Nat
  period : Nat
  deriving DecidableEq, Repr

namespace Donation

/-- The booking as a donation; its room is left behind. -/
def ofBooking (b : Booking I) : Donation I := ⟨b.course, b.day, b.period⟩

/-- The donation that a meeting stands for, if its course exists. -/
def ofMeeting? (I : Instance) (m : RoomMeeting) : Option (Donation I) :=
  (I.courseIx? m.course).map fun c => ⟨c, m.day, m.period⟩

/-- The slot of the donation, if it is on the grid. -/
def slot? (m : Donation I) : Option (Slot I) := I.slotAt? m.day m.period

/-- Whether the donation has this course and this slot number; off the grid the number may be that
    of another day and period. -/
def claims (m : Donation I) (c : CourseIx I) (s : Slot I) : Bool :=
  m.course = c && I.slotNumber m.day m.period = s.val

end Donation

namespace Draft

/-- Whether the draft has the donated lecture. -/
def hasDonation (d : Draft I) (m : Donation I) : Bool :=
  m.slot?.any fun s => (d.slotsOf m.course).contains s

/-- Puts the course at the slot in place of the one that conflicts with it, provided that rooms can
    still be given out there; gives the course that had to leave. Otherwise whatever was done is
    undone. -/
def displace (d : Draft I) (c : CourseIx I) (s : Slot I) : Option (CourseIx I) × Draft I :=
  match d.takeOver c s with
  | .displaced old next =>
    if allottable (next.coursesAt s) then (some old.course, next)
    else (none, (next.lifted c s).placed old.course s)
  | .inserted next => (none, next.lifted c s)
  | .blocked next => (none, next)

/-- Puts a donated lecture where it was, or puts its course or the one that it displaced on the list
    of those that wait. -/
def settle (d : Draft I) (m : Donation I) : Draft I × List (CourseIx I) :=
  match m.slot? with
  | none => (d, [m.course])
  | some s =>
    if d.fits m.course s then (d.placed m.course s, [])
    else match d.displace m.course s with
      | (some old, next) => (next, [old])
      | (none, next) => (next, [m.course])

/-- Puts donated lectures where they were, one after another; gives the courses that wait. -/
def settleAll (d : Draft I) : List (Donation I) → Draft I × List (CourseIx I)
  | [] => (d, [])
  | m :: ms =>
    let (d, waiting) := d.settle m
    let (d, more) := d.settleAll ms
    (d, waiting ++ more)

end Draft

/-- A draft from which meetings were taken out: the gaps that they left, and the donations for which
    this was done. -/
structure Vacated (I : Instance) where
  draft : Draft I
  gaps : List (Slot I)
  incoming : List (Donation I)
  deriving DecidableEq, Repr

variable {σ : Type} [WordSource σ]

/-- Takes out one meeting for a donation that the draft does not have, at a random slot of the
    course where nothing is donated, if there is one. -/
def vacateFor (donated : List (Donation I)) (v : Vacated I) (m : Donation I) :
    Draw σ (Vacated I) :=
  if v.draft.hasDonation m then return v
  else do
    let free := (v.draft.slotsOf m.course).filter fun s => !donated.any (·.claims m.course s)
    match ← Draw.among free with
    | none => return { v with incoming := v.incoming ++ [m] }
    | some s =>
      return {
        draft := v.draft.lifted m.course s
        gaps := v.gaps ++ [s]
        incoming := v.incoming ++ [m] }

/-- Takes out a meeting for each donation that the draft does not have. -/
def vacate (d : Draft I) (donated : List (Donation I)) : Draw σ (Vacated I) :=
  donated.foldlM (vacateFor donated) ⟨d, [], []⟩

/-- A random slot: first its day, then its period. -/
def drawSlot (I : Instance) : Draw σ (Slot I) := do
  let day ← Draw.below I.days
  let period ← Draw.below I.periods
  return ⟨_, I.slotNumber_lt day.isLt period.isLt⟩

/-- Places the course at a random slot that it fits, trying so many of them. -/
def placeAnywhere (d : Draft I) (c : CourseIx I) : Nat → Draw σ (Option (Draft I))
  | 0 => return none
  | tries + 1 => do
    let s ← drawSlot I
    if d.fits c s then return some (d.placed c s) else placeAnywhere d c tries

/-- Places the course in the first gap that it fits, else anywhere. -/
def placeWaiting (gaps : List (Slot I)) (tries : Nat) (d : Draft I) (c : CourseIx I) :
    Draw σ (Option (Draft I)) :=
  match gaps.find? (d.fits c) with
  | some s => return some (d.placed c s)
  | none => placeAnywhere d c tries

/-- Places the courses that wait, one after another, or none of them. -/
def placeAllWaiting (gaps : List (Slot I)) (tries : Nat) (d : Draft I) :
    List (CourseIx I) → Draw σ (Option (Draft I))
  | [] => return some d
  | c :: cs => do
    match ← placeWaiting gaps tries d c with
    | some d => placeAllWaiting gaps tries d cs
    | none => return none

/-- One attempt at a graft. -/
def graftOnce (t : Timetable I) (donated : List (Donation I)) (tries : Nat) :
    Draw σ (Option (Timetable I)) := do
  let v ← vacate t.withoutRooms donated
  let (d, waiting) := v.draft.settleAll v.incoming
  match ← placeAllWaiting v.gaps tries d waiting with
  | some d => return d.withRooms.toOption
  | none => return none

/-- Attempts until one succeeds, so many at most; after the last the recipient is kept. -/
def graftWithin (t : Timetable I) (donated : List (Donation I)) (tries : Nat) :
    Nat → Draw σ (Timetable I)
  | 0 => return t
  | attempts + 1 => do
    match ← graftOnce t donated tries with
    | some child => return child
    | none => graftWithin t donated tries attempts

/-- The recipient with the donated meetings grafted in. -/
def graft (settings : Settings) (t : Timetable I) (donated : List (Donation I)) :
    Draw σ (Timetable I) :=
  if donated = [] then return t
  else graftWithin t donated settings.randomPlacements (max 1 settings.repairAttempts)

/-- The same for meetings by plain numbers; fails when the course of one of them does not exist. -/
def graftMeetings (settings : Settings) (t : Timetable I) (donated : List RoomMeeting) :
    Draw σ (Timetable I) :=
  match donated.mapM (Donation.ofMeeting? I) with
  | some ms => graft settings t ms
  | none => failure

end Timetabling
