import Timetabling.Random.Draw
import Timetabling.Settings
import Timetabling.Timetable

/-! Which meetings one timetable donates to another: those of a random course, those of a random
    curriculum, or a run of them that follow one another, a sector. Nothing is donated, and no word
    is taken, when there is no course or no curriculum to choose. -/

namespace Timetabling

/-- How a donation is chosen. -/
inductive DonationRule where
  | course
  | curriculum
  | sector (size : Nat)
  deriving DecidableEq, Repr

/-- The rule for sectors of the size that the settings give. -/
def DonationRule.sectorOf (s : Settings) : DonationRule := .sector s.sectorSize

variable {I : Instance} {σ : Type} [WordSource σ]

/-- A run of at most `size` members of the list, at a random place if there are more. -/
def drawWindow {α : Type} (size : Nat) (xs : List α) : Draw σ (List α) :=
  if xs.length ≤ size then return xs
  else do
    let start ← Draw.below (xs.length - size + 1)
    return (xs.drop start).take size

/-- The bookings of a random curriculum. -/
def drawCurriculum (t : Timetable I) : Draw σ (List (Booking I)) :=
  if I.curricula.size = 0 then return []
  else do return t.bookingsOfCurriculum (← Draw.below I.curricula.size)

/-- The bookings that the timetable donates. -/
def DonationRule.draw (rule : DonationRule) (t : Timetable I) : Draw σ (List (Booking I)) :=
  match rule with
  | course =>
    if I.courses.size = 0 then return []
    else do return t.bookingsOf (← Draw.below I.courses.size)
  | curriculum => drawCurriculum t
  | sector size => do drawWindow size (← drawCurriculum t)

end Timetabling
