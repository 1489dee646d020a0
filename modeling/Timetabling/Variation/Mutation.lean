import Timetabling.Variation.Graft

/-! Changes of one timetable: two meetings of different courses exchange their slots, or one meeting
    moves to a random other slot. Every attempt begins with the parent's draft, and gives a child
    only if rooms can be given out again. -/

namespace Timetabling

variable {I : Instance} {σ : Type} [WordSource σ]

/-- How a timetable is changed. -/
inductive MutationKind where
  | exchange
  | move
  deriving DecidableEq, Repr

namespace Draft

/-- Two placements taken out and put back, each at the slot of the other. -/
def exchange? (d : Draft I) (a b : Placement I) : Option (Draft I) :=
  if a.course = b.course ∨ a.slot = b.slot then none
  else
    let without := (d.lifted a.course a.slot).lifted b.course b.slot
    if without.fits a.course b.slot then
      let half := without.placed a.course b.slot
      if half.fits b.course a.slot then some (half.placed b.course a.slot) else none
    else none

end Draft

/-- Exchanges two random placements. -/
def drawExchange (d : Draft I) : Draw σ (Option (Draft I)) := do
  let ps := d.placements
  let a ← Draw.below ps.length
  let b ← Draw.below ps.length
  return d.exchange? ps[a] ps[b]

/-- Places the course at a random slot that it fits other than `home`, trying so many of them. -/
def placeElsewhere (d : Draft I) (c : CourseIx I) (home : Slot I) : Nat → Draw σ (Option (Draft I))
  | 0 => return none
  | tries + 1 => do
    let s ← drawSlot I
    if s ≠ home ∧ d.fits c s then return some (d.placed c s) else placeElsewhere d c home tries

/-- Moves a random placement to another slot. -/
def drawMove (d : Draft I) (tries : Nat) : Draw σ (Option (Draft I)) := do
  let ps := d.placements
  let m ← Draw.below ps.length
  placeElsewhere (d.lifted ps[m].course ps[m].slot) ps[m].course ps[m].slot tries

namespace MutationKind

/-- The least number of meetings that the change needs. -/
def needs : MutationKind → Nat
  | exchange => 2
  | move => 1

/-- One attempt at a change. -/
def attempt (kind : MutationKind) (d : Draft I) (tries : Nat) : Draw σ (Option (Timetable I)) := do
  let changed ← match kind with
    | exchange => drawExchange d
    | move => drawMove d tries
  return changed.bind fun d => d.withRooms.toOption

/-- Attempts until one succeeds, so many at most. -/
def within (kind : MutationKind) (d : Draft I) (tries : Nat) : Nat → Draw σ (Option (Timetable I))
  | 0 => return none
  | attempts + 1 => do
    match ← kind.attempt d tries with
    | some child => return some child
    | none => kind.within d tries attempts

/-- A changed copy of the parent, or nothing when no change was found or there is nothing to change;
    in the latter case no word is taken. -/
def mutate (kind : MutationKind) (settings : Settings) (parent : Timetable I) :
    Draw σ (Option (Timetable I)) :=
  let d := parent.withoutRooms
  if d.placements.length < kind.needs then return none
  else kind.within d settings.randomPlacements (max 1 settings.mutationAttempts)

end MutationKind

end Timetabling
