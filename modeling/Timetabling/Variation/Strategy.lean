import Timetabling.Construction.Build
import Timetabling.Variation.Donation
import Timetabling.Variation.Mutation

/-! The moves of a search over timetables. A strategy fixes the settings, how donations are chosen
    and how one timetable is changed; it builds a population, crosses two timetables and mutates
    one. A variation is such a move with the number of parents that it takes. -/

namespace Timetabling

variable {I : Instance} {σ : Type} [WordSource σ]

/-- Two children: the first parent with a donation of the second, then the second with a donation of
    the first. -/
def cross (rule : DonationRule) (settings : Settings) (p q : Timetable I) :
    Draw σ (Timetable I × Timetable I) := do
  let fromSecond ← rule.draw q
  let first ← graft settings p (fromSecond.map Donation.ofBooking)
  let fromFirst ← rule.draw p
  let second ← graft settings q (fromFirst.map Donation.ofBooking)
  return (first, second)

/-- A move from parents to children. -/
inductive Variation where
  | crossover (rule : DonationRule) (settings : Settings)
  | mutation (kind : MutationKind) (settings : Settings)
  deriving DecidableEq, Repr

namespace Variation

/-- The number of parents. -/
def arity : Variation → Nat
  | crossover .. => 2
  | mutation .. => 1

/-- The children of the first parents of the list; fails when there are too few parents. -/
def evolve : Variation → List (Timetable I) → Draw σ (List (Timetable I))
  | crossover rule settings, p :: q :: _ => do
    let (first, second) ← cross rule settings p q
    return [first, second]
  | mutation kind settings, p :: _ => do return (← kind.mutate settings p).toList
  | _, _ => failure

end Variation

/-- The choices that a search makes once. -/
structure Strategy where
  settings : Settings := {}
  donation : DonationRule := .course
  mutation : MutationKind := .exchange
  deriving DecidableEq, Repr

namespace Strategy

/-- The generator that the seed of the settings fixes. -/
def generator? (s : Strategy) : Option Xoshiro :=
  s.settings.seed.map fun n => Xoshiro.ofSeed (UInt64.ofNat n)

/-- A population of the given size. -/
def initial (s : Strategy) (I : Instance) (size : Nat) :
    Draw σ (Except BuildError (List (Timetable I))) :=
  buildMany I s.settings.initAttempts size

/-- The crossover of the strategy, as a move. -/
def crossover (s : Strategy) : Variation := .crossover s.donation s.settings

/-- The mutation of the strategy, as a move. -/
def mutator (s : Strategy) : Variation := .mutation s.mutation s.settings

/-- Two children of two parents. -/
def cross (s : Strategy) (p q : Timetable I) : Draw σ (Timetable I × Timetable I) :=
  Timetabling.cross s.donation s.settings p q

/-- A changed copy of a parent, if a change was found. -/
def mutate (s : Strategy) (parent : Timetable I) : Draw σ (Option (Timetable I)) :=
  s.mutation.mutate s.settings parent

end Strategy

end Timetabling
